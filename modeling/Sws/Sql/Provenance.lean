import Sws.Sql.Cells

/-! Where the texts of a database come from: a literal of a statement stands in the text of the statement
with its quotes doubled, and no statement puts into a table a text that is none of its literals. -/
namespace Sws.Sql

/-! ### Literals of a text -/

/-- The literal stands somewhere in the text. -/
def Quotes (q s : Text) : Prop := ∃ before after, q = before ++ quote :: (doubled quote s ++ quote :: after)

/-- What has been read ends with what the scanner gathers inside quotes. -/
def Gathers (read : Text) : Mode → Prop
  | .quoted c s => ∃ before, read = before ++ c :: doubled c s
  | .quotedEnd c s => ∃ before, read = before ++ c :: (doubled c s ++ [c])
  | _ => True

/-- The same for an answer of the scanner; the literals it emits stand in what has been read. -/
structure Follows (read : Text) (answer : List Token × Mode) : Prop where
  gathers : Gathers read answer.2
  quotes : ∀ s, .string s ∈ answer.1 → Quotes read s

section Literals

variable {read : Text} {m : Mode} {tokens : List Token} {c : Char}

theorem Quotes.append {q s : Text} (quotes : Quotes q s) (more : Text) : Quotes (q ++ more) s := by
  obtain ⟨before, after, rfl⟩ := quotes
  exact ⟨before, after ++ more, by simp⟩

theorem follows_quiet (gathers : Gathers read m) : Follows read ([], m) :=
  ⟨gathers, fun s held => by cases held⟩

theorem follows_enter (read : Text) (c : Char) : Follows (read ++ [c]) (enter c) := by
  unfold enter
  split_ifs with space word digit quoted
  · exact follows_quiet trivial
  · exact follows_quiet trivial
  · exact follows_quiet trivial
  · exact follows_quiet ⟨read, rfl⟩
  · split <;> exact ⟨trivial, by simp⟩

/-- Tokens complete before the character, and the one that begins with it. -/
theorem follows_emit (quotes : ∀ s, .string s ∈ tokens → Quotes (read ++ [c]) s) :
    Follows (read ++ [c]) (emit tokens c) := by
  obtain ⟨gathers, more⟩ := follows_enter read c
  refine ⟨gathers, fun s held => ?_⟩
  rcases List.mem_append.mp held with old | new
  · exact quotes s old
  · exact more s new

theorem word_no_literal (w s : Text) : Token.string s ≠ wordToken w := by
  unfold wordToken
  split
  · exact Token.noConfusion
  · split <;> exact Token.noConfusion

theorem follows_end_number (n : Text) : Follows (read ++ [c]) (endNumber n c) := by
  unfold endNumber
  split
  · exact follows_quiet trivial
  · exact follows_emit (by simp)

theorem gathers_comment (c : Char) : Gathers read (comment c) := by
  unfold comment
  split <;> trivial

/-- **One character.** -/
theorem follows_step (gathers : Gathers read m) (c : Char) : Follows (read ++ [c]) (step m c) := by
  cases m with
  | start => exact follows_enter read c
  | quoted q s =>
    obtain ⟨before, rfl⟩ := gathers
    apply follows_quiet
    by_cases same : c = q
    · subst same
      rw [if_pos rfl]
      exact ⟨before, by simp⟩
    · rw [if_neg same]
      exact ⟨before, by simp [doubled, same]⟩
  | quotedEnd q s =>
    obtain ⟨before, rfl⟩ := gathers
    by_cases same : c = q
    · subst same
      simp only [step, ↓reduceIte]
      exact follows_quiet ⟨before, by simp [doubled]⟩
    · simp only [step, same, ↓reduceIte]
      refine follows_emit fun t held => ?_
      unfold quotedToken at held
      split at held
      next single =>
        subst single
        cases List.mem_singleton.mp held
        exact ⟨before, [c], by simp⟩
      next => cases List.mem_singleton.mp held
  | word w =>
    simp only [step]
    split_ifs
    · exact follows_quiet trivial
    · exact follows_quiet trivial
    · exact follows_emit fun s held => absurd (List.mem_singleton.mp held) (word_no_literal w s)
  | lineComment =>
    apply follows_quiet
    split <;> trivial
  | blockOpen | blockComment => exact follows_quiet (gathers_comment c)
  | blockStar =>
    apply follows_quiet
    split
    · trivial
    · exact gathers_comment c
  | bracket n =>
    simp only [step]
    split_ifs
    · exact ⟨trivial, by simp⟩
    · exact follows_quiet trivial
  | blob ds =>
    simp only [step]
    split_ifs
    · exact ⟨trivial, by simp⟩
    · exact ⟨trivial, by simp⟩
    · exact follows_quiet trivial
  | _ =>
    simp only [step]
    split_ifs <;>
      first
        | exact follows_quiet trivial
        | exact follows_end_number _
        | exact follows_emit (by simp)
        | exact ⟨trivial, by simp⟩

theorem follows_run (gathers : Gathers read m) (input : Text) :
    Follows (read ++ input) (scanner.run m input) := by
  induction input generalizing read m with
  | nil =>
    rw [List.append_nil]
    exact follows_quiet gathers
  | cons c input ih =>
    obtain ⟨next, now⟩ := follows_step gathers c
    obtain ⟨last, later⟩ := ih next
    rw [List.append_assoc] at last later
    refine ⟨last, fun s held => ?_⟩
    rcases List.mem_append.mp held with first | rest
    · have quotes := (now s first).append input
      rwa [List.append_assoc] at quotes
    · exact later s rest

/-- Every literal of a text stands in it, its quotes doubled. -/
theorem quotes_of_lex {q s : Text} (member : .string s ∈ lex q) : Quotes q s := by
  obtain ⟨gathers, quotes⟩ := follows_run (show Gathers [] .start from trivial) q
  rw [List.nil_append] at gathers quotes
  rcases List.mem_append.mp member with before | last
  · exact quotes s before
  · -- The end of the text closes a literal only where its last quote does.
    have ends : ∀ m, Gathers q m → .string s ∈ finish m → Quotes q s := by
      intro m gathers held
      cases m with
      | quotedEnd c t =>
        simp only [finish, quotedToken] at held
        split at held
        next single =>
          subst single
          cases List.mem_singleton.mp held
          obtain ⟨before, rfl⟩ := gathers
          exact ⟨before, [], rfl⟩
        next => cases List.mem_singleton.mp held
      | word w => exact absurd (List.mem_singleton.mp held) (word_no_literal w s)
      | parameter named length =>
        simp only [finish] at held
        split at held <;> cases List.mem_singleton.mp held
      | _ => simp [finish] at held
    exact ends _ gathers last

end Literals

/-! ### Literals of a statement -/

/-- The values a statement may put into a table. -/
def Stmt.values : Stmt → List Value
  | .createTable _ _ columns _ => columns.map (·.default)
  | .insert _ _ _ rows => rows.flatten
  | .update _ sets _ => sets.map (·.2)
  | _ => []

section Statements

variable {s : Text} {as : List Atom} {stmt : Stmt}

theorem number_no_text {n : Text} {v : Value} (read : number? n = some v) :
    (∀ t, v ≠ .text t) ∧ ∀ t, v.negate ≠ .text t := by
  unfold number? at read
  split at read
  · cases read
    exact ⟨fun _ => Value.noConfusion, fun _ => Value.noConfusion⟩
  · split at read
    · cases read
      exact ⟨fun _ => Value.noConfusion, fun _ => Value.noConfusion⟩
    · cases read
  · cases read

theorem number_atom_no_text (n : Text) :
    .lit (.text s) ≠ numberAtom n id ∧ .lit (.text s) ≠ numberAtom n Value.negate := by
  unfold numberAtom
  cases read : number? n with
  | none => exact ⟨Atom.noConfusion, Atom.noConfusion⟩
  | some v =>
    obtain ⟨plain, negative⟩ := number_no_text read
    exact ⟨fun same => plain s (Atom.lit.inj same).symm, fun same => negative s (Atom.lit.inj same).symm⟩

theorem string_of_atoms {ts : List Token} (held : .lit (.text s) ∈ atoms ts) : .string s ∈ ts := by
  fun_induction atoms ts with
  | case1 => cases held
  | case2 n rest ih =>
    rcases List.mem_cons.mp held with same | later
    · exact absurd same (number_atom_no_text n).2
    · exact List.mem_cons_of_mem _ (List.mem_cons_of_mem _ (ih later))
  | case3 n rest ih =>
    rcases List.mem_cons.mp held with same | later
    · exact absurd same (number_atom_no_text n).1
    · exact List.mem_cons_of_mem _ (ih later)
  | case4 t rest ih =>
    rcases List.mem_cons.mp held with same | later
    · cases same
      exact List.mem_cons_self
    · exact List.mem_cons_of_mem _ (ih later)
  | _ =>
    rename_i ih
    rcases List.mem_cons.mp held with same | later
    · cases same
    · exact List.mem_cons_of_mem _ (ih later)

theorem values_of_row_list {row : List Value} {rows : List (List Value)} (read : rowList row as = some rows) :
    ∀ v ∈ rows.flatten, v ∈ row ∨ .lit v ∈ as := by
  fun_induction rowList row as generalizing rows with
  | case1 row v rest ih =>
    intro w held
    rcases ih read w held with old | new
    · rcases List.mem_append.mp old with old | new
      · exact .inl old
      · cases List.mem_singleton.mp new
        exact .inr List.mem_cons_self
    · exact .inr (List.mem_cons_of_mem _ (List.mem_cons_of_mem _ new))
  | case2 row v =>
    cases read
    intro w held
    simpa using held
  | case3 row v rest ih =>
    obtain ⟨more, others, rfl⟩ := Option.map_eq_some_iff.mp read
    intro w held
    rw [List.flatten_cons] at held
    rcases List.mem_append.mp held with first | later
    · simp only [List.mem_append, List.mem_singleton] at first
      rcases first with old | rfl
      · exact .inl old
      · exact .inr List.mem_cons_self
    · rcases ih others w later with none | new
      · cases none
      · simp [new]
  | case4 => cases read

theorem defaults_of_column_defs {done : List ColumnDef} {key : List Text} {open? : Option (ColumnDef × Bool)}
    {columns : List ColumnDef} {keys : List Text} {d : ColumnDef}
    (read : columnDefs done key open? as = some (columns, keys)) (held : d ∈ columns)
    (default : d.default = .text s) :
    d ∈ done ∨ (∃ o, open? = some o ∧ o.1.default = .text s) ∨ .lit (.text s) ∈ as := by
  fun_induction columnDefs done key open? as with
  | case1 done key n rest ih =>
    rcases ih read with old | ⟨o, same, own⟩ | new
    · exact .inl old
    · cases same
      cases own
    · exact .inr (.inr (List.mem_cons_of_mem _ new))
  | case2 done key c w rest ih =>
    rcases ih read with old | ⟨o, same, own⟩ | new
    · exact .inl old
    · cases same
      exact .inr (.inl ⟨_, rfl, own⟩)
    · exact .inr (.inr (List.mem_cons_of_mem _ new))
  | case3 done key c complete v rest ih =>
    rcases ih read with old | ⟨o, same, own⟩ | new
    · exact .inl old
    · cases same
      have value : v = .text s := own
      simp [value]
    · simp [new]
  | case4 done key c complete rest ih =>
    rcases ih read with old | ⟨o, same, own⟩ | new
    · exact .inl old
    · cases same
      exact .inr (.inl ⟨_, rfl, own⟩)
    · simp [new]
  | case5 done key c complete rest ih =>
    rcases ih read with old | ⟨o, same, own⟩ | new
    · exact .inl old
    · cases same
      exact .inr (.inl ⟨_, rfl, own⟩)
    · simp [new]
  | case6 done key c complete rest ih =>
    rcases ih read with old | ⟨o, same, own⟩ | new
    · rcases List.mem_append.mp old with old | last
      · exact .inl old
      · cases List.mem_singleton.mp last
        exact .inr (.inl ⟨_, rfl, default⟩)
    · cases same
    · simp [new]
  | case7 done key c complete =>
    cases read
    rcases List.mem_append.mp held with old | last
    · exact .inl old
    · cases List.mem_singleton.mp last
      exact .inr (.inl ⟨_, rfl, default⟩)
  | case8 done key rest names closed =>
    cases read
    exact .inl held
  | _ => cases read

theorem rest_of_name_list {names : List Text} {rest : List Atom} (read : nameList as = some (names, rest)) :
    ∀ a ∈ rest, a ∈ as := by
  fun_induction nameList as generalizing names with
  | case1 n more ih =>
    obtain ⟨⟨found, left⟩, inner, same⟩ := Option.map_eq_some_iff.mp read
    cases same
    intro a held
    exact List.mem_cons_of_mem _ (List.mem_cons_of_mem _ (ih inner a held))
  | case2 n more =>
    cases read
    intro a held
    exact List.mem_cons_of_mem _ (List.mem_cons_of_mem _ held)
  | case3 => cases read

theorem values_of_insertion {replace : Bool} {table : Text} (read : insertion replace table as = some stmt) :
    ∀ v ∈ stmt.values, .lit v ∈ as := by
  intro v held
  unfold insertion at read
  split at read
  next rest =>
    obtain ⟨rows, inner, rfl⟩ := Option.map_eq_some_iff.mp read
    rcases values_of_row_list inner v held with none | new
    · cases none
    · simp [new]
  next rest =>
    split at read
    next columns rows listed =>
      obtain ⟨rows', inner, rfl⟩ := Option.map_eq_some_iff.mp read
      rcases values_of_row_list inner v held with none | new
      · cases none
      · exact List.mem_cons_of_mem _ (rest_of_name_list listed _ (by simp [new]))
    · cases read
  · cases read

theorem values_of_assignments {sets : List (Text × Value)} {table : Text}
    (read : assignments sets table as = some stmt) :
    ∀ v ∈ stmt.values, v ∈ sets.map (·.2) ∨ .lit v ∈ as := by
  fun_induction assignments sets table as with
  | case1 sets c v rest ih =>
    intro w held
    rcases ih read w held with old | new
    · rw [List.map_append] at old
      rcases List.mem_append.mp old with old | last
      · exact .inl old
      · cases List.mem_singleton.mp last
        simp
    · simp [new]
  | case2 sets c v rest =>
    obtain ⟨filter, -, rfl⟩ := Option.map_eq_some_iff.mp read
    intro w held
    have values : w ∈ (sets ++ [(c, v)]).map (·.2) := held
    rw [List.map_append] at values
    rcases List.mem_append.mp values with old | last
    · exact .inl old
    · cases List.mem_singleton.mp last
      simp
  | case3 => cases read

/-- A query puts nothing into a table. -/
theorem values_of_selection {distinct : Bool} {columns : List Text}
    (read : selection distinct columns as = some stmt) :
    stmt.values = [] := by
  fun_induction selection distinct columns as with
  | case1 columns c rest ih => exact ih read
  | case2 columns c t =>
    cases read
    rfl
  | case3 columns c t rest =>
    obtain ⟨filter, -, rfl⟩ := Option.map_eq_some_iff.mp read
    rfl
  | case4 => cases read

theorem literal_of_statement (read : statement as = some stmt) (held : .text s ∈ stmt.values) :
    .lit (.text s) ∈ as := by
  have creates {ifNotExists : Bool} {n : Text} {rest : List Atom}
      (read : ((columnDefs [] [] none rest).map fun p => Stmt.createTable ifNotExists n p.1 p.2) = some stmt) :
      .lit (.text s) ∈ rest := by
    obtain ⟨⟨columns, keys⟩, inner, rfl⟩ := Option.map_eq_some_iff.mp read
    obtain ⟨d, member, default⟩ := List.mem_map.mp held
    rcases defaults_of_column_defs inner member default with none | ⟨o, none, -⟩ | new
    · cases none
    · cases none
    · exact new
  unfold statement at read
  split at read
  · simp [creates read]
  · simp [creates read]
  · simp [values_of_insertion read _ held]
  · simp [values_of_insertion read _ held]
  · rcases values_of_assignments read _ held with none | new
    · cases none
    · simp [new]
  · obtain ⟨filter, -, rfl⟩ := Option.map_eq_some_iff.mp read
    cases held
  · cases read
    cases held
  · rw [values_of_selection read] at held
    cases held
  · rw [values_of_selection read] at held
    cases held
  · cases read

theorem string_of_parse {ts : List Token} (read : parse ts = .ok stmt) (held : .text s ∈ stmt.values) :
    .string s ∈ ts := by
  unfold parse at read
  split at read
  · cases read
  · split at read
    next found =>
      cases read
      exact string_of_atoms (literal_of_statement found held)
    next => cases read

end Statements

/-! ### Texts of a table -/

namespace Table

/-- The text stands in a row beside another cell, or is the default of a column. -/
def Carries (t : Table) (s : Text) : Prop :=
  (1 < t.columns.length ∧ ∃ r ∈ t.rows, .text s ∈ r) ∨ ∃ d ∈ t.columns, d.default = .text s

end Table

/-- The table of this name carries no such text. -/
def Db.Lacks (db : Db) (n s : Text) : Prop := ∀ t, db.lookup n = some t → ¬ t.Carries s

section Tables

variable {db after : Db} {t u : Table} {stmt : Stmt} {n s : Text}

theorem text_of_store {a : Affinity} {v : Value} (stored : store a v = .ok (.text s)) : v = .text s := by
  cases a <;> cases v <;> cases stored <;> rfl

/-- A cell of a row built from values is one of them, or a default. -/
theorem text_of_full_row {columns : Option (List Text)} {values : List Value} {r : Row}
    (built : t.fullRow columns values = .ok r) (held : .text s ∈ r) :
    .text s ∈ values ∨ ∃ d ∈ t.columns, d.default = .text s := by
  unfold Table.fullRow at built
  dsimp only at built
  split at built
  · obtain ⟨d, member, stored⟩ := mem_of_map_m built held
    have source := text_of_store stored
    cases given : ((columns.getD (t.columns.map (·.name))).zip values).find? fun p => fold p.1 = fold d.name with
    | none =>
      rw [given] at source
      exact .inr ⟨d, member, source⟩
    | some p =>
      rw [given] at source
      have value : p.2 = .text s := source
      have among := List.of_mem_zip (List.mem_of_find?_eq_some given)
      exact .inl (value ▸ among.2)
  · cases built

theorem text_of_assign {sets : List (Text × Value)} {r r' : Row} (assigned : t.assign sets r = .ok r')
    (held : .text s ∈ r') : .text s ∈ r ∨ .text s ∈ sets.map (·.2) := by
  unfold Table.assign at assigned
  induction sets generalizing r with
  | nil =>
    cases assigned
    exact .inl held
  | cons p sets ih =>
    rw [List.foldlM_cons] at assigned
    obtain ⟨middle, one, rest⟩ := bind_eq_ok_iff.mp assigned
    rw [List.map_cons, List.mem_cons]
    rcases ih rest with old | new
    · split at one
      · cases one
      next i _ =>
        cases stored : store (affinity ((t.columns[i]?).elim [] (·.type))) p.2 with
        | error fault =>
          rw [stored] at one
          cases one
        | ok w =>
          rw [stored] at one
          cases one
          rcases List.mem_or_eq_of_mem_set old with kept | rfl
          · exact .inl kept
          · exact .inr (.inl (text_of_store stored).symm)
    · exact .inr (.inr new)

/-- The rows after insertions are old ones, or those inserted. -/
theorem row_of_insert_all {replace : Bool} {rows : List Row} {r : Row}
    (ran : rows.foldlM (fun v r => v.insertRow replace r) t = .ok u) (held : r ∈ u.rows) :
    r ∈ t.rows ∨ r ∈ rows := by
  induction rows generalizing t with
  | nil =>
    cases ran
    exact .inl held
  | cons first rows ih =>
    rw [List.foldlM_cons] at ran
    obtain ⟨v, one, rest⟩ := bind_eq_ok_iff.mp ran
    rcases ih rest with old | new
    · rw [insert_row_ok one] at old
      rcases List.mem_append.mp old with old | last
      · cases replace with
        | true => exact .inl (List.mem_of_mem_filter old)
        | false => exact .inl old
      · exact .inr (List.mem_cons.mpr (.inl (List.mem_singleton.mp last)))
    · exact .inr (List.mem_cons_of_mem _ new)

/-- A table put back with the columns it had: its rows beside old ones must lack the text. -/
theorem lacks_put {m : Text} (lacks : db.Lacks n s) (there : fold m = fold n) (found : db.lookup m = some t)
    (name : u.name = t.name) (columns : u.columns = t.columns)
    (rows : 1 < t.columns.length → (∀ d ∈ t.columns, d.default ≠ .text s) →
      ∀ r ∈ u.rows, .text s ∈ r → ∃ r ∈ t.rows, .text s ∈ r) : (db.put u).Lacks n s := by
  have own : db.lookup n = some t := (Db.lookup_congr there.symm).trans found
  have spelt : fold u.name = fold n := by
    rw [name]
    exact Db.fold_name_of_lookup own
  intro v found'
  cases (Db.lookup_put_self own spelt).symm.trans found'
  have old := lacks t own
  have defaults : ∀ d ∈ t.columns, d.default ≠ .text s := fun d member text => old (.inr ⟨d, member, text⟩)
  rintro (⟨wide, r, held, text⟩ | ⟨d, member, text⟩)
  · rw [columns] at wide
    exact old (.inl ⟨wide, rows wide defaults r held text⟩)
  · rw [columns] at member
    exact defaults d member text

/-- **One statement.** A table carries no text that it did not, and that is no literal of the statement. -/
theorem lacks_execute (lacks : db.Lacks n s) (absent : .text s ∉ stmt.values)
    (ran : execute db stmt = .ok after) : after.Lacks n s := by
  by_cases same : fold stmt.table = fold n
  swap
  · intro t found
    rw [execute_frame ran same] at found
    exact lacks t found
  cases stmt with
  | createTable ifNotExists name columns key =>
    rcases create_ok ran with ⟨-, rfl⟩ | ⟨free, rfl⟩
    · exact lacks
    · intro t found
      cases (Db.lookup_create_self free same).symm.trans found
      rintro (⟨-, r, held, -⟩ | ⟨d, member, text⟩)
      · cases held
      · exact absent (List.mem_map.mpr ⟨d, member, text⟩)
  | insert replace table columns rows =>
    obtain ⟨t, u, full, found, built, inserted, kept, rfl⟩ := insert_ok ran
    refine lacks_put lacks same found kept.name kept.columns fun _ defaults r held text => ?_
    rcases row_of_insert_all inserted held with old | new
    · exact ⟨r, old, text⟩
    · obtain ⟨values, member, one⟩ := mem_of_map_m built new
      rcases text_of_full_row one text with given | ⟨d, column, default⟩
      · exact absurd (List.mem_flatten.mpr ⟨values, member, given⟩) absent
      · exact absurd default (defaults d column)
  | update table sets filter =>
    obtain ⟨t, rows, found, -, -, each, rfl⟩ := update_ok ran
    refine lacks_put lacks same found rfl rfl fun _ _ r held text => ?_
    obtain ⟨before, member, one⟩ := mem_of_map_m each held
    split at one
    · rcases text_of_assign one text with old | new
      · exact ⟨before, member, old⟩
      · exact absurd new absent
    · cases one
      exact ⟨r, member, text⟩
  | delete table filter =>
    obtain ⟨t, found, rfl⟩ := delete_ok ran
    exact lacks_put lacks same found rfl rfl fun _ _ r held text => ⟨r, List.mem_of_mem_filter held, text⟩
  | dropTable name =>
    rw [execute] at ran
    split at ran
    · cases ran
    · cases ran
      intro t found
      cases ((Db.lookup_congr same.symm).trans Db.lookup_erase_self).symm.trans found
  | select distinct columns table filter => cases ran

theorem token_of_statements {ts part : List Token} {token : Token} (among : part ∈ statements ts)
    (held : token ∈ part) : token ∈ ts := by
  fun_induction statements ts generalizing part with
  | case1 =>
    cases List.mem_singleton.mp among
    cases held
  | case2 rest ih =>
    rcases List.mem_cons.mp among with rfl | later
    · cases held
    · exact List.mem_cons_of_mem _ (ih later held)
  | case3 t rest other s more split ih =>
    rw [split] at ih
    rcases List.mem_cons.mp among with rfl | later
    · rcases List.mem_cons.mp held with rfl | inner
      · exact List.mem_cons_self
      · exact List.mem_cons_of_mem _ (ih List.mem_cons_self inner)
    · exact List.mem_cons_of_mem _ (ih (List.mem_cons_of_mem _ later) held)
  | case4 t rest other split ih =>
    cases List.mem_singleton.mp among
    cases List.mem_singleton.mp held
    exact List.mem_cons_self

/-- **One text.** No table carries a text after it that it did not before, unless the text is a literal. -/
theorem lacks_exec {q : Text} {ok : Bool} (lacks : db.Lacks n s) (absent : .string s ∉ lex (cStr q))
    (ran : exec db q = some (after, ok)) : after.Lacks n s := by
  refine @kept_by_statements (fun db => db.Lacks n s) _ _ _ _ ?_ ran lacks
  intro part among stmt before next parsed executed kept
  refine lacks_execute kept (fun held => absent ?_) executed
  exact token_of_statements among (string_of_parse parsed held)

end Tables

end Sws.Sql
