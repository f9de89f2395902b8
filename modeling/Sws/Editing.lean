import Sws.Import
import Sws.Refresh

/-! Playlists edited one call at a time: what each call does to the table of its name, and when the
tables follow the calls. -/
namespace Sws.Editing

open Database Sql Import Refresh

/-- A call that pushes what it does to one playlist. -/
inductive Edit
  | addPath (path : Text)
  | addPaths (paths : List Text)
  | removePath (path : Text)
  | removePaths (paths : List Text)
  | remove
  deriving DecidableEq, Repr

namespace Edit

/-- The SQL texts of the call. -/
def texts (name : Text) : Edit → List Text
  | .addPath path => addPathToPlaylist name path
  | .addPaths paths => addToPlaylist name paths
  | .removePath path => removePathFromPlaylist name path
  | .removePaths paths => removeFromPlaylist name paths
  | .remove => [removePlaylist name]

/-- What the call does to a set of paths. -/
def onSet : Edit → Set Text → Set Text
  | .addPath path, s => insert path s
  | .addPaths paths, s => s ∪ {p | p ∈ paths}
  | .removePath path, s => s \ {path}
  | .removePaths paths, s => s \ {p | p ∈ paths}
  | .remove, _ => ∅

/-- The paths left by one `DELETE`; a path with a NUL cuts it off. -/
def deleted (held : List Text) (path : Text) : List Text :=
  if nul ∈ path then held else held.filter (· ≠ path)

/-- What the call does to the paths of a table, if there is one: a single path is not put into a table
that is not there. -/
def onTable : Edit → Option (List Text) → Option (List Text)
  | .addPath path, table => table.map fun held => if nul ∈ path then held else replaced held path
  | .addPaths [], table => table
  | .addPaths paths, table => some (imported (table.getD []) paths)
  | .removePath path, table => table.map fun held => deleted held path
  | .removePaths paths, table => table.map fun held => paths.foldl deleted held
  | .remove, _ => none

theorem on_table_add (table : Option (List Text)) (path : Text) (paths : List Text) :
    onTable (.addPaths (path :: paths)) table = some (imported (table.getD []) (path :: paths)) := rfl

/-- Whether there is a table afterwards, if no single path makes one. -/
def makes : Edit → Bool → Bool
  | .addPaths (_ :: _), _ => true
  | .remove, _ => false
  | _, made => made

end Edit

/-! ### The statements -/

section Statements

variable {db : Db} {name spelt : Text} {held : List Text}

theorem replace_path_denotes (unclosed : ']' ∉ name) (path : Text) :
    Denotes ((replacement path).text name) (.insert true name none [[.text path]]) :=
  .of_tokens ((replacement path).reads_text unclosed) rfl (by simp [Bracketed.tokens, replacement]) rfl

theorem delete_path_denotes (unclosed : ']' ∉ name) (path : Text) :
    Denotes ((deletion path).text name) (.delete name [{ operand := .column "path", value := .text path }]) :=
  .of_tokens ((deletion path).reads_text unclosed) rfl (by simp [Bracketed.tokens, deletion]) rfl

theorem drop_playlist_denotes (unclosed : ']' ∉ name) : Denotes (removal.text name) (.dropTable name) :=
  .of_tokens (removal.reads_text unclosed) rfl (by simp [Bracketed.tokens, removal, Bracketed.fixed]) rfl

theorem nul_mem_replacement (clean : nul ∉ name) {path : Text} :
    nul ∈ (replacement path).text name ↔ nul ∈ path :=
  (Bracketed.nul_mem_text clean).trans (not_iff_not.mp clean_replacement)

theorem nul_mem_deletion (clean : nul ∉ name) {path : Text} :
    nul ∈ (deletion path).text name ↔ nul ∈ path :=
  (Bracketed.nul_mem_text clean).trans (not_iff_not.mp clean_deletion)

theorem delete_eq {t : Table} {table : Text} {filter : List Condition} (found : db.lookup table = some t)
    (admitted : filter.forM t.admits = .ok ()) : execute db (.delete table filter) =
      .ok (db.put { t with rows := t.rows.filter fun r => ¬ t.selects filter r }) := by
  rw [execute, found, Option.elim_some, deleteRows, admitted]
  rfl

theorem delete_missing {table : Text} {filter : List Condition} (absent : db.lookup table = none) :
    execute db (.delete table filter) = .error .rejected := by
  rw [execute, absent]
  rfl

/-- A playlist's table after a `DELETE`. -/
theorem delete_path_eq {t : Table} (found : db.lookup name = some t) (listing : Listing t spelt held)
    (path : Text) : ∃ u, execute db (.delete name [{ operand := .column "path", value := .text path }]) =
      .ok (db.put u) ∧ Listing u spelt (held.filter (· ≠ path)) := by
  have admitted : [({ operand := .column "path", value := .text path } : Condition)].forM t.admits =
      .ok () := by
    obtain ⟨_, columns, key, rows⟩ := t
    cases listing.declared.columns
    rfl
  refine ⟨_, delete_eq found admitted, listing.name, ⟨listing.declared.columns, listing.declared.key⟩, ?_⟩
  have kept (p : Text) : t.selects [{ operand := .column "path", value := .text path }] [.text p] =
      decide (p = path) := by
    have cell : t.cell [.text p] "path" = .text p := playlist_cell listing.declared _
    simp [Table.selects, Table.holds, cell]
  rw [listing.rows, pathRows, pathRows, List.filter_map]
  refine congrArg (List.map _) (List.filter_congr fun p _ => ?_)
  simp only [Function.comp_apply, kept, decide_eq_true_eq]

/-- What follows a statement about a playlist's table that succeeds. -/
theorem contains_put {t u : Table} {after : List Text} (found : db.lookup name = some t)
    (listing : Listing t spelt held) (changed : Listing u spelt after) :
    Contains (db.put u) name spelt after ∧ Only name db (db.put u) := by
  have same : fold u.name = fold name := by
    rw [changed.name, ← listing.name]
    exact Db.fold_name_of_lookup found
  refine ⟨⟨u, Db.lookup_put_self found same, changed⟩, fun n other => ?_⟩
  exact Db.lookup_put_of_ne fun eq => other (same.symm.trans eq)

theorem exec_replace_path (usable : Usable name) (contains : Contains db name spelt held) (path : Text) :
    ∃ after ok, exec db ((replacement path).text name) = some (after, ok) ∧
      Contains after name spelt (if nul ∈ path then held else replaced held path) ∧ Only name db after := by
  rw [(replace_path_denotes usable.unclosed path).exec_eq]
  by_cases cut : nul ∈ path
  · rw [if_pos ((nul_mem_replacement usable.clean).mpr cut), if_pos cut]
    exact ⟨db, false, rfl, contains, fun _ _ => rfl⟩
  · obtain ⟨t, found, listing⟩ := contains
    have ran := fill_playlist_eq found listing.declared [path]
    rw [if_neg (mt (nul_mem_replacement usable.clean).mp cut), if_neg cut]
    exact ⟨_, true, congrArg (outcome db) ran, contains_put found listing (listing.replace path)⟩

theorem exec_delete_path (usable : Usable name) (contains : Contains db name spelt held) (path : Text) :
    ∃ after ok, exec db ((deletion path).text name) = some (after, ok) ∧
      Contains after name spelt (Edit.deleted held path) ∧ Only name db after := by
  rw [(delete_path_denotes usable.unclosed path).exec_eq, Edit.deleted]
  by_cases cut : nul ∈ path
  · rw [if_pos ((nul_mem_deletion usable.clean).mpr cut), if_pos cut]
    exact ⟨db, false, rfl, contains, fun _ _ => rfl⟩
  · obtain ⟨t, found, listing⟩ := contains
    obtain ⟨u, ran, changed⟩ := delete_path_eq found listing path
    rw [if_neg (mt (nul_mem_deletion usable.clean).mp cut), if_neg cut, ran]
    exact ⟨_, true, rfl, contains_put found listing changed⟩

/-- Where there is no table nothing is put in and nothing taken out. -/
theorem exec_missing {q : Text} {s : Stmt} (denotes : Denotes q s)
    (refused : execute db s = .error .rejected) : exec db q = some (db, false) := by
  rw [denotes.exec_eq, refused]
  split <;> rfl

theorem exec_drop (usable : Usable name) : exec db (removePlaylist name) = some (db.erase name, true) := by
  have whole : nul ∉ removal.text name := (Bracketed.nul_mem_text usable.clean).not.mpr (clean_text rfl)
  have text : removePlaylist name = removal.text name := by
    simp [removePlaylist, removal, Bracketed.fixed, Bracketed.text]
  rw [text, (drop_playlist_denotes usable.unclosed).exec_eq, if_neg whole, execute, usable.own]
  rfl

end Statements

/-! ### One call -/

/-- The table of this name has these paths, or there is none. -/
def Stands (db : Db) (name : Text) : Option (List Text) → Prop
  | none => db.lookup name = none
  | some held => ∃ spelt, Contains db name spelt held

section Calls

variable {db : Db} {name : Text} {table : Option (List Text)}

theorem Stands.kept {after : Db} {n : Text} (stands : Stands db n table)
    (same : after.lookup n = db.lookup n) : Stands after n table := by
  cases table with
  | none => exact same.trans stands
  | some held =>
    obtain ⟨spelt, contains⟩ := stands
    exact ⟨spelt, contains.kept same⟩

theorem Stands.congr {n : Text} (stands : Stands db name table) (same : fold n = fold name) :
    Stands db n table := by
  cases table with
  | none => exact (Db.lookup_congr same).trans stands
  | some held =>
    obtain ⟨spelt, t, found, listing⟩ := stands
    exact ⟨spelt, t, (Db.lookup_congr same).trans found, listing⟩

theorem exec_removals (usable : Usable name) (stands : Stands db name table) (paths : List Text) :
    ∃ after, execAll db (removeFromPlaylist name paths) = some after ∧
      Stands after name (table.map fun held => paths.foldl Edit.deleted held) ∧ Only name db after := by
  induction paths generalizing db table with
  | nil =>
    cases table <;> exact ⟨db, rfl, stands, fun _ _ => rfl⟩
  | cons path paths ih =>
    have text : removeFromPlaylist name (path :: paths) =
        (deletion path).text name :: removeFromPlaylist name paths := by
      simp [removeFromPlaylist, deletion, Bracketed.text]
    cases table with
    | none =>
      have refused := exec_missing (delete_path_denotes usable.unclosed path) (delete_missing stands)
      obtain ⟨after, ran, rest⟩ := ih stands
      exact ⟨after, text ▸ exec_all_cons refused ran, rest⟩
    | some held =>
      obtain ⟨spelt, contains⟩ := stands
      obtain ⟨middle, ok, first, taken, only⟩ := exec_delete_path usable contains path
      have stands : Stands middle name (some (Edit.deleted held path)) := ⟨spelt, taken⟩
      obtain ⟨after, ran, rest, others⟩ := ih stands
      exact ⟨after, text ▸ exec_all_cons first ran, rest, fun n other =>
        (others n other).trans (only n other)⟩

/-- Each call does to the table of its name what it says, and to no other. -/
theorem exec_edit (usable : Usable name) (stands : Stands db name table) (e : Edit) :
    ∃ after, execAll db (e.texts name) = some after ∧ Stands after name (e.onTable table) ∧
      Only name db after := by
  cases e with
  | addPath path =>
    have text : addPathToPlaylist name path = [(replacement path).text name] := by
      simp [addPathToPlaylist, replacement, Bracketed.text]
    rw [Edit.texts, text]
    cases table with
    | none =>
      have refused := exec_missing (replace_path_denotes usable.unclosed path) (insert_missing stands)
      exact ⟨db, exec_all_cons refused rfl, stands, fun _ _ => rfl⟩
    | some held =>
      obtain ⟨spelt, contains⟩ := stands
      obtain ⟨after, ok, ran, put, only⟩ := exec_replace_path usable contains path
      exact ⟨after, exec_all_cons ran rfl, ⟨spelt, put⟩, only⟩
  | addPaths paths =>
    cases paths with
    | nil => exact ⟨db, rfl, stands, fun _ _ => rfl⟩
    | cons path paths =>
      have starts : ∃ spelt, Starts db name spelt (table.getD []) := by
        cases table with
        | none => exact ⟨name, .inr ⟨stands, rfl, rfl⟩⟩
        | some held =>
          obtain ⟨spelt, contains⟩ := stands
          exact ⟨spelt, .inl contains⟩
      obtain ⟨spelt, starts⟩ := starts
      obtain ⟨after, ran, contains, only⟩ :=
        exec_add_all usable (List.cons_ne_nil path paths) starts
      exact ⟨after, ran, ⟨spelt, contains⟩, only⟩
  | removePath path => exact exec_removals usable stands [path]
  | removePaths paths => exact exec_removals usable stands paths
  | remove =>
    exact ⟨_, exec_all_cons (exec_drop usable) rfl, Db.lookup_erase_self,
      fun n other => Db.lookup_erase_of_ne other⟩

/-- `select_playlist` returns the paths of the table, each once, and nothing where there is none. -/
theorem select_stands (usable : Usable name) (stands : Stands db name table) (scan : Scan) :
    ∃ paths, selectPlaylist scan db name = some paths ∧ paths.Nodup ∧
      ∀ p, p ∈ paths ↔ p ∈ table.getD [] := by
  cases table with
  | none =>
    have whole : nul ∉ selectPlaylistQuery name := mt nul_mem_select_playlist_query.mp usable.clean
    have absent : db.source name = none := (source_eq usable.not_master).trans stands
    refine ⟨[], ?_, List.nodup_nil, fun p => Iff.rfl⟩
    rw [selectPlaylist, (list_playlist_denotes usable.unclosed).query_eq, if_neg whole, select, absent,
      Option.elim_none, noTable, usable.own]
    rfl
  | some held =>
    obtain ⟨spelt, t, found, listing⟩ := stands
    exact select_playlist_listing scan found listing usable.unclosed usable.clean usable.not_master

end Calls

/-! ### Sequences of calls -/

/-- Calls in order, each with the name it is about. -/
abbrev Calls := List (Text × Edit)

namespace Calls

def texts (calls : Calls) : List Text := calls.flatMap fun c => c.2.texts c.1

/-- The plain map from names to sets of paths. -/
def shelf (calls : Calls) : Text → Set Text :=
  calls.foldl (fun shelf c => Function.update shelf c.1 (c.2.onSet (shelf c.1))) fun _ => ∅

/-- The tables; names that differ only in case have one. -/
def tables (calls : Calls) : Text → Option (List Text) :=
  calls.foldl (fun tables c n => if fold n = fold c.1 then c.2.onTable (tables c.1) else tables n)
    fun _ => none

/-- A list of paths has been added under the name, and the playlist not been removed since. -/
def made (calls : Calls) (name : Text) : Bool :=
  calls.foldl (fun made c => if c.1 = name then c.2.makes made else made) false

end Calls

/-- No other of the names is the same identifier. -/
def Alone (names : Set Text) (name : Text) : Prop := ∀ n ∈ names, fold n = fold name → n = name

/-- A call that the tables follow: a single path goes into a table that is there, an added path has no
NUL, and no other name has the same table. -/
def Heeds (names : Set Text) (done : Calls) (c : Text × Edit) : Prop :=
  match c.2 with
  | .addPath path => done.made c.1 ∧ nul ∉ path ∧ Alone names c.1
  | .addPaths paths => paths ≠ [] → (∀ p ∈ paths, nul ∉ p) ∧ Alone names c.1
  | _ => True

/-- After the calls, executed, `select_playlist` lists the sets of the plain map. -/
def Mirrors (names : Set Text) (db : Db) (calls : Calls) : Prop :=
  ∃ after, execAll db calls.texts = some after ∧ ∀ n ∈ names, ∀ scan, ∃ paths,
    selectPlaylist scan after n = some paths ∧ paths.Nodup ∧ ∀ p, p ∈ paths ↔ p ∈ calls.shelf n

/-- The same after each of the calls. -/
def MirrorsThroughout (names : Set Text) (db : Db) (calls : Calls) : Prop :=
  ∀ done rest, calls = done ++ rest → Mirrors names db done

/-- Each of the calls is one that the tables follow. -/
def HeedsThroughout (names : Set Text) (calls : Calls) : Prop :=
  ∀ done c rest, calls = done ++ c :: rest → Heeds names done c

section Sequences

variable {names : Set Text} {db : Db} {calls done : Calls} {c : Text × Edit} {n : Text}

theorem tables_concat : (calls ++ [c]).tables n =
    if fold n = fold c.1 then c.2.onTable (calls.tables c.1) else calls.tables n := by
  rw [Calls.tables, List.foldl_append]
  rfl

theorem shelf_concat : (calls ++ [c]).shelf =
    Function.update calls.shelf c.1 (c.2.onSet (calls.shelf c.1)) := by
  rw [Calls.shelf, List.foldl_append]
  rfl

theorem made_concat : (calls ++ [c]).made n = if c.1 = n then c.2.makes (calls.made n) else calls.made n := by
  rw [Calls.made, List.foldl_append]
  rfl

theorem texts_concat : (calls ++ [c]).texts = calls.texts ++ c.2.texts c.1 := by
  rw [Calls.texts, List.flatMap_append, List.flatMap_singleton]
  rfl

/-- Names that differ only in case have one table. -/
theorem tables_congr {m : Text} (same : fold m = fold n) : calls.tables m = calls.tables n := by
  induction calls using List.reverseRecOn with
  | nil => rfl
  | append_singleton calls c ih => rw [tables_concat, tables_concat, same, ih]

/-- The database follows the calls. -/
theorem exec_calls (usable : ∀ n ∈ names, Usable n) (fresh : ∀ n ∈ names, db.lookup n = none)
    (among : ∀ c ∈ calls, c.1 ∈ names) :
    ∃ after, execAll db calls.texts = some after ∧ ∀ n ∈ names, Stands after n (calls.tables n) := by
  induction calls using List.reverseRecOn with
  | nil => exact ⟨db, rfl, fresh⟩
  | append_singleton calls c ih =>
    obtain ⟨before, last⟩ := List.forall_mem_append.mp among
    have named : c.1 ∈ names := last c List.mem_cons_self
    obtain ⟨middle, ran, stands⟩ := ih before
    obtain ⟨after, edited, own, only⟩ := exec_edit (usable _ named) (stands _ named) c.2
    refine ⟨after, by rw [texts_concat, exec_all_append, ran]; exact edited, fun n member => ?_⟩
    rw [tables_concat]
    split_ifs with same
    · exact own.congr same
    · exact (stands n member).kept (only n (Ne.symm same))

theorem mirrors_iff (usable : ∀ n ∈ names, Usable n) (fresh : ∀ n ∈ names, db.lookup n = none)
    (among : ∀ c ∈ calls, c.1 ∈ names) :
    Mirrors names db calls ↔ ∀ n ∈ names, ∀ p, p ∈ (calls.tables n).getD [] ↔ p ∈ calls.shelf n := by
  obtain ⟨after, ran, stands⟩ := exec_calls usable fresh among
  constructor
  · rintro ⟨after', ran', mirrors⟩ n member p
    cases ran.symm.trans ran'
    obtain ⟨paths, selected, -, exactly⟩ := mirrors n member .stored
    obtain ⟨paths', selected', -, exactly'⟩ := select_stands (usable n member) (stands n member) .stored
    cases selected.symm.trans selected'
    exact (exactly' p).symm.trans (exactly p)
  · intro same
    refine ⟨after, ran, fun n member scan => ?_⟩
    obtain ⟨paths, selected, apart, exactly⟩ := select_stands (usable n member) (stands n member) scan
    exact ⟨paths, selected, apart, fun p => (exactly p).trans (same n member p)⟩

/-! ### When the tables follow -/

theorem mem_deleted {held : List Text} {paths : List Text} {p : Text} (clean : ∀ p ∈ held, nul ∉ p) :
    p ∈ paths.foldl Edit.deleted held ↔ p ∈ held ∧ p ∉ paths := by
  induction paths generalizing held with
  | nil => simp
  | cons path paths ih =>
    have one (q : Text) : q ∈ Edit.deleted held path ↔ q ∈ held ∧ q ≠ path := by
      unfold Edit.deleted
      split_ifs with cut
      · exact ⟨fun member => ⟨member, fun same => clean q member (same ▸ cut)⟩, And.left⟩
      · simp
    rw [List.foldl_cons, ih fun q member => clean q ((one q).mp member).1, one]
    simp only [List.mem_cons, not_or, and_assoc]

/-- A table that agrees with a set goes on to agree. -/
theorem on_table_agrees {held : List Text} {s : Set Text} {e : Edit} (agrees : ∀ p, p ∈ held ↔ p ∈ s)
    (clean : ∀ p ∈ s, nul ∉ p) (stays : e ≠ .remove)
    (added : ∀ path, e = .addPath path → nul ∉ path)
    (all : ∀ paths, e = .addPaths paths → ∀ p ∈ paths, nul ∉ p) :
    ∃ after, e.onTable (some held) = some after ∧ ∀ p, p ∈ after ↔ p ∈ e.onSet s := by
  have lines : ∀ p ∈ held, nul ∉ p := fun p member => clean p ((agrees p).mp member)
  cases e with
  | addPath path =>
    refine ⟨replaced held path, by simp [Edit.onTable, added path rfl], fun p => ?_⟩
    by_cases same : p = path <;> simp [replaced, Edit.onSet, same, agrees]
  | addPaths paths =>
    cases paths with
    | nil => exact ⟨held, rfl, fun p => by simp [Edit.onSet, agrees]⟩
    | cons path paths =>
      refine ⟨_, rfl, fun p => ?_⟩
      rw [imported, if_pos (all _ rfl), mem_replaced, Option.getD_some, agrees]
      rfl
  | removePath path =>
    refine ⟨_, rfl, fun p => ?_⟩
    have one : p ∈ [path].foldl Edit.deleted held ↔ p ∈ held ∧ p ∉ [path] := mem_deleted lines
    rw [List.foldl_cons, List.foldl_nil] at one
    rw [one, agrees, List.mem_singleton]
    rfl
  | removePaths paths =>
    refine ⟨_, rfl, fun p => ?_⟩
    rw [mem_deleted lines, agrees]
    rfl
  | remove => exact absurd rfl stays

/-- The tables after calls that they followed. -/
structure Follows (names : Set Text) (done : Calls) : Prop where
  alone : ∀ n ∈ names, done.made n = true → Alone names n
  there : ∀ n ∈ names, done.made n = true →
    ∃ held, done.tables n = some held ∧ ∀ p, p ∈ held ↔ p ∈ done.shelf n
  gone : ∀ n ∈ names, done.made n = false → done.tables n = none ∧ done.shelf n = ∅
  clean : ∀ n ∈ names, ∀ p ∈ done.shelf n, nul ∉ p

theorem follows_nil : Follows names [] where
  alone := fun _ _ made => by cases made
  there := fun _ _ made => by cases made
  gone := fun _ _ _ => ⟨rfl, rfl⟩
  clean := fun _ _ _ member => by cases member

theorem Follows.same (follows : Follows names done) (member : n ∈ names) (p : Text) :
    p ∈ (done.tables n).getD [] ↔ p ∈ done.shelf n := by
  cases made : done.made n with
  | true =>
    obtain ⟨held, table, same⟩ := follows.there n member made
    rw [table]
    exact same p
  | false =>
    obtain ⟨table, shelf⟩ := follows.gone n member made
    rw [table, shelf]
    simp

/-- A call that is heeded leaves the tables of other names. -/
theorem tables_other (follows : Follows names done) (named : c.1 ∈ names) (heeds : Heeds names done c)
    (member : n ∈ names) (other : n ≠ c.1) : (done ++ [c]).tables n = done.tables n := by
  obtain ⟨name, e⟩ := c
  rw [tables_concat]
  split_ifs with same
  · -- The name is not alone, so there is no table and nothing is put in.
    have shared : ¬ Alone names name := fun alone => other (alone n member same)
    have absent : done.made name = false :=
      Bool.eq_false_iff.mpr fun made => shared (follows.alone name named made)
    have none : done.tables name = none := (follows.gone name named absent).1
    rw [tables_congr same, none]
    cases e with
    | addPaths paths =>
      cases paths with
      | nil => rfl
      | cons path paths => exact absurd (heeds (List.cons_ne_nil path paths)).2 shared
    | _ => rfl
  · rfl

/-- The names that have tables are alone. -/
theorem alone_of_makes (follows : Follows names done) (named : c.1 ∈ names) (heeds : Heeds names done c)
    (makes : c.2.makes (done.made c.1) = true) : Alone names c.1 := by
  obtain ⟨name, e⟩ := c
  cases e with
  | addPaths paths =>
    cases paths with
    | nil => exact follows.alone name named makes
    | cons path paths => exact (heeds (List.cons_ne_nil path paths)).2
  | remove => cases makes
  | _ => exact follows.alone name named makes

/-- The table of a call that is heeded agrees, if there is one afterwards. -/
theorem there_of_makes (follows : Follows names done) (named : c.1 ∈ names) (heeds : Heeds names done c)
    (makes : c.2.makes (done.made c.1) = true) :
    ∃ held, c.2.onTable (done.tables c.1) = some held ∧ ∀ p, p ∈ held ↔ p ∈ c.2.onSet (done.shelf c.1) := by
  obtain ⟨name, e⟩ := c
  have clean := follows.clean name named
  have stays : e ≠ .remove := by
    rintro rfl
    cases makes
  have added : ∀ path, e = .addPath path → nul ∉ path := by
    rintro path rfl
    exact heeds.2.1
  have all : ∀ paths, e = .addPaths paths → ∀ p ∈ paths, nul ∉ p := by
    rintro paths rfl p member
    exact (heeds (List.ne_nil_of_mem member)).1 p member
  cases made : done.made name with
  | true =>
    obtain ⟨held, table, agrees⟩ := follows.there name named made
    dsimp only
    rw [table]
    exact on_table_agrees agrees clean stays added all
  | false =>
    obtain ⟨table, shelf⟩ := follows.gone name named made
    have empty : ∀ p, p ∈ ([] : List Text) ↔ p ∈ done.shelf name := by simp [shelf]
    dsimp only at makes ⊢
    rw [made] at makes
    rw [table]
    cases e with
    | addPaths paths =>
      cases paths with
      | nil => cases makes
      | cons path paths => exact on_table_agrees empty clean stays added all
    | _ => cases makes

theorem gone_of_makes (follows : Follows names done) (named : c.1 ∈ names) (heeds : Heeds names done c)
    (makes : c.2.makes (done.made c.1) = false) :
    c.2.onTable (done.tables c.1) = none ∧ c.2.onSet (done.shelf c.1) = ∅ := by
  obtain ⟨name, e⟩ := c
  cases e with
  | addPath path => exact absurd heeds.1 (Bool.eq_false_iff.mp makes)
  | addPaths paths =>
    cases paths with
    | nil =>
      obtain ⟨table, shelf⟩ := follows.gone name named makes
      exact ⟨table, by simp [Edit.onSet, shelf]⟩
    | cons path paths => cases makes
  | removePath | removePaths =>
    obtain ⟨table, shelf⟩ := follows.gone name named makes
    exact ⟨by simp [Edit.onTable, table], by simp [Edit.onSet, shelf]⟩
  | remove => exact ⟨rfl, rfl⟩

theorem clean_on_set (follows : Follows names done) (named : c.1 ∈ names) (heeds : Heeds names done c) :
    ∀ p ∈ c.2.onSet (done.shelf c.1), nul ∉ p := by
  obtain ⟨name, e⟩ := c
  have clean := follows.clean name named
  cases e with
  | addPath path => exact Set.forall_mem_insert.mpr ⟨heeds.2.1, clean⟩
  | addPaths paths =>
    rintro p (held | added)
    · exact clean p held
    · exact (heeds (List.ne_nil_of_mem added)).1 p added
  | removePath | removePaths => exact fun p member => clean p member.1
  | remove => exact fun p member => by cases member

/-- A call that is heeded is followed. -/
theorem follows_step (follows : Follows names done) (named : c.1 ∈ names) (heeds : Heeds names done c) :
    Follows names (done ++ [c]) := by
  have own : (done ++ [c]).made c.1 = c.2.makes (done.made c.1) ∧
      (done ++ [c]).tables c.1 = c.2.onTable (done.tables c.1) ∧
      (done ++ [c]).shelf c.1 = c.2.onSet (done.shelf c.1) :=
    ⟨made_concat.trans (if_pos rfl), tables_concat.trans (if_pos rfl), by
      rw [shelf_concat, Function.update_self]⟩
  have others (n : Text) (member : n ∈ names) (other : n ≠ c.1) :
      (done ++ [c]).made n = done.made n ∧ (done ++ [c]).tables n = done.tables n ∧
        (done ++ [c]).shelf n = done.shelf n :=
    ⟨made_concat.trans (if_neg other.symm), tables_other follows named heeds member other, by
      rw [shelf_concat, Function.update_of_ne other]⟩
  constructor
  · intro n member made
    by_cases same : n = c.1
    · subst same
      exact alone_of_makes follows named heeds (own.1 ▸ made)
    · exact follows.alone n member ((others n member same).1 ▸ made)
  · intro n member made
    by_cases same : n = c.1
    · subst same
      rw [own.2.1, own.2.2]
      exact there_of_makes follows named heeds (own.1 ▸ made)
    · rw [(others n member same).2.1, (others n member same).2.2]
      exact follows.there n member ((others n member same).1 ▸ made)
  · intro n member made
    by_cases same : n = c.1
    · subst same
      rw [own.2.1, own.2.2]
      exact gone_of_makes follows named heeds (own.1 ▸ made)
    · rw [(others n member same).2.1, (others n member same).2.2]
      exact follows.gone n member ((others n member same).1 ▸ made)
  · intro n member
    by_cases same : n = c.1
    · subst same
      rw [own.2.2]
      exact clean_on_set follows named heeds
    · rw [(others n member same).2.2]
      exact follows.clean n member

/-- A call that is not heeded shows at once. -/
theorem heeds_of_same (follows : Follows names done) (named : c.1 ∈ names)
    (same : ∀ n ∈ names, ∀ p, p ∈ ((done ++ [c]).tables n).getD [] ↔ p ∈ (done ++ [c]).shelf n) :
    Heeds names done c := by
  obtain ⟨name, e⟩ := c
  have own (p : Text) : p ∈ (e.onTable (done.tables name)).getD [] ↔ p ∈ e.onSet (done.shelf name) := by
    have there := same name named p
    rwa [tables_concat, if_pos rfl, shelf_concat, Function.update_self] at there
  cases e with
  | addPath path =>
    have listed := (own path).mpr (Set.mem_insert _ _)
    cases made : done.made name with
    | false =>
      rw [(follows.gone name named made).1] at listed
      cases listed
    | true =>
      refine ⟨made, fun cut => ?_, follows.alone name named made⟩
      obtain ⟨held, table, agrees⟩ := follows.there name named made
      rw [table, Edit.onTable, Option.map_some, if_pos cut] at listed
      exact follows.clean name named path ((agrees path).mp listed) cut
  | addPaths paths =>
    intro some_
    obtain ⟨path, paths, rfl⟩ := List.exists_cons_of_ne_nil some_
    have lines : ∀ p ∈ path :: paths, nul ∉ p := by
      by_contra missed
      obtain ⟨p, member, cut⟩ : ∃ p ∈ path :: paths, nul ∈ p := by
        push Not at missed
        exact missed
      have listed := (own p).mpr (.inr member)
      rw [Edit.on_table_add, imported, if_neg missed] at listed
      exact follows.clean name named p ((follows.same named p).mp listed) cut
    refine ⟨lines, fun n member twin => ?_⟩
    by_contra other
    have listed := (same n member path).mp (by
      rw [tables_concat, if_pos twin, Edit.on_table_add, imported, if_pos lines]
      exact mem_replaced.mpr (.inr List.mem_cons_self))
    rw [shelf_concat, Function.update_of_ne other] at listed
    cases made : done.made n with
    | false =>
      rw [(follows.gone n member made).2] at listed
      cases listed
    | true => exact other (follows.alone n member made name named twin.symm).symm
  | _ => trivial

/-- Calls that are followed are followed by others exactly when these are heeded. -/
theorem same_iff_heeds (follows : Follows names done) (among : ∀ c ∈ calls, c.1 ∈ names) :
    (∀ before rest, calls = before ++ rest → ∀ n ∈ names, ∀ p,
      p ∈ ((done ++ before).tables n).getD [] ↔ p ∈ (done ++ before).shelf n) ↔
    ∀ before c rest, calls = before ++ c :: rest → Heeds names (done ++ before) c := by
  induction calls generalizing done with
  | nil =>
    constructor
    · intro _ before c rest shape
      cases before <;> cases shape
    · intro _ before rest shape n member p
      obtain ⟨rfl, rfl⟩ := List.append_eq_nil_iff.mp shape.symm
      rw [List.append_nil]
      exact follows.same member p
  | cons c calls ih =>
    obtain ⟨named, among⟩ := List.forall_mem_cons.mp among
    constructor
    · intro same before d rest shape
      have heeds : Heeds names done c := heeds_of_same follows named (same [c] calls rfl)
      have onwards := (ih (follows_step follows named heeds) among).mp fun before rest shape => by
        rw [List.append_assoc]
        exact same (c :: before) rest (congrArg _ shape)
      cases before with
      | nil =>
        cases shape
        rwa [List.append_nil]
      | cons c' before =>
        cases shape
        have later := onwards before d rest rfl
        rwa [List.append_assoc] at later
    · intro heeds before rest shape
      cases before with
      | nil =>
        intro n member p
        rw [List.append_nil]
        exact follows.same member p
      | cons c' before =>
        cases shape
        have first : Heeds names done c := by simpa using heeds [] c _ rfl
        have onwards := (ih (follows_step follows named first) among).mpr fun before' d rest' shape => by
          rw [List.append_assoc]
          exact heeds (c :: before') d rest' (congrArg _ shape)
        have later := onwards before rest rfl
        rwa [List.append_assoc] at later

/-- **Single paths need a table.** Under names that a table can have and that have none yet,
`select_playlist` lists what a plain map would hold after every one of a sequence of calls exactly
when each single path is added where a list has been added before and the playlist not been removed
since, no path with a NUL is added, and none is added under a name of which another differs only in
case. -/
theorem edits_mirrored_iff (usable : ∀ n ∈ names, Usable n) (fresh : ∀ n ∈ names, db.lookup n = none)
    (among : ∀ c ∈ calls, c.1 ∈ names) :
    MirrorsThroughout names db calls ↔ HeedsThroughout names calls := by
  have iff := same_iff_heeds follows_nil among
  simp only [List.nil_append] at iff
  rw [HeedsThroughout, ← iff]
  refine forall_congr' fun done => forall_congr' fun rest => forall_congr' fun shape => ?_
  exact mirrors_iff usable fresh fun c member => among c (shape ▸ List.mem_append_left _ member)

end Sequences

/-- A playlist filled with a list, and then with one path more. -/
def filled : Calls := [(text "Rock", .addPaths [text "a.mp3"]), (text "Rock", .addPath (text "b.mp3"))]

theorem filled_mirrored : MirrorsThroughout {text "Rock"} .empty filled := by
  refine (edits_mirrored_iff ?_ (fun _ _ => rfl) ?_).mpr ?_
  · rintro n rfl
    decide
  · simp [filled]
  · intro done c rest shape
    have alone : Alone {text "Rock"} (text "Rock") := fun n member _ => member
    rcases done with - | ⟨_, - | ⟨_, _ | _⟩⟩
    · cases shape
      exact fun _ => ⟨by decide, alone⟩
    · cases shape
      exact ⟨rfl, by decide, alone⟩
    · cases shape
    · cases shape

/-- `playlist(name)` pushes nothing, and the path added to the new playlist is lost. -/
theorem created_playlist_stays_empty :
    ¬ ∀ (names : Set Text) (db : Db) (calls : Calls), (∀ n ∈ names, Usable n) →
      (∀ n ∈ names, db.lookup n = none) → (∀ c ∈ calls, c.1 ∈ names) → Mirrors names db calls := by
  intro all
  have calls : ∀ c ∈ [(text "Rock", Edit.addPaths []), (text "Rock", .addPath (text "a.mp3"))],
      c.1 ∈ ({text "Rock"} : Set Text) := by simp
  have usable : ∀ n ∈ ({text "Rock"} : Set Text), Usable n := by
    rintro n rfl
    decide
  have mirrors := all _ .empty _ usable (fun _ _ => rfl) calls
  have listed := (mirrors_iff usable (fun _ _ => rfl) calls).mp mirrors (text "Rock") rfl (text "a.mp3")
  have put : text "a.mp3" ∈ Calls.shelf [(text "Rock", Edit.addPaths []),
      (text "Rock", .addPath (text "a.mp3"))] (text "Rock") := by simp [Calls.shelf, Edit.onSet]
  cases listed.mpr put

end Sws.Editing
