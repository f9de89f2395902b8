import Sws.Sql.Effects

/-! Rows with a cell for each column, and a column read back after an `UPDATE` of it. -/
namespace Sws.Sql

/-! ### Lists of steps that succeed -/

theorem bind_eq_error_iff {ε α β : Type} {x : Except ε α} {f : α → Except ε β} {e : ε} :
    x >>= f = .error e ↔ x = .error e ∨ ∃ a, x = .ok a ∧ f a = .error e := by
  cases x with
  | ok a =>
    constructor
    · exact fun failed => .inr ⟨a, rfl, failed⟩
    · rintro (⟨⟨⟩⟩ | ⟨_, ⟨⟩, failed⟩)
      exact failed
  | error e' =>
    constructor
    · rintro ⟨⟩
      exact .inl rfl
    · rintro (⟨⟨⟩⟩ | ⟨_, ⟨⟩, -⟩)
      rfl

theorem mem_of_map_m {ε α β : Type} {f : α → Except ε β} {l : List α} {l' : List β} {b : β}
    (ran : l.mapM f = .ok l') (held : b ∈ l') : ∃ a ∈ l, f a = .ok b := by
  induction l generalizing l' with
  | nil =>
    cases ran
    cases held
  | cons a l ih =>
    rw [List.mapM_cons] at ran
    obtain ⟨c, one, rest⟩ := bind_eq_ok_iff.mp ran
    obtain ⟨more, all, done⟩ := bind_eq_ok_iff.mp rest
    cases done
    rcases List.mem_cons.mp held with rfl | later
    · exact ⟨a, List.mem_cons_self, one⟩
    · obtain ⟨d, member, built⟩ := ih all later
      exact ⟨d, List.mem_cons_of_mem _ member, built⟩

theorem length_of_map_m {ε α β : Type} {f : α → Except ε β} {l : List α} {l' : List β}
    (ran : l.mapM f = .ok l') : l'.length = l.length := by
  induction l generalizing l' with
  | nil =>
    cases ran
    rfl
  | cons a l ih =>
    rw [List.mapM_cons] at ran
    obtain ⟨b, -, rest⟩ := bind_eq_ok_iff.mp ran
    obtain ⟨more, all, done⟩ := bind_eq_ok_iff.mp rest
    cases done
    rw [List.length_cons, List.length_cons, ih all]

theorem error_of_map_m {ε α β : Type} {f : α → Except ε β} {l : List α} {e : ε}
    (ran : l.mapM f = .error e) : ∃ a ∈ l, f a = .error e := by
  induction l with
  | nil => cases ran
  | cons a l ih =>
    rw [List.mapM_cons] at ran
    rcases bind_eq_error_iff.mp ran with failed | ⟨b, -, rest⟩
    · exact ⟨a, List.mem_cons_self, failed⟩
    · rcases bind_eq_error_iff.mp rest with failed | ⟨more, -, done⟩
      · obtain ⟨c, held, one⟩ := ih failed
        exact ⟨c, List.mem_cons_of_mem _ held, one⟩
      · cases done

/-! ### A cell for each column -/

/-- Every row has a cell for each column. -/
def Table.Full (t : Table) : Prop := ∀ r ∈ t.rows, r.length = t.columns.length

def Db.Full (db : Db) : Prop := ∀ t ∈ db.tables, t.Full

section Full

variable {db after : Db} {t u : Table}

theorem full_row_length {columns : Option (List Text)} {values : List Value} {r : Row}
    (built : t.fullRow columns values = .ok r) : r.length = t.columns.length := by
  rw [Table.fullRow] at built
  split at built
  · exact length_of_map_m built
  · cases built

theorem insert_row_full {replace : Bool} {r : Row} (full : t.Full) (length : r.length = t.columns.length)
    (ran : t.insertRow replace r = .ok u) : u.Full := by
  rw [insert_row_ok ran]
  intro s held
  rcases List.mem_append.mp held with old | new
  · cases replace with
    | true => exact full s (List.mem_of_mem_filter old)
    | false => exact full s old
  · rw [List.mem_singleton.mp new]
    exact length

theorem insert_all_full {replace : Bool} {rows : List Row} (full : t.Full)
    (lengths : ∀ r ∈ rows, r.length = t.columns.length)
    (ran : rows.foldlM (fun v r => v.insertRow replace r) t = .ok u) : u.Full := by
  induction rows generalizing t with
  | nil =>
    cases ran
    exact full
  | cons r rows ih =>
    rw [List.foldlM_cons] at ran
    obtain ⟨v, first, rest⟩ := bind_eq_ok_iff.mp ran
    obtain ⟨length, others⟩ := List.forall_mem_cons.mp lengths
    have columns : v.columns = t.columns := by rw [insert_row_ok first]
    exact ih (insert_row_full full length first) (fun s held => (others s held).trans (congrArg _ columns.symm))
      rest

theorem assign_length {sets : List (Text × Value)} {r s : Row} (assigned : t.assign sets r = .ok s) :
    s.length = r.length := by
  rw [Table.assign] at assigned
  induction sets generalizing r with
  | nil =>
    cases assigned
    rfl
  | cons p sets ih =>
    rw [List.foldlM_cons] at assigned
    obtain ⟨middle, one, rest⟩ := bind_eq_ok_iff.mp assigned
    rw [ih rest]
    split at one
    · cases one
    next i _ =>
      cases stored : store (affinity ((t.columns[i]?).elim [] (·.type))) p.2 with
      | error fault =>
        rw [stored] at one
        cases one
      | ok v =>
        rw [stored] at one
        cases one
        exact List.length_set

theorem full_put (full : db.Full) (own : u.Full) : (db.put u).Full := by
  intro t held
  rcases Db.mem_put held with rfl | old
  · exact own
  · exact full t old

/-- Every statement keeps a cell for each column. -/
theorem execute_full {s : Stmt} (full : db.Full) (ran : execute db s = .ok after) : after.Full := by
  cases s with
  | createTable ifNotExists name columns key =>
    rcases create_ok ran with ⟨-, rfl⟩ | ⟨-, rfl⟩
    · exact full
    · intro t held
      rcases Db.mem_create held with rfl | old
      · exact fun r member => by cases member
      · exact full t old
  | insert replace table columns rows =>
    obtain ⟨t, u, built, found, each, inserted, -, rfl⟩ := insert_ok ran
    refine full_put full (insert_all_full (full t (Db.mem_of_lookup found)) (fun r member => ?_) inserted)
    obtain ⟨values, -, own⟩ := mem_of_map_m each member
    exact full_row_length own
  | update table sets filter =>
    obtain ⟨t, rows, found, -, -, each, rfl⟩ := update_ok ran
    have lengths := full t (Db.mem_of_lookup found)
    refine full_put full fun r member => ?_
    obtain ⟨before, held, one⟩ := mem_of_map_m each member
    split at one
    · exact (assign_length one).trans (lengths before held)
    · cases one
      exact lengths r held
  | delete table filter =>
    obtain ⟨t, found, rfl⟩ := delete_ok ran
    exact full_put full fun r member => full t (Db.mem_of_lookup found) r (List.mem_of_mem_filter member)
  | dropTable name =>
    rw [execute] at ran
    split at ran
    · cases ran
    · cases ran
      exact fun t held => full t (List.mem_of_mem_filter held)
  | select distinct columns table filter => cases ran

theorem exec_full {q : Text} {ok : Bool} (full : db.Full) (ran : exec db q = some (after, ok)) :
    after.Full :=
  kept_by_statements (fun _ _ _ _ _ _ executed full => execute_full full executed) ran full

end Full

/-! ### Reading back -/

def Operand.name : Operand → Text
  | .column c | .substr c _ _ => c

/-- Some row of the table is selected, and the table has the column. -/
def Db.Has (db : Db) (table column : Text) (filter : List Condition) : Prop :=
  ∃ t, db.lookup table = some t ∧ (t.index? column).isSome ∧ ∃ r ∈ t.rows, t.selects filter r = true

section Reading

variable {db after : Db} {t u : Table} {table c : Text} {filter : List Condition}

theorem select_ok {scan : Scan} {columns : List Text} {rows : List Row}
    (read : select scan db (.select false columns table filter) = .ok rows) :
    ∃ t, db.source table = some t ∧ (∀ c ∈ columns, (t.index? c).isSome) ∧
      filter.forM t.admits = .ok () ∧
      rows = ((scan.rows (.select false columns table filter) t).filter (t.selects filter)).map
        fun r => columns.map (t.cell r) := by
  rw [select] at read
  cases found : db.source table with
  | none =>
    rw [found] at read
    cases read
  | some t =>
    rw [found] at read
    simp only [Option.elim_some, Bool.false_eq_true, ↓reduceIte] at read
    split at read
    · cases read
    next known =>
      obtain ⟨⟨⟩, admitted, done⟩ := bind_eq_ok_iff.mp read
      cases done
      refine ⟨t, rfl, fun c member => ?_, admitted, rfl⟩
      simp only [List.any_eq_true, not_exists, not_and, Bool.not_eq_true, Option.isNone_eq_false_iff]
        at known
      exact known c member

theorem index_of_cell {r : Row} (there : t.cell r c ≠ .null) : (t.index? c).isSome := by
  cases index : t.index? c with
  | some k => rfl
  | none => simp [Table.cell, index] at there

/-- A condition that some row meets is about a column of the table. -/
theorem admits_ne_rejected {r : Row} {condition : Condition} (met : t.holds r condition = true) :
    t.admits condition ≠ .error .rejected := by
  obtain ⟨operand, negated, value⟩ := condition
  have there : t.cell r operand.name ≠ .null := by
    intro null
    cases operand with
    | column c => simp [Table.holds, show t.cell r c = .null from null] at met
    | substr c first length => simp [Table.holds, show t.cell r c = .null from null] at met
  have known := index_of_cell there
  rw [Table.index?, List.findIdx?_isSome, List.any_eq_true] at known
  obtain ⟨d, held, same⟩ := known
  cases found : t.columns.find? fun d => fold d.name = fold operand.name with
  | none => exact absurd same (List.find?_eq_none.mp found d held)
  | some d =>
    cases operand with
    | column c =>
      intro rejected
      simp only [Table.admits, show t.columns.find? (fun d => fold d.name = fold c) = some d from found] at rejected
      split at rejected <;> cases rejected
    | substr c first length =>
      intro rejected
      simp only [Table.admits, show t.columns.find? (fun d => fold d.name = fold c) = some d from found] at rejected
      split at rejected <;> cases rejected

theorem admits_all_ne_rejected {r : Row} (met : t.selects filter r = true) :
    filter.forM t.admits ≠ .error .rejected := by
  rw [Table.selects, List.all_eq_true] at met
  induction filter with
  | nil => rintro ⟨⟩
  | cons condition filter ih =>
    obtain ⟨first, rest⟩ := List.forall_mem_cons.mp met
    change (t.admits condition >>= fun _ => filter.forM t.admits) ≠ _
    cases one : t.admits condition with
    | ok _ => exact ih rest
    | error fault =>
      rintro ⟨⟩
      exact admits_ne_rejected first one

/-- A query that returns no row, or is rejected, finds no row to return. -/
theorem has_iff_of_read {scan : Scan} {rows : List Row} (own : fold table ≠ text "sqlite_master")
    (read : select scan db (.select false [c] table filter) = .ok rows) :
    db.Has table c filter ↔ rows ≠ [] := by
  obtain ⟨t, found, known, -, rfl⟩ := select_ok read
  rw [source_eq own] at found
  simp only [Ne, List.map_eq_nil_iff, List.filter_eq_nil_iff, Scan.mem_rows, not_forall, not_not,
    exists_prop]
  constructor
  · rintro ⟨u, found', -, r, held, met⟩
    cases found.symm.trans found'
    exact ⟨r, held, met⟩
  · rintro ⟨r, held, met⟩
    exact ⟨t, found, known c List.mem_cons_self, r, held, met⟩

theorem not_has_of_rejected {scan : Scan} (own : fold table ≠ text "sqlite_master")
    (read : select scan db (.select false [c] table filter) = .error .rejected) :
    ¬ db.Has table c filter := by
  rintro ⟨t, found, known, r, held, met⟩
  rw [select, source_eq own, found] at read
  have none : ([c].any fun c => (t.index? c).isNone) = false := by simpa using known
  rw [Option.elim_some, none] at read
  cases admitted : filter.forM t.admits with
  | error fault =>
    rw [admitted] at read
    cases read
    exact admits_all_ne_rejected met admitted
  | ok _ =>
    rw [admitted] at read
    cases read

theorem store_ne_rejected (a : Affinity) (v : Value) : store a v ≠ .error .rejected := by
  cases a <;> cases v <;> rintro ⟨⟩

theorem assign_ne_rejected {v : Value} {r : Row} (known : (t.index? c).isSome) :
    t.assign [(c, v)] r ≠ .error .rejected := by
  obtain ⟨k, index⟩ := Option.isSome_iff_exists.mp known
  rw [Table.assign, List.foldlM_cons, index]
  dsimp only
  cases stored : store (affinity ((t.columns[k]?).elim [] (·.type))) v with
  | ok w => rintro ⟨⟩
  | error fault =>
    rintro ⟨⟩
    exact store_ne_rejected _ _ stored

/-- Where there is a row to return, an `UPDATE` of the column is not rejected. -/
theorem update_ne_rejected {v : Value} (has : db.Has table c filter) :
    execute db (.update table [(c, v)] filter) ≠ .error .rejected := by
  obtain ⟨t, found, known, r, held, met⟩ := has
  have none : ([(c, v)].any fun p => (t.index? p.1).isNone) = false := by simpa using known
  rw [execute, found]
  simp only [Option.elim_some, updateRows, none, Bool.false_eq_true, ↓reduceIte]
  intro rejected
  rcases bind_eq_error_iff.mp rejected with refused | ⟨_, -, rest⟩
  · exact admits_all_ne_rejected met refused
  split at rest
  · cases rest
  rcases bind_eq_error_iff.mp rest with failed | ⟨rows, -, done⟩
  · obtain ⟨s, -, one⟩ := error_of_map_m failed
    split at one
    · exact assign_ne_rejected known one
    · cases one
  · cases done

/-- One assignment. -/
theorem assign_one {v : Value} {r s : Row} (assigned : t.assign [(c, v)] r = .ok s) :
    ∃ k w a, t.index? c = some k ∧ store a v = .ok w ∧ s = r.set k w := by
  rw [Table.assign, List.foldlM_cons] at assigned
  obtain ⟨middle, one, rest⟩ := bind_eq_ok_iff.mp assigned
  cases rest
  split at one
  · cases one
  next k index =>
    cases stored : store (affinity ((t.columns[k]?).elim [] (·.type))) v with
    | error fault =>
      rw [stored] at one
      cases one
    | ok w =>
      rw [stored] at one
      cases one
      exact ⟨k, w, _, index, stored, rfl⟩

theorem index_lt {k : Nat} (index : t.index? c = some k) : k < t.columns.length :=
  (List.findIdx?_eq_some_iff_getElem.mp index).1

theorem cell_set_self {k : Nat} {w : Value} {r : Row} (index : t.index? c = some k) (inside : k < r.length) :
    t.cell (r.set k w) c = w := by
  simp [Table.cell, index, inside]

/-- **Reading back.** Right after an `UPDATE` of a column, a query of the same rows returns the
value it stored. -/
theorem read_of_update {scan : Scan} {v : Value} {row : Row} {rows : List Row} {ok : Bool}
    (full : db.Full) (own : fold table ≠ text "sqlite_master")
    (ran : outcome db (execute db (.update table [(c, v)] filter)) = some (after, ok))
    (read : select scan after (.select false [c] table filter) = .ok (row :: rows)) :
    ∃ a w, store a v = .ok w ∧ row = [w] := by
  rcases outcome_eq_some_iff.mp ran with ⟨-, updated⟩ | ⟨-, rejected, rfl⟩
  · obtain ⟨t, rows', found, -, -, each, rfl⟩ := update_ok updated
    obtain ⟨u, found', -, -, shape⟩ := select_ok read
    have there : (db.put { t with rows := rows' }).lookup table = some { t with rows := rows' } :=
      Db.lookup_put_self found (show fold t.name = fold table from Db.fold_name_of_lookup found)
    rw [source_eq own, there] at found'
    obtain rfl := Option.some.inj found'
    have first : row ∈ row :: rows := List.mem_cons_self
    rw [shape] at first
    obtain ⟨s, visited, rfl⟩ := List.mem_map.mp first
    obtain ⟨held, met⟩ := List.mem_filter.mp visited
    obtain ⟨r, before, one⟩ := mem_of_map_m each (Scan.mem_rows.mp held)
    split at one
    next chosen =>
      obtain ⟨k, w, a, index, stored, rfl⟩ := assign_one one
      have inside : k < r.length := by
        rw [full t (Db.mem_of_lookup found) r before]
        exact index_lt index
      exact ⟨a, w, stored, congrArg (fun x => [x]) (cell_set_self index inside)⟩
    next other =>
      cases one
      exact absurd met other
  · have has := (has_iff_of_read own read).mpr (List.cons_ne_nil _ _)
    exact absurd rejected (update_ne_rejected has)

end Reading

end Sws.Sql
