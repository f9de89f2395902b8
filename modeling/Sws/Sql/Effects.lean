import Sws.Sql.Running

/-! What a statement leaves: tables of other names as they were, and declarations as they were
written. -/
namespace Sws.Sql

/-! ### Steps that succeed -/

theorem bind_eq_ok_iff {ε α β : Type} {x : Except ε α} {f : α → Except ε β} {b : β} :
    x >>= f = .ok b ↔ ∃ a, x = .ok a ∧ f a = .ok b := by
  cases x with
  | ok a =>
    constructor
    · exact fun ran => ⟨a, rfl, ran⟩
    · rintro ⟨_, ⟨⟩, ran⟩
      exact ran
  | error e =>
    constructor
    · rintro ⟨⟩
    · rintro ⟨_, ⟨⟩, -⟩

theorem outcome_eq_some_iff {db after : Db} {result : Except Fault Db} {ok : Bool} :
    outcome db result = some (after, ok) ↔
      (ok = true ∧ result = .ok after) ∨ (ok = false ∧ result = .error .rejected ∧ after = db) := by
  cases result with
  | ok after' => cases ok <;> simp [outcome]
  | error fault =>
    cases fault with
    | rejected => cases ok <;> simp [outcome, eq_comm]
    | unmodelled => simp [outcome]

/-! ### Insertions -/

/-- What `INSERT` and `REPLACE` keep of a table. -/
structure SameDeclaration (t u : Table) : Prop where
  name : u.name = t.name
  columns : u.columns = t.columns
  key : u.key = t.key

theorem SameDeclaration.refl (t : Table) : SameDeclaration t t := ⟨rfl, rfl, rfl⟩

theorem SameDeclaration.trans {t u v : Table} (first : SameDeclaration t u) (second : SameDeclaration u v) :
    SameDeclaration t v :=
  ⟨second.name.trans first.name, second.columns.trans first.columns, second.key.trans first.key⟩

theorem insert_row_ok {t u : Table} {replace : Bool} {r : Row} (ran : t.insertRow replace r = .ok u) :
    u = { t with rows := (if replace then t.rows.filter fun s => ¬ t.Conflicts r s else t.rows) ++ [r] } := by
  rw [Table.insertRow] at ran
  split at ran
  · cases ran
  · cases replace with
    | true =>
      cases ran
      rfl
    | false =>
      rw [if_neg Bool.false_ne_true] at ran
      split at ran
      · cases ran
      · cases ran
        rfl

theorem insert_all_same {t u : Table} {replace : Bool} {rows : List Row}
    (ran : rows.foldlM (fun v r => v.insertRow replace r) t = .ok u) : SameDeclaration t u := by
  induction rows generalizing t with
  | nil =>
    cases ran
    exact .refl _
  | cons r rows ih =>
    rw [List.foldlM_cons] at ran
    obtain ⟨v, first, rest⟩ := bind_eq_ok_iff.mp ran
    have one := insert_row_ok first
    exact SameDeclaration.trans (by rw [one]; exact ⟨rfl, rfl, rfl⟩) (ih rest)

/-- An insertion that succeeds: the rows it builds, and the table it leaves. -/
theorem insert_ok {db after : Db} {replace : Bool} {table : Text} {columns : Option (List Text)}
    {rows : List (List Value)} (ran : execute db (.insert replace table columns rows) = .ok after) :
    ∃ t u full, db.lookup table = some t ∧ rows.mapM (t.fullRow columns) = .ok full ∧
      full.foldlM (fun v r => v.insertRow replace r) t = .ok u ∧ SameDeclaration t u ∧
      after = db.put u := by
  rw [execute] at ran
  cases found : db.lookup table with
  | none =>
    rw [found] at ran
    cases ran
  | some t =>
    rw [found] at ran
    obtain ⟨full, built, rest⟩ := bind_eq_ok_iff.mp ran
    obtain ⟨u, inserted, done⟩ := bind_eq_ok_iff.mp rest
    cases done
    exact ⟨t, u, full, rfl, built, inserted, insert_all_same inserted, rfl⟩

theorem insert_eq {db : Db} {t : Table} {replace : Bool} {table : Text} {columns : Option (List Text)}
    {rows : List (List Value)} (full : List Row) (found : db.lookup table = some t)
    (built : rows.mapM (t.fullRow columns) = .ok full) :
    execute db (.insert replace table columns rows) =
      (full.foldlM (fun (v : Table) r => v.insertRow replace r) t).map db.put := by
  have bound {result : Except Fault Table} :
      (result >>= fun after => (pure (db.put after) : Except Fault Db)) = result.map db.put := by
    cases result <;> rfl
  rw [execute, found, Option.elim_some, insertRows, built]
  exact bound

/-- The first row the table does not take decides. -/
theorem insert_rejected {db : Db} {t : Table} {replace : Bool} {table : Text}
    {columns : Option (List Text)} {row : List Value} {rows : List (List Value)}
    (found : db.lookup table = some t) (refused : t.fullRow columns row = .error .rejected) :
    execute db (.insert replace table columns (row :: rows)) = .error .rejected := by
  rw [execute, found, Option.elim_some, insertRows, List.mapM_cons, refused]
  rfl

theorem insert_missing {db : Db} {replace : Bool} {table : Text} {columns : Option (List Text)}
    {rows : List (List Value)} (absent : db.lookup table = none) :
    execute db (.insert replace table columns rows) = .error .rejected := by
  rw [execute, absent]
  rfl

namespace Table

/-- One row in by `REPLACE`. -/
def replace (t : Table) (r : Row) : Table :=
  { t with rows := t.rows.filter (fun s => ¬ t.Conflicts r s) ++ [r] }

/-- A table without `NOT NULL` columns misses nothing. -/
theorem missing_eq_false {t : Table} (free : ∀ d ∈ t.columns, d.notNull = false) (r : Row) :
    t.missing r = false := by
  simp only [missing, List.any_eq_false, Bool.and_eq_true, not_and]
  intro d member required
  rw [free d member] at required
  cases required

theorem insert_row_replace {t : Table} (free : ∀ d ∈ t.columns, d.notNull = false) (r : Row) :
    t.insertRow true r = .ok (t.replace r) := by
  rw [insertRow, missing_eq_false free]
  rfl

/-- Without a key nothing conflicts. -/
theorem insert_row_keyless {t : Table} (free : ∀ d ∈ t.columns, d.notNull = false) (keyless : t.key = [])
    (r : Row) : t.insertRow false r = .ok { t with rows := t.rows ++ [r] } := by
  have none : (t.rows.any fun s => t.Conflicts r s) = false := by simp [Conflicts, keyless]
  rw [insertRow, missing_eq_false free, none]
  rfl

theorem insert_all_replace {t : Table} (free : ∀ d ∈ t.columns, d.notNull = false) (rows : List Row) :
    rows.foldlM (fun v r => v.insertRow true r) t = .ok (rows.foldl replace t) := by
  induction rows generalizing t with
  | nil => rfl
  | cons r rows ih =>
    rw [List.foldlM_cons, insert_row_replace free]
    exact ih (t := t.replace r) free

end Table

/-! ### Other statements -/

theorem update_eq {db : Db} {t : Table} {table : Text} {sets : List (Text × Value)}
    {filter : List Condition} {change : Row → Row} (found : db.lookup table = some t)
    (known : (sets.any fun p => (t.index? p.1).isNone) = false) (admitted : filter.forM t.admits = .ok ())
    (free : (sets.any fun p => t.key.any (fold · = fold p.1) ∨
      t.columns.any fun d => d.notNull && fold d.name = fold p.1) = false)
    (assigned : ∀ r, t.assign sets r = .ok (change r)) :
    execute db (.update table sets filter) =
      .ok (db.put { t with rows := t.rows.map fun r => if t.selects filter r then change r else r }) := by
  have each : (fun r => if t.selects filter r then t.assign sets r else .ok r) =
      fun r => (pure (if t.selects filter r then change r else r) : Except Fault Row) := by
    funext r
    split
    · exact assigned r
    · rfl
  rw [execute, found, Option.elim_some, updateRows, known, admitted, free, each, List.mapM_pure]
  rfl

theorem update_missing {db : Db} {table : Text} {sets : List (Text × Value)} {filter : List Condition}
    (absent : db.lookup table = none) : execute db (.update table sets filter) = .error .rejected := by
  rw [execute, absent]
  rfl

theorem update_rejected {db : Db} {t : Table} {table : Text} {sets : List (Text × Value)}
    {filter : List Condition} (found : db.lookup table = some t)
    (unknown : (sets.any fun p => (t.index? p.1).isNone) = true) :
    execute db (.update table sets filter) = .error .rejected := by
  rw [execute, found, Option.elim_some, updateRows, unknown]
  rfl

/-- An update that succeeds: the columns it sets exist, and every selected row is assigned. -/
theorem update_ok {db after : Db} {table : Text} {sets : List (Text × Value)} {filter : List Condition}
    (ran : execute db (.update table sets filter) = .ok after) :
    ∃ t rows, db.lookup table = some t ∧ (∀ p ∈ sets, (t.index? p.1).isSome) ∧
      filter.forM t.admits = .ok () ∧
      (t.rows.mapM fun r => if t.selects filter r then t.assign sets r else .ok r) = .ok rows ∧
      after = db.put { t with rows := rows } := by
  rw [execute] at ran
  cases found : db.lookup table with
  | none =>
    rw [found] at ran
    cases ran
  | some t =>
    rw [found] at ran
    simp only [Option.elim_some, updateRows] at ran
    split at ran
    · cases ran
    next known =>
      obtain ⟨⟨⟩, admitted, rest⟩ := bind_eq_ok_iff.mp ran
      split at rest
      · cases rest
      · obtain ⟨rows, built, done⟩ := bind_eq_ok_iff.mp rest
        cases done
        refine ⟨t, rows, rfl, fun p member => ?_, admitted, built, rfl⟩
        simp only [List.any_eq_true, not_exists, not_and, Bool.not_eq_true, Option.isNone_eq_false_iff]
          at known
        exact known p member

theorem delete_ok {db after : Db} {table : Text} {filter : List Condition}
    (ran : execute db (.delete table filter) = .ok after) :
    ∃ t, db.lookup table = some t ∧
      after = db.put { t with rows := t.rows.filter fun r => ¬ t.selects filter r } := by
  rw [execute] at ran
  cases found : db.lookup table with
  | none =>
    rw [found] at ran
    cases ran
  | some t =>
    rw [found] at ran
    obtain ⟨⟨⟩, -, done⟩ := bind_eq_ok_iff.mp ran
    cases done
    exact ⟨t, rfl, rfl⟩

/-- `CREATE TABLE` finds the table already there, or adds an empty one at the end. -/
theorem create_ok {db after : Db} {ifNotExists : Bool} {t : Table}
    (ran : createTable db ifNotExists t = .ok after) :
    ((db.lookup t.name).isSome ∧ after = db) ∨ (db.lookup t.name = none ∧ after = db.create t) := by
  rw [createTable] at ran
  split at ran
  · cases ran
  split at ran
  next there =>
    split at ran
    · cases ran
      exact .inl ⟨there, rfl⟩
    · cases ran
  next free =>
    split at ran
    · cases ran
    · cases ran
      exact .inr ⟨by simpa using free, rfl⟩

theorem create_eq {db : Db} {t : Table} (free : db.lookup t.name = none)
    (allowed : (text "sqlite_").isPrefixOf (fold t.name) = false)
    (columns : (t.columns.map fun d => fold d.name).Nodup)
    (key : (t.key.any fun c => (t.index? c).isNone) = false) :
    createTable db true t = .ok (db.create t) := by
  rw [createTable, allowed, free, key]
  simp [columns]

/-! ### Other tables -/

namespace Db

theorem lookup_erase_self {db : Db} {n : Text} : (db.erase n).lookup n = none := by
  rw [lookup_eq_none_iff]
  intro t held
  simpa [erase] using (List.mem_filter.mp held).2

theorem lookup_erase_of_ne {db : Db} {m n : Text} (other : fold m ≠ fold n) :
    (db.erase m).lookup n = db.lookup n := by
  simp only [lookup, erase, List.find?_filter]
  refine congrArg (List.find? · db.tables) (funext fun t => ?_)
  by_cases same : fold t.name = fold n
  · simp [same, other.symm]
  · simp [same]

end Db

/-- The table a statement is about. -/
def Stmt.table : Stmt → Text
  | .createTable _ name _ _ | .dropTable name => name
  | .insert _ table _ _ | .update table _ _ | .delete table _ | .select _ _ table _ => table

/-- A statement leaves every table of another name as it was. -/
theorem execute_frame {db after : Db} {s : Stmt} {n : Text} (ran : execute db s = .ok after)
    (other : fold s.table ≠ fold n) : after.lookup n = db.lookup n := by
  cases s with
  | createTable ifNotExists name columns key =>
    rcases create_ok ran with ⟨-, rfl⟩ | ⟨-, rfl⟩
    · rfl
    · exact Db.lookup_create_of_ne other
  | insert replace table columns rows =>
    obtain ⟨t, u, full, found, -, -, same, rfl⟩ := insert_ok ran
    exact Db.lookup_put_of_ne (by rwa [same.name, Db.fold_name_of_lookup found])
  | update table sets filter =>
    obtain ⟨t, rows, found, -, -, -, rfl⟩ := update_ok ran
    exact Db.lookup_put_of_ne (by rwa [Db.fold_name_of_lookup found])
  | delete table filter =>
    obtain ⟨t, found, rfl⟩ := delete_ok ran
    exact Db.lookup_put_of_ne (by rwa [Db.fold_name_of_lookup found])
  | dropTable name =>
    rw [execute] at ran
    split at ran
    · cases ran
    · cases ran
      exact Db.lookup_erase_of_ne other
  | select distinct columns table filter => cases ran

/-- What every statement of a text keeps, executing the text keeps. -/
theorem kept_by_statements {Kept : Db → Prop} {db after : Db} {parts : List (List Token)} {ok : Bool}
    (keeps : ∀ part ∈ parts, ∀ s before next, parse part = .ok s → execute before s = .ok next →
      Kept before → Kept next)
    (ran : runStatements db parts = some (after, ok)) (kept : Kept db) : Kept after := by
  induction parts generalizing db with
  | nil =>
    cases ran
    exact kept
  | cons part parts ih =>
    obtain ⟨own, others⟩ := List.forall_mem_cons.mp keeps
    cases part with
    | nil => exact ih others ran kept
    | cons t ts =>
      rw [runStatements] at ran
      split at ran
      next middle executed =>
        obtain ⟨s, parsed, one⟩ := bind_eq_ok_iff.mp executed
        exact ih others ran (own s db middle parsed one kept)
      · cases ran
        exact kept
      · cases ran

/-! ### Queries -/

theorem source_eq {db : Db} {n : Text} (other : fold n ≠ text "sqlite_master") :
    db.source n = db.lookup n := if_neg other

theorem select_eq {db : Db} {t : Table} {distinct : Bool} {columns : List Text} {table : Text}
    {filter : List Condition} (scan : Scan) (found : db.source table = some t)
    (known : (columns.any fun c => (t.index? c).isNone) = false) (admitted : filter.forM t.admits = .ok ()) :
    select scan db (.select distinct columns table filter) =
      .ok (let rows := (scan.rows (.select distinct columns table filter) t).filter (t.selects filter)
        let projected := rows.map fun r => columns.map (t.cell r)
        if distinct then projected.eraseDups else projected) := by
  rw [select, found, Option.elim_some, known, admitted]
  rfl

/-- A query visits exactly the rows of the table. -/
theorem Scan.mem_rows {scan : Scan} {s : Stmt} {t : Table} {r : Row} : r ∈ scan.rows s t ↔ r ∈ t.rows :=
  (scan.perm s t).mem_iff

/-- A row that a condition singles out is all a query with that condition finds. -/
theorem Scan.filter_rows_eq_singleton {scan : Scan} {s : Stmt} {t : Table} {p : Row → Bool} {r : Row}
    (single : t.rows.filter p = [r]) : (scan.rows s t).filter p = [r] := by
  have perm := (scan.perm s t).filter p
  rw [single] at perm
  exact List.perm_singleton.mp perm

end Sws.Sql
