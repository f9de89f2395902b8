import Sws.Sql.Effects

/-! Queries with `ORDER BY`: the rows are visited in some order, and then sorted by one column. Texts are
compared as byte strings; a NULL comes before every number, and every number before every text. -/
namespace Sws.Sql

/-- `memcmp`; of a text and its continuation, the shorter comes first. -/
def precedes : Text → Text → Bool
  | [], _ => true
  | _ :: _, [] => false
  | c :: s, d :: t => if c = d then precedes s t else c.toNat < d.toNat

def Value.precedes : Value → Value → Bool
  | .null, _ => true
  | _, .null => false
  | .int m, .int n => m ≤ n
  | .int m, .real n => m * 1000000 ≤ n
  | .real m, .int n => m ≤ n * 1000000
  | .real m, .real n => m ≤ n
  | .int _, .text _ | .real _, .text _ => true
  | .text _, .int _ | .text _, .real _ => false
  | .text s, .text t => Sql.precedes s t

/-- A query and the column it is ordered by, where it ends in such a clause. -/
def orderBy? (ts : List Token) : Option (List Token × Text) :=
  match ts.reverse with
  | .id c :: .id b :: .reserved o :: rest =>
    if fold b = text "by" ∧ fold o = text "order" then some (rest.reverse, c) else none
  | _ => none

/-- The result rows of a query with such a clause; one with `DISTINCT` is outside the fragment. -/
def selectOrdered (scan : Scan) (db : Db) (column : Text) : Stmt → Except Fault (List Row)
  | .select false columns table filter =>
    (db.source table).elim (.error (noTable table)) fun t => do
      if (column :: columns).any fun c => (t.index? c).isNone then .error .rejected
      filter.forM t.admits
      let rows := (scan.rows (.select false columns table filter) t).filter (t.selects filter)
      let sorted := rows.mergeSort fun r s => (t.cell r column).precedes (t.cell s column)
      return sorted.map fun r => columns.map (t.cell r)
  | _ => .error .unmodelled

/-- `sqlite3_prepare` and the rows `sqlite3_step` then returns, for a query that may be ordered. -/
def orderedQuery (scan : Scan) (db : Db) (q : Text) : Except Fault (List Row) :=
  match statements (lex (cStr q)) with
  | [] => .error .unmodelled
  | ts :: _ =>
    match orderBy? ts with
    | some (body, column) => parse body >>= selectOrdered scan db column
    | none => parse ts >>= select scan db

/-! ### The order -/

theorem precedes_trans {s t u : Text} (first : precedes s t = true) (second : precedes t u = true) :
    precedes s u = true := by
  induction s generalizing t u with
  | nil => rfl
  | cons c s ih =>
    cases t with
    | nil => cases first
    | cons d t =>
      cases u with
      | nil => cases second
      | cons e u =>
        simp only [precedes] at first second ⊢
        by_cases cd : c = d
        · subst cd
          by_cases ce : c = e
          · subst ce
            simp only [↓reduceIte] at first second ⊢
            exact ih first second
          · simpa [ce] using second
        · by_cases de : d = e
          · subst de
            simpa [cd] using first
          · have less : c.toNat < d.toNat := by simpa [cd] using first
            have more : d.toNat < e.toNat := by simpa [de] using second
            have other : c ≠ e := by
              rintro rfl
              omega
            simp only [other, ↓reduceIte, decide_eq_true_iff]
            omega

theorem precedes_total (s t : Text) : (precedes s t || precedes t s) = true := by
  induction s generalizing t with
  | nil => rfl
  | cons c s ih =>
    cases t with
    | nil => rfl
    | cons d t =>
      simp only [precedes]
      by_cases same : c = d
      · subst same
        simpa using ih t
      · have apart : c.toNat ≠ d.toNat := fun eq => same (Char.toNat_inj.mp eq)
        simp only [same, Ne.symm same, ↓reduceIte, Bool.or_eq_true, decide_eq_true_iff]
        omega

theorem Value.precedes_trans {x y z : Value} (first : x.precedes y = true) (second : y.precedes z = true) :
    x.precedes z = true := by
  cases x with
  | null => rfl
  | text s =>
    cases y with
    | text t =>
      cases z with
      | text u => exact Sql.precedes_trans first second
      | _ => cases second
    | _ => cases first
  | _ =>
    cases y with
    | null => cases first
    | text t =>
      cases z with
      | text u => rfl
      | _ => cases second
    | _ =>
      cases z with
      | null => cases second
      | text u => rfl
      | _ =>
        simp only [precedes, decide_eq_true_iff] at first second ⊢
        omega

theorem Value.precedes_total (x y : Value) : (x.precedes y || y.precedes x) = true := by
  cases x with
  | null => rfl
  | text s =>
    cases y with
    | text t => exact Sql.precedes_total s t
    | _ => rfl
  | _ =>
    cases y with
    | null => rfl
    | text t => rfl
    | _ =>
      simp only [precedes, Bool.or_eq_true, decide_eq_true_iff]
      omega

/-! ### Ordered rows -/

variable {scan : Scan} {db : Db} {t : Table} {columns : List Text} {table column : Text}
  {filter : List Condition}

theorem select_ordered_eq (scan : Scan) (found : db.source table = some t)
    (known : ((column :: columns).any fun c => (t.index? c).isNone) = false)
    (admitted : filter.forM t.admits = .ok ()) :
    ∃ rows : List Row, selectOrdered scan db column (.select false columns table filter) =
        .ok (rows.map fun r => columns.map (t.cell r)) ∧
      rows.Perm (t.rows.filter (t.selects filter)) ∧
      rows.Pairwise fun r s => (t.cell r column).precedes (t.cell s column) = true := by
  have perm := (scan.perm (.select false columns table filter) t).filter (t.selects filter)
  refine ⟨_, ?_, (List.mergeSort_perm _ _).trans perm, List.pairwise_mergeSort ?_ ?_ _⟩
  · rw [selectOrdered, found, Option.elim_some, known, admitted]
    rfl
  · intro r s u
    exact Value.precedes_trans
  · intro r s
    exact Value.precedes_total _ _

/-- Every result row is of a row of the table. -/
theorem select_ordered_ok {rows : List Row}
    (read : selectOrdered scan db column (.select false columns table filter) = .ok rows) :
    ∃ t, db.source table = some t ∧ (∀ c ∈ columns, (t.index? c).isSome) ∧
      ∀ r ∈ rows, ∃ s ∈ t.rows, r = columns.map (t.cell s) := by
  rw [selectOrdered] at read
  cases found : db.source table with
  | none =>
    rw [found] at read
    cases read
  | some t =>
    rw [found] at read
    simp only [Option.elim_some] at read
    split at read
    · cases read
    next known =>
      obtain ⟨⟨⟩, -, done⟩ := bind_eq_ok_iff.mp read
      cases done
      refine ⟨t, rfl, fun c member => ?_, fun r held => ?_⟩
      · simp only [List.any_eq_true, not_exists, not_and, Bool.not_eq_true, Option.isNone_eq_false_iff]
          at known
        exact known c (List.mem_cons_of_mem _ member)
      · obtain ⟨s, sorted, rfl⟩ := List.mem_map.mp held
        have visited := List.mem_of_mem_filter (List.mem_mergeSort.mp sorted)
        exact ⟨s, Scan.mem_rows.mp visited, rfl⟩

/-- A table with columns of two names has two columns. -/
theorem two_columns {c d : Text} (other : fold c ≠ fold d) (first : (t.index? c).isSome)
    (second : (t.index? d).isSome) : 1 < t.columns.length := by
  obtain ⟨i, at_⟩ := Option.isSome_iff_exists.mp first
  obtain ⟨j, at_'⟩ := Option.isSome_iff_exists.mp second
  obtain ⟨low, own, -⟩ := List.findIdx?_eq_some_iff_getElem.mp at_
  obtain ⟨low', own', -⟩ := List.findIdx?_eq_some_iff_getElem.mp at_'
  have apart : i ≠ j := by
    rintro rfl
    simp only [decide_eq_true_iff] at own own'
    exact other (own.symm.trans own')
  omega

/-! ### Distinct values in order -/

/-- The result rows of a query for the distinct values of the column it is ordered by. -/
def selectDistinct (scan : Scan) (db : Db) (column : Text) : Stmt → Except Fault (List Row)
  | .select true [c] table filter =>
    if fold c = fold column then do
      let rows ← select scan db (.select true [c] table filter)
      return rows.mergeSort fun r s => (r.headD .null).precedes (s.headD .null)
    else .error .unmodelled
  | _ => .error .unmodelled

/-- `sqlite3_prepare` and the rows `sqlite3_step` then returns, for such a query. -/
def distinctQuery (scan : Scan) (db : Db) (q : Text) : Except Fault (List Row) :=
  match statements (lex (cStr q)) with
  | [] => .error .unmodelled
  | ts :: _ =>
    match orderBy? ts with
    | some (body, column) => parse body >>= selectDistinct scan db column
    | none => .error .unmodelled

end Sws.Sql
