import Sws.Sql.Characters
import Sws.Sql.Running
import Sws.Wildcard

/-! `LIKE`, and queries with it. Texts are compared character by character as UTF-8 is read here, without
regard to the case of ASCII letters; there is no escape character, and a pattern can be too long. -/
namespace Sws.Sql

/-- `patternCompare`: the text is like the pattern. -/
def patternCompare (p t : Text) : Bool := Wildcard.stands (Wildcard.pattern 95 37 (folded p)) (folded t)

/-- `SQLITE_LIMIT_LIKE_PATTERN_LENGTH`. -/
def patternLimit : Nat := 50000

/-- `v LIKE p`, for a value that is a text or null; a pattern beyond the limit is an error. -/
def like (p : Text) (v : Value) : Option Bool :=
  if patternLimit < p.length then none
  else match v with
    | .text t => some (patternCompare p t)
    | _ => some false

example : patternCompare "%q_EEN%" "the Queens" ∧ ¬ patternCompare "q" "Queen" := by decide +kernel

/-! ### Searching for a text -/

section Searching

variable {v t : Text}

/-- The pattern between two signs for any number of characters. -/
theorem compare_between (v t : Text) : patternCompare ('%' :: (v ++ ['%'])) t =
    Wildcard.stands (.many :: (Wildcard.pattern 95 37 (folded v) ++ [.many])) (folded t) := by
  have ascii : Char.toNat '%' < 0x80 := by decide
  have first : characters ('%' :: (v ++ ['%'])) = 37 :: characters (v ++ ['%']) :=
    characters_append (s := []) ascii
  have last : characters (v ++ ['%']) = characters v ++ [37] := characters_append ascii
  rw [patternCompare, folded, first, last]
  simp [Wildcard.pattern, Wildcard.sign, lowered, folded]

/-- Without wildcards the characters of the text are searched for. -/
theorem compare_iff_within (plain : '%' ∉ v ∧ '_' ∉ v) :
    patternCompare ('%' :: (v ++ ['%'])) t = true ↔ folded v <:+: folded t := by
  have literal : 95 ∉ folded v ∧ 37 ∉ folded v :=
    ⟨mt (mem_folded (b := '_') (by decide)).mp plain.2, mt (mem_folded (b := '%') (by decide)).mp plain.1⟩
  rw [compare_between, Wildcard.pattern_eq literal, Wildcard.stands_between_iff]

/-- The text is searched for as it is, without wildcards in ASCII. -/
theorem compare_iff_occurs (plain : '%' ∉ v ∧ '_' ∉ v) (ascii : ∀ b ∈ v, b.toNat < 0x80) :
    patternCompare ('%' :: (v ++ ['%'])) t = true ↔ Occurs v t := by
  have small : ∀ b ∈ fold v, b.toNat < 0x80 := by
    rw [fold, List.forall_mem_map]
    intro b held
    have low := ascii b held
    rw [to_lower_to_nat, lowered]
    split_ifs <;> omega
  have own : folded v = (fold v).map Char.toNat := by
    have whole := output_no_lead (fun b held => (small b held).trans (by decide)) []
    rw [List.append_nil] at whole
    rw [folded_eq]
    exact whole.trans (List.append_nil _)
  rw [compare_iff_within plain, own, folded_eq, infix_characters_iff small]
  rfl

/-- Every text is found where the same characters are read, wildcards or not. -/
theorem compare_of_same (same : characters t = characters v) : patternCompare ('%' :: (v ++ ['%'])) t = true := by
  rw [compare_between, folded, folded, same]
  exact Wildcard.stands_between_nothing (Wildcard.pattern_stands_self 95 37 (folded v))

/-- The text with a letter in the place of every wildcard. -/
def tame (v : Text) : Text := v.map fun b => if b = '%' ∨ b = '_' then 'a' else b

theorem folded_tame (v : Text) :
    folded (tame v) = (folded v).map fun n => if n = 37 ∨ n = 95 then 97 else n := by
  have wild (b : Char) : (b = '%' ∨ b = '_') ↔ (b.toNat = 37 ∨ b.toNat = 95) :=
    or_congr Char.toNat_inj.symm Char.toNat_inj.symm
  rw [folded, tame, characters_map (g := fun n => if n = 37 ∨ n = 95 then 97 else n), folded, List.map_map,
    List.map_map]
  · apply List.map_congr_left
    intro n _
    simp only [Function.comp_apply, lowered]
    split_ifs <;> omega
  · intro b low
    simp only [wild]
    split_ifs
    · exact ⟨by decide, rfl⟩
    · exact ⟨low, rfl⟩
  · intro b high
    have other : ¬ (b = '%' ∨ b = '_') := by
      rw [wild]
      omega
    exact if_neg other
  · intro n high
    exact if_neg (by omega)

/-- A pattern is found where it is not: in the text with letters for its wildcards. -/
theorem compare_tame (v : Text) : patternCompare ('%' :: (v ++ ['%'])) (tame v) = true := by
  rw [compare_between, folded_tame]
  apply Wildcard.stands_between_nothing
  apply Wildcard.pattern_stands_map
  intro n _ notMany notOne
  simp [notMany, notOne]

theorem not_occurs_of_absent {b : Char} (low : b.toNat < 97) (own : b.toLower = b) (held : b ∈ v) (absent : b ∉ t) :
    ¬ Occurs v t := by
  intro occurs
  exact absent ((mem_fold low own).mp (occurs.subset ((mem_fold low own).mpr held)))

theorem not_occurs_tame (wild : '%' ∈ v ∨ '_' ∈ v) : ¬ Occurs v (tame v) := by
  have gone {b : Char} (mark : b = '%' ∨ b = '_') : b ∉ tame v := by
    intro member
    obtain ⟨d, -, same⟩ := List.mem_map.mp member
    split_ifs at same with tamed
    · subst same
      exact absurd mark (by decide)
    · exact tamed (same ▸ mark)
  rcases wild with percent | underscore
  · exact not_occurs_of_absent (by decide) (by decide) percent (gone (.inl rfl))
  · exact not_occurs_of_absent (by decide) (by decide) underscore (gone (.inr rfl))

theorem nul_mem_tame : nul ∈ tame v ↔ nul ∈ v := by
  simp only [tame, List.mem_map]
  constructor
  · rintro ⟨b, member, same⟩
    split_ifs at same
    · exact absurd same (by decide)
    · exact same ▸ member
  · intro member
    exact ⟨nul, member, by decide⟩

end Searching

/-! ### Queries -/

/-- A condition of a query with `LIKE`. -/
inductive Criterion
  | equals (column : Text) (value : Value)
  | like (column pattern : Text)
  deriving DecidableEq, Repr

/-- A query for the rows that meet some criteria. -/
structure Search where
  columns : List Text
  table : Text
  criteria : List Criterion
  deriving DecidableEq, Repr

def criteria : List Atom → Option (List Criterion)
  | [.name c, .sym .eq, .lit v] => some [.equals c v]
  | .name c :: .sym .eq :: .lit v :: .kw .and :: rest => (criteria rest).map (.equals c v :: ·)
  | [.name c, .name l, .lit (.text p)] => if fold l = text "like" then some [.like c p] else none
  | .name c :: .name l :: .lit (.text p) :: .kw .and :: rest =>
    if fold l = text "like" then (criteria rest).map (.like c p :: ·) else none
  | _ => none

def searching (columns : List Text) : List Atom → Option Search
  | .name c :: .sym .comma :: rest => searching (columns ++ [c]) rest
  | .name c :: .kw .from :: .name t :: .kw .where :: rest =>
    (criteria rest).map fun all => ⟨columns ++ [c], t, all⟩
  | _ => none

/-- A query of this kind, if the tokens are one. -/
def search? (ts : List Token) : Option Search :=
  if .illegal ∈ ts then none
  else match atoms ts with
    | .kw .select :: rest => searching [] rest
    | _ => none

namespace Criterion

/-- The comparison of the same column with the same value. -/
def condition : Criterion → Condition
  | .equals c v => { operand := .column c, value := v }
  | .like c p => { operand := .column c, value := .text p }

/-- A pattern is for a column of texts. -/
def admitted (t : Table) : Criterion → Except Fault Unit
  | .equals c v => t.admits { operand := .column c, value := v }
  | .like c _ =>
    match t.columns.find? fun d => fold d.name = fold c with
    | none => .error .rejected
    | some d => if affinity d.type = .text then .ok () else .error .unmodelled

/-- The value of the condition, if it has one. -/
def meets (t : Table) (r : Row) : Criterion → Option Bool
  | .equals c v => some (t.holds r { operand := .column c, value := v })
  | .like c p => Sql.like p (t.cell r c)

/-- The pattern is within the limit. -/
def Short : Criterion → Prop
  | .equals .. => True
  | .like _ p => p.length ≤ patternLimit

/-- The condition holds, whatever the length of its pattern. -/
def holds (t : Table) (r : Row) : Criterion → Bool
  | .equals c v => t.holds r { operand := .column c, value := v }
  | .like c p =>
    match t.cell r c with
    | .text s => patternCompare p s
    | _ => false

end Criterion

/-- The value of the conjunction, whose conditions are evaluated up to the first that fails. -/
def keeps (t : Table) (r : Row) : List Criterion → Option Bool
  | [] => some true
  | c :: rest => do if ← c.meets t r then keeps t r rest else return false

/-- The rows that `sqlite3_step` returns, up to an error. -/
def answers (t : Table) (criteria : List Criterion) : List Row → List Row
  | [] => []
  | r :: rest =>
    match keeps t r criteria with
    | none => []
    | some true => r :: answers t criteria rest
    | some false => answers t criteria rest

/-- The result rows of such a query. -/
def searchRows (scan : Scan) (db : Db) (s : Search) : Except Fault (List Row) :=
  (db.source s.table).elim (.error (noTable s.table)) fun t => do
    if s.columns.any fun c => (t.index? c).isNone then .error .rejected
    s.criteria.forM (Criterion.admitted t)
    let rows := answers t s.criteria
      (scan.rows (.select false s.columns s.table (s.criteria.map Criterion.condition)) t)
    return rows.map fun r => s.columns.map (t.cell r)

/-- `sqlite3_prepare` and the rows `sqlite3_step` then returns, for a query that may have `LIKE`. -/
def searchQuery (scan : Scan) (db : Db) (q : Text) : Except Fault (List Row) :=
  match statements (lex (cStr q)) with
  | [] => .error .unmodelled
  | ts :: _ =>
    match search? ts with
    | some s => searchRows scan db s
    | none => parse ts >>= select scan db

section Queries

variable {scan : Scan} {db : Db} {t : Table} {r : Row} {q : Text} {ts : List Token} {s : Search}
  {criteria : List Criterion} {rows : List Row}

theorem search_query_eq (reads : Reads .start q (ts ++ [.sym .semi])) (clean : nul ∉ q)
    (inner : .sym .semi ∉ ts) (parsed : search? ts = some s) : searchQuery scan db q = searchRows scan db s := by
  have read : lex (cStr q) = ts ++ [.sym .semi] := by
    rw [c_str_of_no_nul clean]
    exact reads.whole clean
  rw [searchQuery, read, statements_append_semi inner]
  simp only [parsed]

theorem search_query_cut (reads : Reads .start q ts) (cut : nul ∈ q) :
    searchQuery scan db q = .error .rejected := by
  obtain ⟨early, read, within⟩ := reads.cut cut
  have output : lex (cStr q) = early ++ [.illegal] := read
  have whole : .sym .semi ∉ early ++ [Token.illegal] := by simpa using within
  have none : search? (early ++ [.illegal]) = .none := by simp [search?]
  have rejected : parse (early ++ [.illegal]) = .error .rejected := by simp [parse]
  rw [searchQuery, output, statements_of_no_semi whole]
  simp only [none, rejected]
  rfl

theorem keeps_of_short (short : ∀ c ∈ criteria, c.Short) :
    keeps t r criteria = some (criteria.all (Criterion.holds t r)) := by
  induction criteria with
  | nil => rfl
  | cons c criteria ih =>
    obtain ⟨first, others⟩ := List.forall_mem_cons.mp short
    have own : c.meets t r = some (c.holds t r) := by
      cases c with
      | equals c v => rfl
      | like c p =>
        have within : ¬ patternLimit < p.length := not_lt.mpr first
        simp only [Criterion.meets, like, if_neg within, Criterion.holds]
        cases t.cell r c <;> rfl
    rw [keeps, own, ih others, List.all_cons]
    cases c.holds t r <;> rfl

/-- A row is not kept where a pattern is too long: if the conditions before hold, that one is an error. -/
theorem keeps_of_long (long : ∃ c ∈ criteria, ¬ c.Short) : keeps t r criteria ≠ some true := by
  induction criteria with
  | nil => simp at long
  | cons c criteria ih =>
    intro kept
    obtain ⟨holds, first, rest⟩ := Option.bind_eq_some_iff.mp kept
    cases holds with
    | false => cases rest
    | true =>
      obtain ⟨d, member, broken⟩ := long
      rcases List.mem_cons.mp member with rfl | later
      · cases d with
        | equals c v => exact broken trivial
        | like c p =>
          have beyond : patternLimit < p.length := not_le.mp broken
          simp only [Criterion.meets, like, if_pos beyond, reduceCtorEq] at first
      · exact ih ⟨d, later, broken⟩ rest

theorem answers_of_short (short : ∀ c ∈ criteria, c.Short) :
    answers t criteria rows = rows.filter fun r => criteria.all (Criterion.holds t r) := by
  induction rows with
  | nil => rfl
  | cons r rows ih =>
    rw [answers, keeps_of_short short, List.filter_cons, ih]
    cases criteria.all (Criterion.holds t r) <;> rfl

theorem answers_of_long (long : ∃ c ∈ criteria, ¬ c.Short) : answers t criteria rows = [] := by
  induction rows with
  | nil => rfl
  | cons r rows ih =>
    have dropped : keeps t r criteria ≠ some true := keeps_of_long long
    rw [answers]
    rcases kept : keeps t r criteria with _ | _ | _
    · rfl
    · exact ih
    · exact absurd kept dropped

theorem search_rows_eq (scan : Scan) (found : db.source s.table = some t)
    (known : (s.columns.any fun c => (t.index? c).isNone) = false)
    (admitted : s.criteria.forM (Criterion.admitted t) = .ok ()) :
    searchRows scan db s = .ok ((answers t s.criteria
      (scan.rows (.select false s.columns s.table (s.criteria.map Criterion.condition)) t)).map
        fun r => s.columns.map (t.cell r)) := by
  rw [searchRows, found, Option.elim_some, known, admitted]
  rfl

/-- With patterns within the limit, the rows that meet the criteria are returned. -/
theorem search_rows_short (scan : Scan) (found : db.source s.table = some t)
    (known : (s.columns.any fun c => (t.index? c).isNone) = false)
    (admitted : s.criteria.forM (Criterion.admitted t) = .ok ()) (short : ∀ c ∈ s.criteria, c.Short) :
    ∃ rows : List Row, searchRows scan db s = .ok (rows.map fun r => s.columns.map (t.cell r)) ∧
      rows.Perm (t.rows.filter fun r => s.criteria.all (Criterion.holds t r)) := by
  refine ⟨_, search_rows_eq scan found known admitted, ?_⟩
  rw [answers_of_short short]
  exact (scan.perm _ t).filter _

/-- With a pattern beyond it, none is. -/
theorem search_rows_long (scan : Scan) (found : db.source s.table = some t)
    (known : (s.columns.any fun c => (t.index? c).isNone) = false)
    (admitted : s.criteria.forM (Criterion.admitted t) = .ok ()) (long : ∃ c ∈ s.criteria, ¬ c.Short) :
    searchRows scan db s = .ok [] := by
  rw [search_rows_eq scan found known admitted, answers_of_long long]
  rfl

end Queries

end Sws.Sql
