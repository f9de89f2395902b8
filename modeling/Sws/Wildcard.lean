import Mathlib.Data.List.Infix

/-! Patterns with wildcards: one sign stands for any single symbol, another for any number of them, and
every other sign for itself. -/
namespace Sws.Wildcard

variable {α : Type*}

inductive Sign (α : Type*)
  | symbol (a : α)
  /-- Any single symbol. -/
  | one
  /-- Any number of symbols, also none. -/
  | many

section Matching

variable [DecidableEq α]

/-- Whether the pattern stands for the whole list. -/
def stands : List (Sign α) → List α → Bool
  | [], l => l.isEmpty
  | .symbol a :: p, l => match l with
    | [] => false
    | b :: l => a = b && stands p l
  | .one :: p, l => match l with
    | [] => false
    | _ :: l => stands p l
  | .many :: p, l => l.tails.any (stands p)

variable {p : List (Sign α)} {a b : α} {l s : List α}

@[simp] theorem stands_nil : stands ([] : List (Sign α)) l = true ↔ l = [] := by
  simp [stands]

@[simp] theorem stands_symbol : stands (.symbol a :: p) (b :: l) = true ↔ a = b ∧ stands p l = true := by
  simp [stands]

@[simp] theorem stands_one : stands (.one :: p) (a :: l) = stands p l := rfl

theorem stands_many : stands (.many :: p) l = true ↔ ∃ skipped rest, skipped ++ rest = l ∧
    stands p rest = true := by
  simp only [stands, List.any_eq_true, List.mem_tails]
  constructor
  · rintro ⟨rest, ⟨skipped, shape⟩, stood⟩
    exact ⟨skipped, rest, shape, stood⟩
  · rintro ⟨skipped, rest, shape, stood⟩
    exact ⟨rest, ⟨skipped, shape⟩, stood⟩

/-- A pattern of symbols stands for the list of them. -/
theorem stands_symbols_append : stands (s.map .symbol ++ p) l = true ↔ ∃ rest, s ++ rest = l ∧
    stands p rest = true := by
  induction s generalizing l with
  | nil => simp
  | cons a s ih =>
    cases l with
    | nil => simp [stands]
    | cons b l =>
      rw [List.map_cons, List.cons_append, stands_symbol, ih]
      constructor
      · rintro ⟨rfl, rest, rfl, stood⟩
        exact ⟨rest, rfl, stood⟩
      · rintro ⟨rest, shape, stood⟩
        obtain ⟨rfl, rfl⟩ := List.cons.inj shape
        exact ⟨rfl, rest, rfl, stood⟩

theorem stands_many_end : stands [Sign.many] l = true :=
  stands_many.mpr ⟨l, [], List.append_nil l, stands_nil.mpr rfl⟩

/-- **Substrings.** Symbols between two signs for any number stand for the lists they occur in. -/
theorem stands_between_iff : stands (.many :: (s.map .symbol ++ [.many])) l = true ↔ s <:+: l := by
  rw [stands_many]
  simp only [stands_symbols_append]
  constructor
  · rintro ⟨before, rest, rfl, after, rfl, -⟩
    exact ⟨before, after, List.append_assoc ..⟩
  · rintro ⟨before, after, rfl⟩
    exact ⟨before, s ++ after, (List.append_assoc ..).symm, after, rfl, stands_many_end⟩

/-- A pattern stands for every list that has one it stands for between others. -/
theorem stands_between (stood : stands p s = true) (before after : List α) :
    stands (.many :: (p ++ [.many])) (before ++ s ++ after) = true := by
  have ended (q : List (Sign α)) (l : List α) (stood : stands q l = true) :
      stands (q ++ [.many]) (l ++ after) = true := by
    induction q generalizing l with
    | nil =>
      rw [stands_nil.mp stood]
      exact stands_many_end
    | cons sign q ih =>
      cases sign with
      | symbol a =>
        cases l with
        | nil => cases stood
        | cons b l =>
          obtain ⟨same, rest⟩ := stands_symbol.mp stood
          exact stands_symbol.mpr ⟨same, ih l rest⟩
      | one =>
        cases l with
        | nil => cases stood
        | cons b l => exact ih l stood
      | many =>
        obtain ⟨skipped, rest, rfl, left⟩ := stands_many.mp stood
        exact stands_many.mpr ⟨skipped, rest ++ after, (List.append_assoc ..).symm, ih rest left⟩
  exact stands_many.mpr ⟨before, s ++ after, (List.append_assoc ..).symm, ended p s stood⟩

/-- With nothing on either side. -/
theorem stands_between_nothing (stood : stands p s = true) : stands (.many :: (p ++ [.many])) s = true := by
  have within := stands_between stood [] []
  rwa [List.nil_append, List.append_nil] at within

end Matching

/-! ### Patterns written as lists -/

section Written

variable [DecidableEq α] (one many : α)

/-- The sign a symbol is in a pattern. -/
def sign (a : α) : Sign α := if a = many then .many else if a = one then .one else .symbol a

/-- The pattern a list is. -/
def pattern (l : List α) : List (Sign α) := l.map (sign one many)

variable {one many} {l : List α}

theorem pattern_eq (plain : one ∉ l ∧ many ∉ l) : pattern one many l = l.map .symbol := by
  apply List.map_congr_left
  intro b member
  have notMany : b ≠ many := fun same => plain.2 (same ▸ member)
  have notOne : b ≠ one := fun same => plain.1 (same ▸ member)
  rw [sign, if_neg notMany, if_neg notOne]

/-- A list that is replaced symbol by symbol, where it has wildcards at most, stands as a pattern for what
becomes of it. -/
theorem pattern_stands_map (one many : α) (f : α → α) (kept : ∀ b ∈ l, b ≠ many → b ≠ one → f b = b) :
    stands (pattern one many l) (l.map f) = true := by
  induction l with
  | nil => exact stands_nil.mpr rfl
  | cons b l ih =>
    obtain ⟨first, others⟩ := List.forall_mem_cons.mp kept
    have rest := ih others
    rw [pattern, List.map_cons, List.map_cons, sign]
    split_ifs with isMany isOne
    · exact stands_many.mpr ⟨[f b], l.map f, rfl, rest⟩
    · exact rest
    · exact stands_symbol.mpr ⟨(first isMany isOne).symm, rest⟩

/-- Every list stands for itself as a pattern. -/
theorem pattern_stands_self (one many : α) (l : List α) : stands (pattern one many l) l = true := by
  have same : stands (pattern one many l) (l.map id) = true := pattern_stands_map one many id fun _ _ _ _ => rfl
  rwa [List.map_id] at same

end Written

end Sws.Wildcard
