import Mathlib.Data.List.Nodup
import Mathlib.Data.List.TakeWhile
import Sws.Text

/-! Property trees: a text at every node, and children under keys that may repeat. Paths here have
one step. -/
namespace Sws

/-! ### Lists with keys -/

section Keys

variable {κ ν : Type*} [BEq κ]

/-- The first value of the key is changed, or a fresh one put behind the others. -/
def setFirst (key : κ) (change : ν → ν) (fresh : ν) : List (κ × ν) → List (κ × ν)
  | [] => [(key, fresh)]
  | (k, v) :: rest =>
    if k == key then (k, change v) :: rest else (k, v) :: setFirst key change fresh rest

variable [LawfulBEq κ] {key : κ} {change : ν → ν} {fresh : ν} {l : List (κ × ν)}

theorem lookup_set_first (k : κ) : (setFirst key change fresh l).lookup k =
    if k == key then some ((l.lookup key).elim fresh change) else l.lookup k := by
  induction l with
  | nil =>
    simp only [setFirst, List.lookup_nil, List.lookup_cons, Option.elim_none]
    cases k == key <;> rfl
  | cons entry l ih =>
    obtain ⟨k', v⟩ := entry
    unfold setFirst
    by_cases here : k' = key
    · subst here
      by_cases same : k = k'
      · simp [same]
      · simp [List.lookup_cons, beq_false_of_ne same]
    · have there : (key == k') = false := beq_false_of_ne (Ne.symm here)
      rw [if_neg (mt eq_of_beq here), List.lookup_cons, List.lookup_cons, ih, List.lookup_cons, there]
      by_cases same : k = k'
      · subst same
        simp [beq_false_of_ne here]
      · rw [beq_false_of_ne same]

/-- What has other keys stays in its place. -/
theorem filter_set_first {p : κ → Bool} (other : p key = false) :
    (setFirst key change fresh l).filter (p ·.1) = l.filter (p ·.1) := by
  induction l with
  | nil => simp [setFirst, other]
  | cons entry l ih =>
    obtain ⟨k, v⟩ := entry
    unfold setFirst
    by_cases here : k = key
    · simp [here, other]
    · rw [if_neg (mt eq_of_beq here), List.filter_cons, List.filter_cons, ih]

theorem set_first_of_not_mem (absent : key ∉ l.map Prod.fst) :
    setFirst key change fresh l = l ++ [(key, fresh)] := by
  induction l with
  | nil => rfl
  | cons entry l ih =>
    obtain ⟨k, v⟩ := entry
    obtain ⟨other, rest⟩ := not_or.mp (mt List.mem_cons.mpr absent)
    rw [setFirst, if_neg (mt eq_of_beq (Ne.symm other)), ih rest, List.cons_append]

/-- Where the key is there, the keys stay as they are. -/
theorem keys_set_first (held : key ∈ l.map Prod.fst) :
    (setFirst key change fresh l).map Prod.fst = l.map Prod.fst := by
  induction l with
  | nil => cases held
  | cons entry l ih =>
    obtain ⟨k, v⟩ := entry
    unfold setFirst
    by_cases here : k = key
    · rw [if_pos (beq_iff_eq.mpr here), List.map_cons, List.map_cons]
    · have later : key ∈ l.map Prod.fst := (List.mem_cons.mp held).resolve_left (Ne.symm here)
      rw [if_neg (mt eq_of_beq here), List.map_cons, List.map_cons, ih later]

theorem nodup_set_first (distinct : (l.map Prod.fst).Nodup) :
    ((setFirst key change fresh l).map Prod.fst).Nodup := by
  by_cases held : key ∈ l.map Prod.fst
  · rw [keys_set_first held]
    exact distinct
  · rw [set_first_of_not_mem held, List.map_append]
    exact List.Nodup.append distinct (List.nodup_singleton _) (by simpa using held)

theorem mem_set_first {entry : κ × ν} (member : entry ∈ setFirst key change fresh l) :
    entry ∈ l ∨ entry = (key, fresh) ∨ ∃ v, (key, v) ∈ l ∧ entry = (key, change v) := by
  induction l with
  | nil => exact .inr (.inl (List.mem_singleton.mp member))
  | cons head l ih =>
    obtain ⟨k, v⟩ := head
    unfold setFirst at member
    split_ifs at member with here
    · obtain rfl := eq_of_beq here
      rcases List.mem_cons.mp member with rfl | later
      · exact .inr (.inr ⟨v, List.mem_cons_self, rfl⟩)
      · exact .inl (List.mem_cons_of_mem _ later)
    · rcases List.mem_cons.mp member with rfl | later
      · exact .inl List.mem_cons_self
      · rcases ih later with old | new | ⟨w, held, rfl⟩
        · exact .inl (List.mem_cons_of_mem _ old)
        · exact .inr (.inl new)
        · exact .inr (.inr ⟨w, List.mem_cons_of_mem _ held, rfl⟩)

end Keys

/-! ### Trees -/

inductive Ptree
  | node (data : Text) (children : List (Text × Ptree))

namespace Ptree

def data : Ptree → Text
  | .node data _ => data

def children : Ptree → List (Text × Ptree)
  | .node _ children => children

def leaf (data : Text) : Ptree := .node data []

/-- The first child with the key; `get_child` throws where there is none. -/
def find (t : Ptree) (key : Text) : Option Ptree := t.children.lookup key

def addChild (t : Ptree) (key : Text) (child : Ptree) : Ptree :=
  .node t.data (t.children ++ [(key, child)])

def putChild (t : Ptree) (key : Text) (child : Ptree) : Ptree :=
  .node t.data (setFirst key (fun _ => child) child t.children)

/-- `put`: an old child keeps its own children. -/
def put (t : Ptree) (key value : Text) : Ptree :=
  .node t.data (setFirst key (fun old => .node value old.children) (leaf value) t.children)

variable {t child : Ptree} {key value : Text}

@[simp] theorem find_put_child (k : Text) :
    (t.putChild key child).find k = if k == key then some child else t.find k := by
  have children : (t.putChild key child).children = setFirst key (fun _ => child) child t.children := rfl
  rw [find, children, lookup_set_first]
  cases t.children.lookup key <;> rfl

theorem filter_put_child {p : Text → Bool} (other : p key = false) :
    (t.putChild key child).children.filter (p ·.1) = t.children.filter (p ·.1) :=
  filter_set_first other

/-- A key that is not there may as well be added. -/
theorem add_child_eq (absent : t.find key = none) : t.addChild key child = t.putChild key child := by
  have missing : key ∉ t.children.map Prod.fst := by
    rintro member
    obtain ⟨entry, held, rfl⟩ := List.mem_map.mp member
    have differs := List.lookup_eq_none_iff.mp absent entry held
    simp at differs
  rw [addChild, putChild, set_first_of_not_mem missing]

end Ptree

/-! ### Numbers -/

/-- The blanks of the classic locale. -/
def isSpace (c : Char) : Bool := c.toNat = 32 ∨ (9 ≤ c.toNat ∧ c.toNat ≤ 13)

/-- A sign, and what follows it. -/
def sign : Text → Bool × Text
  | '-' :: rest => (true, rest)
  | '+' :: rest => (false, rest)
  | rest => (false, rest)

/-- What an `int` can hold. -/
def InRange (n : Int) : Prop := -2147483648 ≤ n ∧ n < 2147483648

instance (n : Int) : Decidable (InRange n) := inferInstanceAs (Decidable (_ ∧ _))

/-- `get_value<int>` of a text: what `operator>>` reads, if nothing but blanks is left after it. -/
def readInt (t : Text) : Option Int :=
  let (negative, number) := sign (t.dropWhile isSpace)
  let digits := number.takeWhile (·.isDigit)
  let size : Int := Nat.ofDigitChars 10 digits 0
  let value := if negative then -size else size
  if digits ≠ [] ∧ (number.dropWhile (·.isDigit)).all isSpace ∧ InRange value then some value else none

theorem in_range_of_read_int {t : Text} {n : Int} (read : readInt t = some n) : InRange n := by
  unfold readInt at read
  obtain ⟨kept, same⟩ := Option.ite_none_right_eq_some.mp read
  cases same
  exact kept.2.2

theorem digit_bounds {c : Char} (digit : c.isDigit) : 48 ≤ c.toNat ∧ c.toNat ≤ 57 := by
  simp only [Char.isDigit, Bool.and_eq_true, decide_eq_true_eq, ge_iff_le,
    UInt32.le_iff_toNat_le] at digit
  exact digit

theorem sign_digit {c : Char} {rest : Text} (digit : c.isDigit) : sign (c :: rest) = (false, c :: rest) := by
  have bounds := digit_bounds digit
  have dash : c ≠ '-' := by
    rintro rfl
    exact absurd bounds (by decide)
  have plus : c ≠ '+' := by
    rintro rfl
    exact absurd bounds (by decide)
  unfold sign
  split
  next same => exact absurd (List.cons.inj same).1 dash
  next same => exact absurd (List.cons.inj same).1 plus
  next => rfl

theorem is_space_digit {c : Char} (digit : c.isDigit) : isSpace c = false := by
  have bounds := digit_bounds digit
  simp only [isSpace, decide_eq_false_iff_not]
  omega

/-- Digits after a sign are read as they stand. -/
theorem read_int_of_sign {t : Text} {negative : Bool} {m : Nat}
    (signed : sign (t.dropWhile isSpace) = (negative, Nat.toDigits 10 m))
    (range : InRange (if negative then -(m : Int) else m)) :
    readInt t = some (if negative then -(m : Int) else m) := by
  have digits : ∀ c ∈ Nat.toDigits 10 m, c.isDigit := fun c member =>
    Nat.isDigit_of_mem_toDigits (by omega) (by omega) member
  have taken : (Nat.toDigits 10 m).takeWhile (·.isDigit) = Nat.toDigits 10 m :=
    List.takeWhile_eq_self_iff.mpr digits
  have left : (Nat.toDigits 10 m).dropWhile (·.isDigit) = [] := List.dropWhile_eq_nil_iff.mpr digits
  have some_ : Nat.toDigits 10 m ≠ [] := List.ne_nil_of_length_pos Nat.length_toDigits_pos
  unfold readInt
  simp only [signed, taken, left, Nat.ofDigitChars_ten_toDigits]
  rw [if_pos ⟨some_, rfl, range⟩]

/-- A printed number is read back. -/
theorem read_int_decimal {n : Int} (range : InRange n) : readInt (decimal n) = some n := by
  cases n with
  | ofNat m =>
    have signed : sign ((Nat.toDigits 10 m).dropWhile isSpace) = (false, Nat.toDigits 10 m) := by
      obtain ⟨c, rest, shape⟩ := List.exists_cons_of_ne_nil
        (List.ne_nil_of_length_pos (Nat.length_toDigits_pos (b := 10) (n := m)))
      have digit : c.isDigit := Nat.isDigit_of_mem_toDigits (b := 10) (n := m) (by omega) (by omega)
        (by rw [shape]; exact List.mem_cons_self)
      rw [shape, List.dropWhile_cons, is_space_digit digit]
      exact sign_digit digit
    exact read_int_of_sign signed range
  | negSucc m =>
    have signed : sign (('-' :: Nat.toDigits 10 (m + 1)).dropWhile isSpace) =
        (true, Nat.toDigits 10 (m + 1)) := rfl
    exact read_int_of_sign signed range

end Sws
