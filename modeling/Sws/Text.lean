import Mathlib.Data.List.Basic

/-! Byte strings as the program and SQLite read them. A `std::string` is a list with one
`Char` for each byte, so every theorem over `Text` covers every byte string. -/
namespace Sws

/-- A `std::string`. -/
abbrev Text := List Char

instance : LawfulBEq Text := inferInstance

/-- A string literal of the source. -/
@[coe] def text (s : String) : Text := s.toList

instance : Coe String Text := ⟨text⟩

theorem text_ofList (cs : Text) : text (String.ofList cs) = cs := by
  rw [text, String.toList_ofList]

/-- A closed computation on a literal may be carried out on its characters. -/
theorem text_eval {α : Type} {f : Text → α} {cs : Text} {result : α} (computed : f cs = result) :
    f (text (String.ofList cs)) = result := by
  rw [text_ofList, computed]

/-- ASCII case folding: SQLite compares keywords and names by it. -/
def fold (t : Text) : Text := t.map Char.toLower

@[simp] theorem fold_nil : fold [] = [] := rfl

@[simp] theorem fold_cons (c : Char) (t : Text) : fold (c :: t) = c.toLower :: fold t := rfl

@[simp] theorem fold_append (s t : Text) : fold (s ++ t) = fold s ++ fold t := List.map_append

/-- Folding makes no character that comes before the small letters. -/
theorem to_lower_eq {c d : Char} (low : d.toNat < 97) (same : c.toLower = d) : c = d := by
  unfold Char.toLower at same
  split at same
  next upper =>
    have first : 65 ≤ c.val.toNat := upper.1
    have last : c.val.toNat ≤ 90 := upper.2
    have shifted : (c.val + 32).toNat = c.val.toNat + 32 := by
      rw [UInt32.toNat_add]
      show (c.val.toNat + 32) % 4294967296 = _
      omega
    have small : (c.val + 32).toNat < 97 := by
      subst same
      exact low
    omega
  next => exact same

theorem mem_fold {t : Text} {d : Char} (low : d.toNat < 97) (own : d.toLower = d) : d ∈ fold t ↔ d ∈ t := by
  rw [fold, List.mem_map]
  constructor
  · rintro ⟨c, member, same⟩
    exact to_lower_eq low same ▸ member
  · intro member
    exact ⟨d, member, own⟩

/-- The terminator of a C string. -/
def nul : Char := Char.ofNat 0

/-- `std::string::c_str` as a C function reads it: up to the first NUL. -/
def cStr : Text → Text
  | [] => []
  | c :: t => if c = nul then [] else c :: cStr t

theorem mem_of_mem_c_str {t : Text} {c : Char} (member : c ∈ cStr t) : c ∈ t := by
  induction t with
  | nil => cases member
  | cons d t ih =>
    by_cases stop : d = nul
    · simp [cStr, stop] at member
    · simp only [cStr, stop, ↓reduceIte, List.mem_cons] at member ⊢
      exact member.imp_right ih

theorem nul_not_mem_c_str (t : Text) : nul ∉ cStr t := by
  induction t with
  | nil => exact List.not_mem_nil
  | cons c t ih =>
    by_cases stop : c = nul
    · simp [cStr, stop]
    · simp [cStr, stop, Ne.symm stop, ih]

theorem c_str_of_no_nul {t : Text} (clean : nul ∉ t) : cStr t = t := by
  induction t with
  | nil => rfl
  | cons c t ih =>
    obtain ⟨head, tail⟩ := not_or.mp (mt List.mem_cons.mpr clean)
    rw [cStr, if_neg (Ne.symm head), ih tail]

/-- A clean prefix is read whole. -/
theorem c_str_append {s : Text} (clean : nul ∉ s) (t : Text) : cStr (s ++ t) = s ++ cStr t := by
  induction s with
  | nil => rfl
  | cons c s ih =>
    obtain ⟨head, tail⟩ := not_or.mp (mt List.mem_cons.mpr clean)
    rw [List.cons_append, cStr, if_neg (Ne.symm head), ih tail, List.cons_append]

/-- Nothing after the first NUL is read. -/
theorem c_str_append_of_nul {s : Text} (cut : nul ∈ s) (t : Text) : cStr (s ++ t) = cStr s := by
  induction s with
  | nil => cases cut
  | cons c s ih =>
    by_cases stop : c = nul
    · simp [cStr, stop]
    · have later : nul ∈ s := (List.mem_cons.mp cut).resolve_left (Ne.symm stop)
      simp [cStr, stop, ih later]

/-- `std::to_string` of an integer. -/
def decimal : Int → Text
  | .ofNat n => Nat.toDigits 10 n
  | .negSucc n => '-' :: Nat.toDigits 10 (n + 1)

end Sws
