import Mathlib.Data.List.Basic

/-! Text as lines, the way `std::getline` reads them one after another: each ends at a newline, the
last one also at the end of the text. -/
namespace Sws

/-- The lines of a text. -/
def lines : List Char → List (List Char)
  | [] => []
  | c :: t =>
    if c = '\n' then [] :: lines t
    else
      match lines t with
      | [] => [[c]]
      | line :: rest => (c :: line) :: rest

namespace Lines

theorem lines_ne_nil (c : Char) (t : List Char) : lines (c :: t) ≠ [] := by
  unfold lines
  split
  · exact List.cons_ne_nil _ _
  · split <;> exact List.cons_ne_nil _ _

/-- A beginning without a newline only lengthens the first line. -/
theorem lines_append {x t line : List Char} {rest : List (List Char)} (whole : '\n' ∉ x)
    (read : lines t = line :: rest) : lines (x ++ t) = (x ++ line) :: rest := by
  induction x with
  | nil => exact read
  | cons c x ih =>
    obtain ⟨other, tail⟩ := not_or.mp (mt List.mem_cons.mpr whole)
    rw [List.cons_append, lines, if_neg (Ne.symm other), ih tail]
    rfl

theorem lines_newline (t : List Char) : lines ('\n' :: t) = [] :: lines t := rfl

/-- A text without a newline is a line, if a newline follows. -/
theorem lines_line {x : List Char} (whole : '\n' ∉ x) (t : List Char) :
    lines (x ++ '\n' :: t) = x :: lines t := by
  rw [lines_append whole (lines_newline t), List.append_nil]

/-- A text that ends in a newline is read by itself. -/
theorem lines_append_newline (x t : List Char) :
    lines (x ++ '\n' :: t) = lines (x ++ ['\n']) ++ lines t := by
  induction x with
  | nil => rfl
  | cons c x ih =>
    by_cases newline : c = '\n'
    · rw [newline, List.cons_append, List.cons_append, lines_newline, lines_newline, ih]
      rfl
    · have some_ : lines (x ++ ['\n']) ≠ [] := by
        cases x with
        | nil => exact lines_ne_nil _ _
        | cons d x => exact lines_ne_nil _ _
      obtain ⟨line, rest, read⟩ := List.exists_cons_of_ne_nil some_
      rw [List.cons_append, List.cons_append, lines, if_neg newline, lines, if_neg newline, ih, read]
      rfl

end Lines

end Sws
