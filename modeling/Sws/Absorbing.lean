import Mathlib.Data.List.Basic

/-! Input taken in blocks of one size, however it is cut. The machine takes one element at a time and
compresses each block as soon as it is full; a loop that takes whole blocks at once does the same. -/
namespace Sws.Absorbing

variable {σ α : Type*} (size : Nat) (compress : σ → List α → σ)

/-- One element more, after a state and the elements that fill no block yet. -/
def take (s : σ × List α) (a : α) : σ × List α :=
  if s.2.length + 1 = size then (compress s.1 (s.2 ++ [a]), []) else (s.1, s.2 ++ [a])

def absorb (s : σ × List α) (input : List α) : σ × List α := input.foldl (take size compress) s

/-- The first blocks of a list. -/
def blocks : Nat → List α → List (List α)
  | 0, _ => []
  | count + 1, input => input.take size :: blocks count (input.drop size)

variable {size compress} {s : σ} {held input rest : List α}

theorem absorb_append (p : σ × List α) (input rest : List α) :
    absorb size compress p (input ++ rest) = absorb size compress (absorb size compress p input) rest :=
  List.foldl_append

/-- What fills no block is held. -/
theorem absorb_short (short : held.length + input.length < size) :
    absorb size compress (s, held) input = (s, held ++ input) := by
  induction input generalizing held with
  | nil => rw [List.append_nil]; rfl
  | cons a input ih =>
    have open_ : held.length + 1 ≠ size := by
      rw [List.length_cons] at short
      omega
    have room : (held ++ [a]).length + input.length < size := by
      rw [List.length_append, List.length_singleton]
      rw [List.length_cons] at short
      omega
    have onwards := ih room
    rw [absorb, List.foldl_cons, take, if_neg open_]
    rw [absorb, List.append_assoc, List.singleton_append] at onwards
    exact onwards

/-- What fills the block is compressed with what is held. -/
theorem absorb_full (some_ : input ≠ []) (full : held.length + input.length = size) :
    absorb size compress (s, held) input = (compress s (held ++ input), []) := by
  obtain ⟨front, last, rfl⟩ := List.eq_nil_or_concat input |>.resolve_left some_
  rw [List.concat_eq_append] at full ⊢
  rw [List.length_append, List.length_singleton] at full
  have closed : (held ++ front).length + 1 = size := by
    rw [List.length_append]
    omega
  have kept : absorb size compress (s, held) front = (s, held ++ front) := absorb_short (by omega)
  have last_ : absorb size compress (s, held ++ front) [last] =
      (compress s (held ++ front ++ [last]), []) := if_pos closed
  rw [absorb_append, kept, last_, List.append_assoc]

/-- The input is held modulo the size of a block. -/
theorem length_held (small : held.length < size) :
    (absorb size compress (s, held) input).2.length = (held.length + input.length) % size := by
  induction input generalizing s held with
  | nil => exact (Nat.mod_eq_of_lt small).symm
  | cons a input ih =>
    have onwards : absorb size compress (s, held) (a :: input) =
        absorb size compress (take size compress (s, held) a) input := rfl
    rw [onwards, List.length_cons]
    by_cases closed : held.length + 1 = size
    · have step : take size compress (s, held) a = (compress s (held ++ [a]), []) := if_pos closed
      have positive : ([] : List α).length < size := by
        rw [List.length_nil]
        omega
      have length : held.length + (input.length + 1) = size + input.length := by omega
      rw [step, ih positive, List.length_nil, Nat.zero_add, length, Nat.add_mod_left]
    · have step : take size compress (s, held) a = (s, held ++ [a]) := if_neg closed
      have length : (held ++ [a]).length = held.length + 1 := List.length_append
      rw [step, ih (by omega), length, Nat.add_right_comm, Nat.add_assoc]

/-- Whole blocks are compressed one after another. -/
theorem absorb_blocks (positive : 0 < size) {count : Nat} (whole : input.length = count * size) :
    absorb size compress (s, []) input = ((blocks size count input).foldl compress s, []) := by
  induction count generalizing s input with
  | zero =>
    rw [Nat.zero_mul, List.length_eq_zero_iff] at whole
    rw [whole]
    rfl
  | succ count ih =>
    rw [Nat.succ_mul] at whole
    have first : (input.take size).length = size := List.length_take_of_le (by omega)
    have filled : input.take size ≠ [] := by
      intro empty
      rw [empty] at first
      exact Nat.ne_of_lt positive first
    have others : (input.drop size).length = count * size := by
      rw [List.length_drop]
      omega
    have split : absorb size compress (s, []) (input.take size ++ input.drop size) = _ := absorb_append ..
    have full : ([] : List α).length + (input.take size).length = size := by
      rw [first, List.length_nil, Nat.zero_add]
    rw [List.take_append_drop, absorb_full filled full, List.nil_append, ih others] at split
    exact split

end Sws.Absorbing
