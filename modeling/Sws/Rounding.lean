import Mathlib.Data.Nat.Log
import Mathlib.Data.Rat.Floor

/-! The numbers of a `double`: whole numbers rounded to a given count of binary digits, to the nearest and
between two to the even one, and what may lie where a `double` is. -/
namespace Sws

/-- A `double` as it may lie in memory. -/
inductive Raw
  | number (q : Rat)
  | infinite (negative : Bool)
  | nan
  deriving DecidableEq, Repr

namespace Raw

/-- The comparison `<= 0`. -/
def atMostZero : Raw → Bool
  | number q => q ≤ 0
  | infinite negative => negative
  | nan => false

/-- The nearest whole number, between two the even one. -/
def nearest (q : Rat) : Int :=
  let below := q.floor
  if q - below < 1 / 2 ∨ q - below = 1 / 2 ∧ below % 2 = 0 then below else below + 1

/-- The number in millionths, as six decimals give it. -/
def millionths : Raw → Option Int
  | number q => some (nearest (q * 1000000))
  | infinite _ | nan => none

end Raw

/-- The nearest number with so many binary digits before its zeros. -/
def roundTo (digits n : Nat) : Nat :=
  let unit := 2 ^ (n.log2 + 1 - digits)
  unit * if 2 * (n % unit) < unit ∨ 2 * (n % unit) = unit ∧ n / unit % 2 = 0 then n / unit else n / unit + 1

section Rounding

variable {digits n : Nat}

@[simp] theorem round_to_zero (digits : Nat) : roundTo digits 0 = 0 := by
  simp [roundTo]

/-- A number of so many digits is not rounded. -/
theorem round_to_of_lt (small : n < 2 ^ digits) : roundTo digits n = n := by
  by_cases zero : n = 0
  · rw [zero, round_to_zero]
  · have short : n.log2 < digits := (Nat.log2_lt zero).mpr small
    have none : n.log2 + 1 - digits = 0 := by omega
    simp [roundTo, none, Nat.mod_one]

/-- Rounding keeps more than half. -/
theorem lt_two_mul_round_to (some_ : 0 < digits) (positive : 0 < n) : n < 2 * roundTo digits n := by
  let unit := 2 ^ (n.log2 + 1 - digits)
  have unitPositive : 0 < unit := Nat.two_pow_pos _
  have unitLe : unit ≤ n := by
    refine le_trans (Nat.pow_le_pow_right Nat.two_pos (by omega)) (Nat.log2_self_le (by omega))
  have quotient : 0 < n / unit := Nat.div_pos unitLe unitPositive
  have below : n < unit * (n / unit + 1) := Nat.lt_mul_div_succ n unitPositive
  have twice : unit * (n / unit + 1) ≤ 2 * (unit * (n / unit)) := by
    calc unit * (n / unit + 1) ≤ unit * (2 * (n / unit)) := Nat.mul_le_mul_left _ (by omega)
      _ = 2 * (unit * (n / unit)) := Nat.mul_left_comm ..
  have rounded : unit * (n / unit) ≤ roundTo digits n := by
    apply Nat.mul_le_mul_left
    split_ifs
    · exact le_rfl
    · exact Nat.le_succ _
  omega

end Rounding

end Sws
