import Mathlib.Algebra.Group.Nat.Defs
import Sws.Text

/-! Numbers of a fixed width as bytes, in either byte order. -/
namespace Sws

/-- A byte as a `char`. -/
def byte (n : Nat) : Char := Char.ofNat (n % 256)

theorem to_nat_byte (n : Nat) : (byte n).toNat = n % 256 := by
  have small : n % 256 < 256 := Nat.mod_lt n (by omega)
  have valid : (n % 256).isValidChar := .inl (by omega)
  rw [byte, Char.ofNat, dif_pos valid]
  rfl

inductive ByteOrder
  | little
  | big
  deriving DecidableEq, Repr

namespace ByteOrder

/-- The digits of a number to the base 256, the least first. -/
def digits : Nat → Nat → Text
  | 0, _ => []
  | width + 1, n => byte n :: digits width (n / 256)

def value : Text → Nat
  | [] => 0
  | c :: rest => c.toNat + 256 * value rest

def write (order : ByteOrder) (width n : Nat) : Text :=
  match order with
  | .little => digits width n
  | .big => (digits width n).reverse

def read (order : ByteOrder) (bytes : Text) : Nat :=
  match order with
  | .little => value bytes
  | .big => value bytes.reverse

variable (order : ByteOrder) (width n : Nat)

theorem length_digits : (digits width n).length = width := by
  induction width generalizing n with
  | zero => rfl
  | succ width ih => rw [digits, List.length_cons, ih]

@[simp] theorem length_write : (order.write width n).length = width := by
  cases order with
  | little => exact length_digits width n
  | big => rw [write, List.length_reverse, length_digits]

theorem value_digits : value (digits width n) = n % 256 ^ width := by
  induction width generalizing n with
  | zero => rw [digits, value, Nat.pow_zero, Nat.mod_one]
  | succ width ih => rw [digits, value, to_nat_byte, ih, Nat.pow_succ', Nat.mod_mul]

theorem read_write : order.read (order.write width n) = n % 256 ^ width := by
  cases order with
  | little => exact value_digits width n
  | big => rw [read, write, List.reverse_reverse, value_digits]

theorem read_word (x : UInt32) : UInt32.ofNat (order.read (order.write 4 x.toNat)) = x := by
  have small : x.toNat < 256 ^ 4 := x.toNat_lt
  rw [read_write, Nat.mod_eq_of_lt small, UInt32.ofNat_toNat]

end ByteOrder

end Sws
