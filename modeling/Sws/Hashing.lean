import Sws.Database.Calls
import Sws.Md5

/-! What the digests are of: the contents of a file as one message, padded to whole blocks. How
`fread` cuts the file makes no difference. -/
namespace Sws.Md5

variable {w : Nat}

/-- The state after a message so far, and the bytes of it that fill no block yet. -/
def after (w : Nat) (m : List UInt8) : Chain w × List UInt8 := Absorbing.absorb 64 transform (magic w, []) m

/-- The context is that of a message so far. -/
structure Represents (c : Context w) (m : List UInt8) : Prop where
  state : c.state = (after w m).1
  held : c.buffer.1.take (m.length % 64) = (after w m).2
  count0 : c.count0 = .ofNat w (8 * m.length)

/-! ### Counting -/

theorem eight_mul (n : Nat) : (BitVec.ofNat w n) <<< 3 = BitVec.ofNat w (8 * n) := by
  apply BitVec.eq_of_toNat_eq
  rw [BitVec.toNat_shiftLeft, BitVec.toNat_ofNat, BitVec.toNat_ofNat, Nat.shiftLeft_eq, Nat.mod_mul_mod,
    Nat.mul_comm]

theorem index_eq (wide : 32 ≤ w) {c : Context w} {n : Nat} (count : c.count0 = .ofNat w (8 * n)) :
    index c = n % 64 := by
  obtain ⟨k, rfl⟩ : ∃ k, w = 3 + k := ⟨w - 3, by omega⟩
  have mask : (0x3F : BitVec (3 + k)).toNat = 2 ^ 6 - 1 := by
    have small : 2 ^ 6 ≤ 2 ^ (3 + k) := Nat.pow_le_pow_right (by omega) (by omega)
    exact Nat.mod_eq_of_lt (show 63 < 2 ^ (3 + k) by omega)
  have dvd : 2 ^ 6 ∣ 2 ^ k := Nat.pow_dvd_pow 2 (by omega)
  have masked : index c = n % 2 ^ 6 := by
    rw [index, count, BitVec.toNat_and, mask, Nat.and_two_pow_sub_one_eq_mod, BitVec.toNat_ushiftRight,
      BitVec.toNat_ofNat, Nat.shiftRight_eq_div_pow, Nat.pow_add, Nat.mul_mod_mul_left,
      Nat.mul_div_cancel_left _ (by omega), Nat.mod_mod_of_dvd _ dvd]
  exact masked

/-! ### Memory -/

theorem slice_eq {piece behind : List UInt8} {place n : Nat} (fits : place + n ≤ piece.length) :
    slice (piece ++ behind) place n = some ((piece.drop place).take n) := by
  have inside : place + n ≤ (piece ++ behind).length := by
    rw [List.length_append]
    omega
  have short : n ≤ (piece.drop place).length := by
    rw [List.length_drop]
    omega
  rw [slice, if_pos inside, List.drop_append_of_le_length (by omega), List.take_append_of_le_length short]

theorem copy_eq (b : Buffer) (index : Nat) (bytes : List UInt8) (fits : index + bytes.length ≤ 64) :
    ∃ b', b.copy index bytes = some b' ∧
      b'.1 = b.1.take index ++ bytes ++ b.1.drop (index + bytes.length) :=
  ⟨_, dif_pos fits, rfl⟩

/-- The loop compresses the whole blocks that are left, and stops at what fills none. -/
theorem transform_all_eq {piece : List UInt8} (small : piece.length < 4294967233) (behind : List UInt8)
    {fuel : Nat} (place : Nat) (within : place ≤ piece.length) (enough : piece.length - place < 64 * fuel)
    (state : Chain w) :
    ∃ place' state', transformAll (piece ++ behind) piece.length fuel place state = some (place', state') ∧
      place' ≤ piece.length ∧ piece.length - place' < 64 ∧
      Absorbing.absorb 64 transform (state, []) (piece.drop place) = (state', piece.drop place') := by
  induction fuel generalizing place state with
  | zero => omega
  | succ fuel ih =>
    have next : (place + 63) % 4294967296 = place + 63 := Nat.mod_eq_of_lt (by omega)
    rw [transformAll, next]
    by_cases more : place + 63 < piece.length
    · obtain ⟨place', state', ran, inside, rest, absorbed⟩ :=
        ih (place + 64) (by omega) (by omega) (transform state ((piece.drop place).take 64))
      have step : (place + 64) % 4294967296 = place + 64 := Nat.mod_eq_of_lt (by omega)
      have length : ((piece.drop place).take 64).length = 64 := by
        rw [List.length_take, List.length_drop]
        omega
      have filled : (piece.drop place).take 64 ≠ [] := List.ne_nil_of_length_pos (by omega)
      have split : Absorbing.absorb 64 transform (state, [])
          ((piece.drop place).take 64 ++ (piece.drop place).drop 64) = _ := Absorbing.absorb_append ..
      refine ⟨place', state', ?_, inside, rest, ?_⟩
      · rw [if_pos more, slice_eq (by omega), Option.bind_some, step, ran]
      · rw [List.take_append_drop, Absorbing.absorb_full filled (by rw [length]; rfl), List.nil_append,
          List.drop_drop, absorbed] at split
        exact split
    · refine ⟨place, state, if_neg more, within, by omega, ?_⟩
      exact Absorbing.absorb_short (by rw [List.length_drop, List.length_nil]; omega)

/-! ### Updates -/

theorem after_append (m piece : List UInt8) :
    after w (m ++ piece) = Absorbing.absorb 64 transform (after w m) piece := Absorbing.absorb_append ..

theorem length_after (m : List UInt8) : (after w m).2.length = m.length % 64 := by
  have length : (Absorbing.absorb 64 transform (magic w, []) m).2.length = _ :=
    Absorbing.length_held (by rw [List.length_nil]; omega)
  rwa [List.length_nil, Nat.zero_add] at length

/-- `count[1]` after an update. -/
def carried (c : Context w) (inputLen : Nat) : Uint4 w :=
  let length : Uint4 w := .ofNat w inputLen
  (if c.count0 + length <<< 3 < length <<< 3 then c.count1 + 1 else c.count1) + length >>> 29

theorem count_append {c : Context w} {m piece : List UInt8} (count : c.count0 = .ofNat w (8 * m.length)) :
    c.count0 + BitVec.ofNat w piece.length <<< 3 = .ofNat w (8 * (m ++ piece).length) := by
  rw [count, eight_mul, ← BitVec.ofNat_add, List.length_append, Nat.mul_add]

/-- **One update.** Every access is in bounds, and the context is that of the longer message. -/
theorem update_represents (wide : 32 ≤ w) {c : Context w} {m piece : List UInt8}
    (represents : Represents c m) (small : piece.length < 4294967233) (behind : List UInt8) :
    ∃ c', update c (piece ++ behind) piece.length = some c' ∧ Represents c' (m ++ piece) ∧
      c'.count1 = carried c piece.length := by
  obtain ⟨state, held, count0⟩ := represents
  have place : index c = m.length % 64 := index_eq wide count0
  have length : (after w m).2.length = m.length % 64 := length_after m
  have before : after w m = (c.state, (after w m).2) := by rw [state]
  have count : c.count0 + BitVec.ofNat w piece.length <<< 3 = .ofNat w (8 * (m ++ piece).length) :=
    count_append count0
  have total : (after w (m ++ piece)).2.length = _ := length_after (m ++ piece)
  have bound : m.length % 64 < 64 := Nat.mod_lt _ (by omega)
  by_cases full : 64 - m.length % 64 ≤ piece.length
  · -- The buffer is filled up and compressed, then whole blocks of the input, and the rest is held.
    let first := piece.take (64 - m.length % 64)
    have firstLength : first.length = 64 - m.length % 64 := List.length_take_of_le full
    obtain ⟨filled, copied, bytes⟩ := copy_eq c.buffer (m.length % 64) first (by omega)
    have block : filled.1 = (after w m).2 ++ first := by
      have nothing : c.buffer.1.drop (m.length % 64 + first.length) = [] :=
        List.drop_eq_nil_of_le (by rw [c.buffer.2]; omega)
      rw [bytes, held, nothing, List.append_nil]
    obtain ⟨place', state', ran, inside, rest, absorbed⟩ := transform_all_eq small behind _ full
      (show _ < 64 * (piece.length / 64 + 1) by omega) (transform c.state filled.1)
    have restLength : (piece.drop place').length = piece.length - place' := List.length_drop
    obtain ⟨buffer, stored, contents⟩ := copy_eq filled 0 (piece.drop place') (by omega)
    have whole : after w (m ++ piece) = (state', piece.drop place') := by
      have split : Absorbing.absorb 64 transform (after w m) (first ++ piece.drop (64 - m.length % 64)) = _ :=
        Absorbing.absorb_append ..
      have filledUp : first ≠ [] := List.ne_nil_of_length_pos (by omega)
      rw [before, Absorbing.absorb_full filledUp (by omega), ← block, absorbed, List.take_append_drop,
        ← before] at split
      rw [after_append, split]
    have ran_ : slice (piece ++ behind) 0 (64 - m.length % 64) = some first := slice_eq (by omega)
    have tail : slice (piece ++ behind) place' (piece.length - place') = some (piece.drop place') := by
      rw [slice_eq (by omega), List.take_of_length_le (by omega)]
    refine ⟨⟨state', _, _, buffer⟩, ?_, ⟨?_, ?_, count⟩, rfl⟩
    · simp only [update, place, if_pos full, ran_, copied, ran, tail, stored, Option.bind_eq_bind,
        Option.bind_some]
      rfl
    · rw [whole]
    · rw [whole] at total ⊢
      rw [← total, contents, List.take_zero, List.nil_append, List.take_left']
      rfl
  · -- The input is held.
    obtain ⟨buffer, stored, contents⟩ := copy_eq c.buffer (m.length % 64) piece (by omega)
    have whole : after w (m ++ piece) = (c.state, (after w m).2 ++ piece) := by
      rw [after_append, before, Absorbing.absorb_short (by omega)]
    have all : slice (piece ++ behind) 0 piece.length = some piece := by
      rw [slice_eq (by omega), List.drop_zero, List.take_length]
    refine ⟨⟨c.state, _, _, buffer⟩, ?_, ⟨?_, ?_, count⟩, rfl⟩
    · simp only [update, place, if_neg full, all, stored, Option.bind_eq_bind, Option.bind_some]
      rfl
    · rw [whole]
    · rw [whole] at total ⊢
      rw [← total, contents, held, List.take_left']
      rfl

/-! ### The whole message -/

theorem represents_init (buffer : Buffer) : Represents (init w buffer) [] := ⟨rfl, rfl, rfl⟩

/-- The counters hold the number of bits, the low word in the first of them. -/
def Counts (c : Context w) (n : Nat) : Prop :=
  c.count0 = .ofNat w (8 * n) ∧ c.count1 = .ofNat w (8 * n / 2 ^ w)

/-- A piece below half a gigabyte adds its bits and carries. -/
theorem carried_eq (wide : 32 ≤ w) {c : Context w} {n len : Nat} (counts : Counts c n) (small : len < 536870912) :
    carried c len = .ofNat w (8 * (n + len) / 2 ^ w) := by
  have most : 2 ^ 32 ≤ 2 ^ w := Nat.pow_le_pow_right (by omega) wide
  have high : BitVec.ofNat w len >>> 29 = 0#w := by
    apply BitVec.eq_of_toNat_eq
    rw [BitVec.toNat_ushiftRight, BitVec.toNat_ofNat, Nat.shiftRight_eq_div_pow,
      Nat.mod_eq_of_lt (by omega), Nat.div_eq_of_lt (by omega)]
    rfl
  have sum : 8 * (n + len) = 8 * n + 8 * len := Nat.mul_add ..
  have parts : 2 ^ w * (8 * n / 2 ^ w) + 8 * n % 2 ^ w = 8 * n := Nat.div_add_mod ..
  have low : 8 * n % 2 ^ w < 2 ^ w := Nat.mod_lt _ (by omega)
  have wraps : (BitVec.ofNat w (8 * n) + BitVec.ofNat w (8 * len) < BitVec.ofNat w (8 * len)) ↔
      2 ^ w ≤ 8 * n % 2 ^ w + 8 * len := by
    rw [BitVec.lt_def, BitVec.toNat_add, BitVec.toNat_ofNat, BitVec.toNat_ofNat,
      Nat.mod_eq_of_lt (a := 8 * len) (by omega)]
    by_cases beyond : 2 ^ w ≤ 8 * n % 2 ^ w + 8 * len
    · rw [Nat.mod_eq_sub_mod beyond, Nat.mod_eq_of_lt (by omega)]
      omega
    · rw [Nat.mod_eq_of_lt (by omega)]
      omega
  simp only [carried, eight_mul, counts.1, counts.2, high, wraps, BitVec.add_zero]
  split_ifs with beyond
  · have quotient : 8 * (n + len) / 2 ^ w = 8 * n / 2 ^ w + 1 := by
      apply Nat.div_eq_of_lt_le
      · rw [Nat.add_mul, Nat.one_mul, Nat.mul_comm]
        omega
      · rw [Nat.add_mul, Nat.add_mul, Nat.one_mul, Nat.mul_comm (8 * n / 2 ^ w)]
        omega
    rw [quotient, BitVec.ofNat_add]
    rfl
  · have quotient : 8 * (n + len) / 2 ^ w = 8 * n / 2 ^ w := by
      apply Nat.div_eq_of_lt_le
      · rw [Nat.mul_comm]
        omega
      · rw [Nat.add_mul, Nat.one_mul, Nat.mul_comm (8 * n / 2 ^ w)]
        omega
    rw [quotient]

/-- The pieces of a file: none is empty, and each fits the buffer of the reading loop. -/
def Pieces (pieces : List (List UInt8)) : Prop := ∀ piece ∈ pieces, piece ≠ [] ∧ piece.length ≤ 1024

instance (pieces : List (List UInt8)) : Decidable (Pieces pieces) := List.decidableBAll _ _

theorem update_all_represents (wide : 32 ≤ w) {c : Context w} {m : List UInt8} {pieces : List (List UInt8)}
    (represents : Represents c m) (counts : Counts c m.length) (cut : Pieces pieces) :
    ∃ c', updateAll c pieces = some c' ∧ Represents c' (m ++ pieces.flatten) ∧
      Counts c' (m ++ pieces.flatten).length := by
  induction pieces generalizing c m with
  | nil => exact ⟨c, rfl, by simpa using represents, by simpa using counts⟩
  | cons piece pieces ih =>
    obtain ⟨⟨some_, small⟩, others⟩ := List.forall_mem_cons.mp cut
    obtain ⟨c', ran, longer, high⟩ := update_represents wide represents (show piece.length < _ by omega) []
    have counted : Counts c' (m ++ piece).length := by
      refine ⟨longer.count0, ?_⟩
      rw [high, carried_eq wide counts (by omega), List.length_append]
    obtain ⟨c'', rest, whole, total⟩ := ih longer counted others
    rw [List.append_nil] at ran
    rw [List.append_assoc] at whole total
    obtain ⟨a, piece, rfl⟩ := List.exists_cons_of_ne_nil some_
    refine ⟨c'', ?_, whole, total⟩
    rw [updateAll, ran, Option.bind_some, rest]
    rintro ⟨⟩

/-- A message padded to whole blocks, with eight bytes for its length at the end. -/
def padded (m field : List UInt8) : List UInt8 := m ++ padding.take (padLen (m.length % 64)) ++ field

/-- The digest: the blocks of the padded message are compressed one after another. -/
def digest (w : Nat) (m field : List UInt8) : List UInt8 :=
  let blocks := Absorbing.blocks 64 ((padded m field).length / 64) (padded m field)
  let state := blocks.foldl transform (magic w)
  encode [state.a, state.b, state.c, state.d]

theorem length_encode (words : List (Uint4 w)) : (encode words).length = 4 * words.length := by
  induction words with
  | nil => rfl
  | cons x words ih =>
    have shape : encode (x :: words) = bytes x ++ encode words := rfl
    have four : (bytes x).length = 4 := rfl
    rw [shape, List.length_append, ih, four, List.length_cons]
    omega

theorem length_padding (n : Nat) : (padding.take (padLen (n % 64))).length = padLen (n % 64) := by
  have all : padding.length = 64 := rfl
  have most : padLen (n % 64) ≤ 64 := by
    unfold padLen
    split_ifs <;> omega
  exact List.length_take_of_le (by omega)

theorem length_padded {m field : List UInt8} (eight : field.length = 8) :
    (padded m field).length = (padded m field).length / 64 * 64 := by
  have pad := length_padding m.length
  have total : (padded m field).length = m.length + padLen (m.length % 64) + 8 := by
    rw [padded, List.length_append, List.length_append, pad, eight]
  have whole : (m.length + padLen (m.length % 64) + 8) % 64 = 0 := by
    unfold padLen
    split_ifs <;> omega
  omega

/-- **The end of a message.** It is padded, and the state is that of its blocks. -/
theorem final_eq (wide : 32 ≤ w) {c : Context w} {m : List UInt8} (represents : Represents c m) :
    final c = some (digest w m (encode [c.count0, c.count1])) := by
  have eight : (encode [c.count0, c.count1]).length = 8 := length_encode _
  have pad := length_padding m.length
  have place : index c = m.length % 64 := index_eq wide represents.count0
  have most : padLen (m.length % 64) ≤ 120 := by
    unfold padLen
    split_ifs <;> omega
  obtain ⟨c', first, filled, -⟩ := update_represents wide represents
    (show (padding.take (padLen (m.length % 64))).length < _ by omega) (padding.drop (padLen (m.length % 64)))
  obtain ⟨c'', last, whole, -⟩ := update_represents wide filled
    (show (encode [c.count0, c.count1]).length < _ by omega) []
  rw [List.take_append_drop, pad] at first
  rw [List.append_nil, eight] at last
  have absorbed : after w (padded m (encode [c.count0, c.count1])) = (_, []) :=
    Absorbing.absorb_blocks (by omega) (length_padded eight)
  have state : c''.state = (after w (padded m (encode [c.count0, c.count1]))).1 := whole.state
  simp only [final, place, first, last, Option.bind_eq_bind, Option.bind_some, state, absorbed]
  rfl

/-- The length field of a message that was read in pieces. -/
def lengthField (w n : Nat) : List UInt8 :=
  encode [BitVec.ofNat w (8 * n), BitVec.ofNat w (8 * n / 2 ^ w)]

/-- The digest of a file, whole. -/
def digestPieces (w : Nat) (pieces : List (List UInt8)) : List UInt8 :=
  digest w pieces.flatten (lengthField w pieces.flatten.length)

/-- A file is digested as one message: however `fread` cuts it, every access is in bounds. -/
theorem digest_file_eq (wide : 32 ≤ w) (buffer : Buffer) {pieces : List (List UInt8)} (cut : Pieces pieces) :
    digestFile w buffer (some pieces) = some (writeToString (digestPieces w pieces)) := by
  have start : Counts (init w buffer) ([] : List UInt8).length := ⟨rfl, by simp [init]⟩
  obtain ⟨c, ran, represents, low, high⟩ := update_all_represents wide (represents_init buffer) start cut
  rw [List.nil_append] at represents low high
  have ended := final_eq wide represents
  rw [low, high] at ended
  simp only [digestFile, Option.bind_eq_bind, Option.bind_some, ran, ended]
  rfl

/-! ### The length of a message -/

def littleEndian (width n : Nat) : List UInt8 := (List.range width).map fun k => .ofNat (n / 256 ^ k)

theorem byte_eq {k : Nat} (fits : 8 * k + 8 ≤ w) (n : Nat) :
    UInt8.ofNat ((BitVec.ofNat w n >>> (8 * k)) &&& 0xff).toNat = .ofNat (n / 256 ^ k) := by
  obtain ⟨more, rfl⟩ : ∃ more, w = 8 * k + (8 + more) := ⟨w - 8 * k - 8, by omega⟩
  have mask : (0xff : BitVec (8 * k + (8 + more))).toNat = 2 ^ 8 - 1 := by
    have small : 2 ^ 8 ≤ 2 ^ (8 * k + (8 + more)) := Nat.pow_le_pow_right (by omega) (by omega)
    exact Nat.mod_eq_of_lt (show 255 < 2 ^ (8 * k + (8 + more)) by omega)
  have power : 256 ^ k = 2 ^ (8 * k) := by rw [Nat.pow_mul]
  have dvd : 2 ^ 8 ∣ 2 ^ (8 + more) := Nat.pow_dvd_pow 2 (by omega)
  apply UInt8.toNat_inj.mp
  rw [UInt8.toNat_ofNat', UInt8.toNat_ofNat', BitVec.toNat_and, mask, Nat.and_two_pow_sub_one_eq_mod,
    BitVec.toNat_ushiftRight, BitVec.toNat_ofNat, Nat.shiftRight_eq_div_pow, Nat.pow_add 2 (8 * k),
    Nat.mod_mul_right_div_self, Nat.mod_mod_of_dvd _ dvd, Nat.mod_mod, power]

theorem bytes_eq (wide : 32 ≤ w) (n : Nat) : bytes (BitVec.ofNat w n) = littleEndian 4 n := by
  have first := byte_eq (k := 0) (w := w) (by omega) n
  have second := byte_eq (k := 1) (w := w) (by omega) n
  have third := byte_eq (k := 2) (w := w) (by omega) n
  have fourth := byte_eq (k := 3) (w := w) (by omega) n
  rw [Nat.mul_zero, BitVec.ushiftRight_zero] at first
  simp only [Nat.mul_one, Nat.reduceMul] at second third fourth
  simp only [bytes, first, second, third, fourth]
  rfl

/-- Eight bytes of a number are four of it and four of what is above them. -/
theorem little_endian_eight (n : Nat) : littleEndian 8 n = littleEndian 4 n ++ littleEndian 4 (n / 4294967296) := by
  simp only [littleEndian, List.range, List.range.loop, List.map_cons, List.map_nil, List.cons_append,
    List.nil_append, Nat.div_div_eq_div_mul, Nat.reducePow, Nat.reduceMul]

theorem little_endian_eq_iff {n : Nat} (small : n < 4294967296) :
    littleEndian 4 0 = littleEndian 4 n ↔ n = 0 := by
  constructor
  · intro same
    simp only [littleEndian, List.range, List.range.loop, List.map_cons, List.map_nil, List.cons.injEq,
      ← UInt8.toNat_inj, UInt8.toNat_ofNat', Nat.reducePow] at same
    omega
  · rintro rfl
    rfl

theorem length_field_eq (wide : 32 ≤ w) (n : Nat) :
    lengthField w n = littleEndian 4 (8 * n) ++ littleEndian 4 (8 * n / 2 ^ w) := by
  have shape (x y : Uint4 w) : encode [x, y] = bytes x ++ bytes y := by simp [encode]
  rw [lengthField, shape, bytes_eq wide, bytes_eq wide]

/-- **The length of a large file is lost.** Where `unsigned long` has 32 bits, what is appended is the
number of bits; where it has 64, that is so below half a gigabyte only. -/
theorem file_length_recorded_iff (platform : w = 32 ∨ w = 64) (buffer : Buffer) {pieces : List (List UInt8)}
    (cut : Pieces pieces) (sized : pieces.flatten.length < 2 ^ 61) :
    ∃ c, updateAll (init w buffer) pieces = some c ∧
      (encode [c.count0, c.count1] = littleEndian 8 (8 * pieces.flatten.length) ↔
        w = 32 ∨ pieces.flatten.length < 536870912) := by
  have start : Counts (init w buffer) ([] : List UInt8).length := ⟨rfl, by simp [init]⟩
  have wide : 32 ≤ w := by omega
  obtain ⟨c, ran, represents, low, high⟩ := update_all_represents wide (represents_init buffer) start cut
  rw [List.nil_append] at low high
  refine ⟨c, ran, ?_⟩
  have field : encode [c.count0, c.count1] = lengthField w pieces.flatten.length := by rw [low, high]; rfl
  rw [field, length_field_eq wide, little_endian_eight, List.append_cancel_left_eq]
  rcases platform with rfl | rfl
  · simp
  · have none : 8 * pieces.flatten.length / 2 ^ 64 = 0 := Nat.div_eq_of_lt (by omega)
    rw [none, little_endian_eq_iff (by omega)]
    omega

theorem length_of_two_pieces_recorded :
    ∃ c, updateAll (init 64 ⟨List.replicate 64 0, rfl⟩) [[97, 98], [99]] = some c ∧
      (encode [c.count0, c.count1] = littleEndian 8 (8 * [[97, 98], [99]].flatten.length) ↔
        64 = 32 ∨ [[97, 98], [99]].flatten.length < 536870912) :=
  file_length_recorded_iff (.inr rfl) _ (by decide) (by decide)

/-- What `digestMemory` is given, an `int` many bytes, is digested as one message with its number of
bits. -/
theorem digest_memory_eq (wide : 32 ≤ w) (buffer : Buffer) {m : List UInt8} (short : m.length < 2147483648) :
    digestMemory w buffer m = some (writeToString (digest w m (littleEndian 8 (8 * m.length)))) := by
  obtain ⟨c, ran, represents, high⟩ :=
    update_represents wide (represents_init buffer) (show m.length < _ by omega) []
  rw [List.append_nil] at ran
  rw [List.nil_append] at represents
  have upper : c.count1 = .ofNat w (8 * m.length / 4294967296) := by
    have most : 2 ^ 32 ≤ 2 ^ w := Nat.pow_le_pow_right (by omega) wide
    have small : 8 * m.length / 4294967296 = m.length / 536870912 := by omega
    have zero : (init w buffer).count0 = 0#w := rfl
    have none : (init w buffer).count1 = 0#w := rfl
    rw [high, carried, zero, none, BitVec.zero_add, if_neg (BitVec.lt_irrefl _), BitVec.zero_add, small]
    apply BitVec.eq_of_toNat_eq
    rw [BitVec.toNat_ushiftRight, BitVec.toNat_ofNat, BitVec.toNat_ofNat, Nat.shiftRight_eq_div_pow,
      Nat.mod_eq_of_lt (a := m.length) (by omega), Nat.mod_eq_of_lt (by omega)]
  have field : encode [c.count0, c.count1] = littleEndian 8 (8 * m.length) := by
    have shape : encode [c.count0, c.count1] = bytes c.count0 ++ bytes c.count1 := by simp [encode]
    rw [shape, represents.count0, upper, bytes_eq wide, bytes_eq wide, little_endian_eight]
  have ended := final_eq wide represents
  rw [field] at ended
  simp only [digestMemory, Option.bind_eq_bind, ran, Option.bind_some, ended]
  rfl

/-- **Two ways to one digest.** A file is digested as the same bytes in memory are, wherever its length
is recorded. -/
theorem digest_file_eq_memory (platform : w = 32 ∨ w = 64) (first second : Buffer)
    {pieces : List (List UInt8)} (cut : Pieces pieces) (short : pieces.flatten.length < 2147483648)
    (recorded : w = 32 ∨ pieces.flatten.length < 536870912) :
    digestFile w first (some pieces) = digestMemory w second pieces.flatten := by
  have wide : 32 ≤ w := by omega
  rw [digest_file_eq wide first cut, digest_memory_eq wide second short, digestPieces, length_field_eq wide,
    little_endian_eight]
  rcases platform with rfl | rfl
  · rfl
  · have small : pieces.flatten.length < 536870912 := by omega
    have file : 8 * pieces.flatten.length / 2 ^ 64 = 0 := Nat.div_eq_of_lt (by omega)
    have memory : 8 * pieces.flatten.length / 4294967296 = 0 := Nat.div_eq_of_lt (by omega)
    rw [file, memory]

theorem two_pieces_as_in_memory :
    digestFile 64 ⟨List.replicate 64 0, rfl⟩ (some [[97, 98], [99]]) =
      digestMemory 64 ⟨List.replicate 64 1, rfl⟩ [[97, 98], [99]].flatten :=
  digest_file_eq_memory (.inr rfl) _ _ (by decide) (by decide) (.inr (by decide))

/-! ### The text of a digest -/

def hexDigits : Text := "0123456789abcdef"

/-- The number that hexadecimal digits stand for. -/
def hexValue (digits : Text) : Nat := digits.foldl (fun n c => 16 * n + hexDigits.idxOf c) 0

theorem digit_char_hex : ∀ n < 16, n.digitChar ∈ hexDigits ∧ hexDigits.idxOf n.digitChar = n := by decide

theorem hex2_eq (b : UInt8) : hex2 b = [(b.toNat / 16).digitChar, (b.toNat % 16).digitChar] := by
  have byte : b.toNat / 16 < 16 := by
    have small := b.toNat_lt
    omega
  unfold hex2
  by_cases low : b.toNat < 16
  · rw [Nat.toDigits_of_lt_base low, Nat.div_eq_of_lt low, Nat.mod_eq_of_lt low]
    rfl
  · rw [Nat.toDigits_of_base_le (by omega) (by omega), Nat.toDigits_of_lt_base byte]
    rfl

theorem hex2_digits (b : UInt8) :
    (hex2 b).length = 2 ∧ (∀ c ∈ hex2 b, c ∈ hexDigits) ∧ hexValue (hex2 b) = b.toNat := by
  obtain ⟨first, high⟩ := digit_char_hex (b.toNat / 16) (by have small := b.toNat_lt; omega)
  obtain ⟨second, low⟩ := digit_char_hex (b.toNat % 16) (by omega)
  refine ⟨by rw [hex2_eq]; rfl, by simp [hex2_eq, first, second], ?_⟩
  rw [hex2_eq, hexValue, List.foldl_cons, List.foldl_cons, List.foldl_nil, high, low]
  omega

theorem hex2_inj {a b : UInt8} (same : hex2 a = hex2 b) : a = b := by
  obtain ⟨-, -, first⟩ := hex2_digits a
  obtain ⟨-, -, second⟩ := hex2_digits b
  rw [same, second] at first
  exact UInt8.toNat_inj.mp first.symm

theorem length_write_to_string (digest : List UInt8) : (writeToString digest).length = 2 * digest.length := by
  induction digest with
  | nil => rfl
  | cons b digest ih =>
    have shape : writeToString (b :: digest) = hex2 b ++ writeToString digest := rfl
    rw [shape, List.length_append, ih, (hex2_digits b).1, List.length_cons]
    omega

theorem write_to_string_inj {a b : List UInt8} (same : writeToString a = writeToString b) : a = b := by
  have lengths := congrArg List.length same
  rw [length_write_to_string, length_write_to_string] at lengths
  induction a generalizing b with
  | nil =>
    obtain rfl := List.length_eq_zero_iff.mp (show b.length = 0 by rw [List.length_nil] at lengths; omega)
    rfl
  | cons x a ih =>
    cases b with
    | nil => rw [List.length_cons, List.length_nil] at lengths; omega
    | cons y b =>
      have front : hex2 x ++ writeToString a = hex2 y ++ writeToString b := same
      obtain ⟨first, others⟩ := List.append_inj front ((hex2_digits x).1.trans (hex2_digits y).1.symm)
      rw [hex2_inj first, ih others (by rw [List.length_cons, List.length_cons] at lengths; omega)]

/-- `track::file_hash`, with what `fread` returns of each file. -/
def fileHash (w : Nat) (buffer : Buffer) (contents : Text → Option (List (List UInt8))) (path : Text) :
    Option Text := digestFile w buffer (contents (cStr path))

theorem length_digest (w : Nat) (m field : List UInt8) : (digest w m field).length = 16 := length_encode _

theorem mem_hex_digits {digest : List UInt8} {c : Char} (member : c ∈ writeToString digest) : c ∈ hexDigits := by
  obtain ⟨b, -, inside⟩ := List.mem_flatMap.mp member
  exact (hex2_digits b).2.1 c inside

end Sws.Md5
