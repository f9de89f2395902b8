import Sws.Absorbing
import Sws.Text

/-! The digests of `md5.h`. Its `UINT4` is meant for a four byte word but is an `unsigned long int`, which
has `w` bits here: 32 on some platforms, 64 on others. -/
namespace Sws.Md5

abbrev Uint4 (w : Nat) := BitVec w

def s11 : Nat := 7

def s12 : Nat := 12

def s13 : Nat := 17

def s14 : Nat := 22

def s21 : Nat := 5

def s22 : Nat := 9

def s23 : Nat := 14

def s24 : Nat := 20

def s31 : Nat := 4

def s32 : Nat := 11

def s33 : Nat := 16

def s34 : Nat := 23

def s41 : Nat := 6

def s42 : Nat := 10

def s43 : Nat := 15

def s44 : Nat := 21

def padding : List UInt8 := 0x80 :: List.replicate 63 0

/-! ### One block -/

section Words

variable {w : Nat} (a b c d x y z : Uint4 w) (s ac : Nat)

def f : Uint4 w := (x &&& y) ||| (~~~x &&& z)

def g : Uint4 w := (x &&& z) ||| (y &&& ~~~z)

def h : Uint4 w := x ^^^ y ^^^ z

def i : Uint4 w := y ^^^ (x ||| ~~~z)

def rotateLeft (n : Nat) : Uint4 w := (x <<< n) ||| (x >>> (32 - n))

def ff : Uint4 w := rotateLeft (a + (f b c d + x + .ofNat w ac)) s + b

def gg : Uint4 w := rotateLeft (a + (g b c d + x + .ofNat w ac)) s + b

def hh : Uint4 w := rotateLeft (a + (h b c d + x + .ofNat w ac)) s + b

def ii : Uint4 w := rotateLeft (a + (i b c d + x + .ofNat w ac)) s + b

end Words

/-- `context.state`. -/
structure Chain (w : Nat) where
  a : Uint4 w
  b : Uint4 w
  c : Uint4 w
  d : Uint4 w
  deriving DecidableEq, Repr

/-- `Decode`, the word at one index. -/
def decode (w : Nat) (input : List UInt8) (i : Nat) : Uint4 w :=
  let byte (j : Nat) : Uint4 w := .ofNat w (input.getD j 0).toNat
  byte (4 * i) ||| byte (4 * i + 1) <<< 8 ||| byte (4 * i + 2) <<< 16 ||| byte (4 * i + 3) <<< 24

/-- The bytes `Encode` puts for a word. -/
def bytes {w : Nat} (x : Uint4 w) : List UInt8 :=
  let byte (x : Uint4 w) : UInt8 := .ofNat (x &&& 0xff).toNat
  [byte x, byte (x >>> 8), byte (x >>> 16), byte (x >>> 24)]

/-- `Encode`. -/
def encode {w : Nat} (words : List (Uint4 w)) : List UInt8 := words.flatMap bytes

/-- `MD5Transform` of a block of 64 bytes. -/
def transform {w : Nat} (state : Chain w) (block : List UInt8) : Chain w :=
  let ⟨a, b, c, d⟩ := state
  let x := decode w block
  -- Round 1.
  let a := ff a b c d (x 0) s11 0xd76aa478
  let d := ff d a b c (x 1) s12 0xe8c7b756
  let c := ff c d a b (x 2) s13 0x242070db
  let b := ff b c d a (x 3) s14 0xc1bdceee
  let a := ff a b c d (x 4) s11 0xf57c0faf
  let d := ff d a b c (x 5) s12 0x4787c62a
  let c := ff c d a b (x 6) s13 0xa8304613
  let b := ff b c d a (x 7) s14 0xfd469501
  let a := ff a b c d (x 8) s11 0x698098d8
  let d := ff d a b c (x 9) s12 0x8b44f7af
  let c := ff c d a b (x 10) s13 0xffff5bb1
  let b := ff b c d a (x 11) s14 0x895cd7be
  let a := ff a b c d (x 12) s11 0x6b901122
  let d := ff d a b c (x 13) s12 0xfd987193
  let c := ff c d a b (x 14) s13 0xa679438e
  let b := ff b c d a (x 15) s14 0x49b40821
  -- Round 2.
  let a := gg a b c d (x 1) s21 0xf61e2562
  let d := gg d a b c (x 6) s22 0xc040b340
  let c := gg c d a b (x 11) s23 0x265e5a51
  let b := gg b c d a (x 0) s24 0xe9b6c7aa
  let a := gg a b c d (x 5) s21 0xd62f105d
  let d := gg d a b c (x 10) s22 0x2441453
  let c := gg c d a b (x 15) s23 0xd8a1e681
  let b := gg b c d a (x 4) s24 0xe7d3fbc8
  let a := gg a b c d (x 9) s21 0x21e1cde6
  let d := gg d a b c (x 14) s22 0xc33707d6
  let c := gg c d a b (x 3) s23 0xf4d50d87
  let b := gg b c d a (x 8) s24 0x455a14ed
  let a := gg a b c d (x 13) s21 0xa9e3e905
  let d := gg d a b c (x 2) s22 0xfcefa3f8
  let c := gg c d a b (x 7) s23 0x676f02d9
  let b := gg b c d a (x 12) s24 0x8d2a4c8a
  -- Round 3.
  let a := hh a b c d (x 5) s31 0xfffa3942
  let d := hh d a b c (x 8) s32 0x8771f681
  let c := hh c d a b (x 11) s33 0x6d9d6122
  let b := hh b c d a (x 14) s34 0xfde5380c
  let a := hh a b c d (x 1) s31 0xa4beea44
  let d := hh d a b c (x 4) s32 0x4bdecfa9
  let c := hh c d a b (x 7) s33 0xf6bb4b60
  let b := hh b c d a (x 10) s34 0xbebfbc70
  let a := hh a b c d (x 13) s31 0x289b7ec6
  let d := hh d a b c (x 0) s32 0xeaa127fa
  let c := hh c d a b (x 3) s33 0xd4ef3085
  let b := hh b c d a (x 6) s34 0x4881d05
  let a := hh a b c d (x 9) s31 0xd9d4d039
  let d := hh d a b c (x 12) s32 0xe6db99e5
  let c := hh c d a b (x 15) s33 0x1fa27cf8
  let b := hh b c d a (x 2) s34 0xc4ac5665
  -- Round 4.
  let a := ii a b c d (x 0) s41 0xf4292244
  let d := ii d a b c (x 7) s42 0x432aff97
  let c := ii c d a b (x 14) s43 0xab9423a7
  let b := ii b c d a (x 5) s44 0xfc93a039
  let a := ii a b c d (x 12) s41 0x655b59c3
  let d := ii d a b c (x 3) s42 0x8f0ccc92
  let c := ii c d a b (x 10) s43 0xffeff47d
  let b := ii b c d a (x 1) s44 0x85845dd1
  let a := ii a b c d (x 8) s41 0x6fa87e4f
  let d := ii d a b c (x 15) s42 0xfe2ce6e0
  let c := ii c d a b (x 6) s43 0xa3014314
  let b := ii b c d a (x 13) s44 0x4e0811a1
  let a := ii a b c d (x 4) s41 0xf7537e82
  let d := ii d a b c (x 11) s42 0xbd3af235
  let c := ii c d a b (x 2) s43 0x2ad7d2bb
  let b := ii b c d a (x 9) s44 0xeb86d391
  ⟨state.a + a, state.b + b, state.c + c, state.d + d⟩

/-! ### The context -/

abbrev Buffer := { bytes : List UInt8 // bytes.length = 64 }

structure Context (w : Nat) where
  state : Chain w
  count0 : Uint4 w
  count1 : Uint4 w
  buffer : Buffer

/-- `n` bytes from a place on; `none` where the input ends before. -/
def slice (input : List UInt8) (place n : Nat) : Option (List UInt8) :=
  if place + n ≤ input.length then some ((input.drop place).take n) else none

/-- `memcpy` into the buffer; `none` where it would write past the end. -/
def Buffer.copy (b : Buffer) (index : Nat) (bytes : List UInt8) : Option Buffer :=
  if fits : index + bytes.length ≤ 64 then
    some ⟨b.1.take index ++ bytes ++ b.1.drop (index + bytes.length), by simp [b.2]; omega⟩
  else none

/-- The initialization constants. -/
def magic (w : Nat) : Chain w :=
  ⟨.ofNat w 0x67452301, .ofNat w 0xefcdab89, .ofNat w 0x98badcfe, .ofNat w 0x10325476⟩

/-- `Init`; it leaves the buffer as it was. -/
def init (w : Nat) (buffer : Buffer) : Context w where
  state := magic w
  count0 := 0
  count1 := 0
  buffer := buffer

def index {w : Nat} (c : Context w) : Nat := (c.count0 >>> 3 &&& 0x3F).toNat

/-- The loop of `Update` over whole blocks, from place `i` on, an `unsigned int`. -/
def transformAll {w : Nat} (input : List UInt8) (inputLen : Nat) :
    Nat → Nat → Chain w → Option (Nat × Chain w)
  | 0, _, _ => none
  | fuel + 1, i, state =>
    if (i + 63) % 4294967296 < inputLen then
      (slice input i 64).bind fun block =>
        transformAll input inputLen fuel ((i + 64) % 4294967296) (transform state block)
    else some (i, state)

/-- `Update`; `none` where it would access memory outside the input or the buffer. -/
def update {w : Nat} (c : Context w) (input : List UInt8) (inputLen : Nat) : Option (Context w) := do
  let index := index c
  let length : Uint4 w := .ofNat w inputLen
  let count0 := c.count0 + length <<< 3
  let count1 := (if count0 < length <<< 3 then c.count1 + 1 else c.count1) + length >>> 29
  let partLen := 64 - index
  if partLen ≤ inputLen then
    let filled ← c.buffer.copy index (← slice input 0 partLen)
    let (i, state) ← transformAll input inputLen (inputLen / 64 + 1) partLen (transform c.state filled.1)
    let buffer ← filled.copy 0 (← slice input i (inputLen - i))
    return ⟨state, count0, count1, buffer⟩
  else
    let buffer ← c.buffer.copy index (← slice input 0 inputLen)
    return ⟨c.state, count0, count1, buffer⟩

/-- How many bytes of `PADDING` are put in. -/
def padLen (index : Nat) : Nat := if index < 56 then 56 - index else 120 - index

/-- `Final`, up to `digestRaw`. -/
def final {w : Nat} (c : Context w) : Option (List UInt8) := do
  let bits := encode [c.count0, c.count1]
  let c ← update c padding (padLen (index c))
  let c ← update c bits 8
  return encode [c.state.a, c.state.b, c.state.c, c.state.d]

/-- `%02x`. -/
def hex2 (byte : UInt8) : Text := (Nat.toDigits 16 byte.toNat).leftpad 2 '0'

def writeToString (digestRaw : List UInt8) : Text := digestRaw.flatMap hex2

/-- The loop of `digestFile` over what `fread` returns, until that is nothing. -/
def updateAll {w : Nat} (c : Context w) : List (List UInt8) → Option (Context w)
  | [] | [] :: _ => some c
  | piece :: rest => (update c piece piece.length).bind fun c => updateAll c rest

/-- `digestFile`; for a file that cannot be opened it returns what was never written. -/
def digestFile (w : Nat) (buffer : Buffer) (file : Option (List (List UInt8))) : Option Text := do
  let c ← updateAll (init w buffer) (← file)
  return writeToString (← final c)

/-- `digestMemory`. -/
def digestMemory (w : Nat) (buffer : Buffer) (memchunk : List UInt8) : Option Text := do
  let c ← update (init w buffer) memchunk memchunk.length
  return writeToString (← final c)

end Sws.Md5
