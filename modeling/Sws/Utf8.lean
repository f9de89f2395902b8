import Mathlib.Data.List.Basic

/-! The code point count of `utility`. The loop reads the lead bytes only: it steps over as many
bytes as a lead byte announces, whatever they are and whether or not they are there. -/
namespace Sws.Utility

/-- How many bytes the loop steps over after `c`; `none` where it returns 0. -/
def skipped (c : UInt8) : Option Nat :=
  if c ≤ 128 then some 0
  else if c &&& 0xE0 = 0xC0 then some 1
  else if c &&& 0xF0 = 0xE0 then some 2
  else if c &&& 0xF8 = 0xF0 then some 3
  else none

/-- The loop from the byte at hand on, after `q` turns. -/
def utf8LengFrom (q : Nat) (s : List UInt8) : Nat :=
  match s with
  | [] => q
  | c :: rest =>
    match skipped c with
    | some more => utf8LengFrom (q + 1) (rest.drop more)
    | none => 0
termination_by s.length

def utf8Leng (s : List UInt8) : Nat := utf8LengFrom 0 s

/-! ### Lead bytes -/

/-- The bytes the loop takes for the first of a chunk with so many bytes after it. -/
def Leads (c : UInt8) : Nat → Prop
  | 0 => c.toNat ≤ 128
  | 1 => 192 ≤ c.toNat ∧ c.toNat < 224
  | 2 => 224 ≤ c.toNat ∧ c.toNat < 240
  | 3 => 240 ≤ c.toNat ∧ c.toNat < 248
  | _ => False

/-- The bytes the loop stops at. -/
def Stops (c : UInt8) : Prop := 128 < c.toNat ∧ c.toNat < 192 ∨ 248 ≤ c.toNat

/-- The masks single out ranges of bytes. -/
theorem skipped_eq (c : UInt8) :
    skipped c = if c.toNat ≤ 128 then some 0 else if c.toNat < 192 then none
      else if c.toNat < 224 then some 1 else if c.toNat < 240 then some 2
      else if c.toNat < 248 then some 3 else none := by
  have all : ∀ n : Fin 256, skipped (UInt8.ofFin n) =
      if n.val ≤ 128 then some 0 else if n.val < 192 then none
        else if n.val < 224 then some 1 else if n.val < 240 then some 2
        else if n.val < 248 then some 3 else none := by
    decide +kernel
  exact all c.toFin

theorem skipped_eq_some_iff {c : UInt8} {more : Nat} : skipped c = some more ↔ Leads c more := by
  rw [skipped_eq]
  match more with
  | 0 | 1 | 2 | 3 =>
    simp only [Leads]
    split_ifs <;> simp <;> omega
  | more + 4 =>
    simp only [Leads, iff_false]
    split_ifs <;> simp

theorem skipped_eq_none_iff {c : UInt8} : skipped c = none ↔ Stops c := by
  rw [skipped_eq, Stops]
  split_ifs <;> simp <;> omega

/-- A character is encoded as a lead byte and the bytes it announces; the lead byte is not the one
continuation byte that the loop takes for a character. -/
theorem encoded_leads (c : Char) :
    ∃ lead more, String.utf8EncodeChar c = lead :: more ∧ Leads lead more.length ∧ lead.toNat ≠ 128 := by
  simp only [String.utf8EncodeChar]
  generalize c.val.toNat = v
  split_ifs with one two three
  · exact ⟨_, _, rfl, by simp [Leads]; omega, by simp; omega⟩
  · exact ⟨_, _, rfl, by simp [Leads]; omega, by simp; omega⟩
  · exact ⟨_, _, rfl, by simp [Leads]; omega, by simp; omega⟩
  · exact ⟨_, _, rfl, by simp [Leads]; omega, by simp; omega⟩

/-! ### Counting -/

theorem utf8LengFrom_chunk {c : UInt8} {more : List UInt8} (leads : Leads c more.length) (q : Nat)
    (rest : List UInt8) : utf8LengFrom q (c :: (more ++ rest)) = utf8LengFrom (q + 1) rest := by
  rw [utf8LengFrom, skipped_eq_some_iff.mpr leads]
  simp

theorem utf8LengFrom_encoded (q : Nat) (m : List Char) :
    utf8LengFrom q (m.flatMap String.utf8EncodeChar) = q + m.length := by
  induction m generalizing q with
  | nil => rw [List.flatMap_nil, utf8LengFrom, List.length_nil, Nat.add_zero]
  | cons c m ih =>
    obtain ⟨lead, more, encoded, leads, -⟩ := encoded_leads c
    rw [List.flatMap_cons, encoded, List.cons_append, utf8LengFrom_chunk leads, ih, List.length_cons]
    omega

/-- A string of whole chunks, whatever their bytes after the lead bytes are. -/
inductive Chunked : List UInt8 → Prop
  | nil : Chunked []
  | cons {c : UInt8} {more rest : List UInt8} (leads : Leads c more.length)
      (chunked : Chunked rest) : Chunked (c :: (more ++ rest))

/-- After whole chunks comes a byte that leads none. -/
def Refused (s : List UInt8) : Prop :=
  ∃ done c rest, Chunked done ∧ Stops c ∧ s = done ++ c :: rest

theorem utf8LengFrom_of_refused {s : List UInt8} (refused : Refused s) (q : Nat) :
    utf8LengFrom q s = 0 := by
  obtain ⟨done, c, rest, chunked, stops, rfl⟩ := refused
  induction chunked generalizing q with
  | nil => rw [List.nil_append, utf8LengFrom, skipped_eq_none_iff.mpr stops]
  | cons leads _ ih => rw [List.cons_append, List.append_assoc, utf8LengFrom_chunk leads, ih]

theorem refused_of_rest {c : UInt8} {rest : List UInt8} {more : Nat} (leads : Leads c more)
    (refused : Refused (rest.drop more)) : Refused (c :: rest) := by
  obtain ⟨done, d, tail, chunked, stops, split⟩ := refused
  have long : more ≤ rest.length := by
    by_contra short
    rw [List.drop_eq_nil_of_le (Nat.le_of_not_le short)] at split
    simp at split
  have whole : (rest.take more).length = more := List.length_take_of_le long
  refine ⟨c :: (rest.take more ++ done), d, tail, .cons (whole.symm ▸ leads) chunked, stops, ?_⟩
  rw [List.cons_append, List.append_assoc, ← split, List.take_append_drop]

theorem le_utf8LengFrom {s : List UInt8} (q : Nat) (unrefused : ¬ Refused s) :
    q ≤ utf8LengFrom q s := by
  fun_induction utf8LengFrom q s with
  | case1 q => exact Nat.le_refl q
  | case2 q c rest more lead ih =>
    have leads := skipped_eq_some_iff.mp lead
    exact Nat.le_of_succ_le (ih fun refused => unrefused (refused_of_rest leads refused))
  | case3 q c rest stop =>
    exact absurd ⟨[], c, rest, .nil, skipped_eq_none_iff.mp stop, rfl⟩ unrefused

theorem utf8Leng_pos {s : List UInt8} (unrefused : ¬ Refused s) (nonempty : s ≠ []) : 0 < utf8Leng s := by
  cases s with
  | nil => exact absurd rfl nonempty
  | cons c rest =>
    cases lead : skipped c with
    | none => exact absurd ⟨[], c, rest, .nil, skipped_eq_none_iff.mp lead, rfl⟩ unrefused
    | some more =>
      have leads := skipped_eq_some_iff.mp lead
      rw [utf8Leng, utf8LengFrom, lead]
      exact le_utf8LengFrom 1 fun refused => unrefused (refused_of_rest leads refused)

/-- The encodings of the sequences of code points. -/
def WellFormed (s : List UInt8) : Prop := ∃ m : List Char, s = m.flatMap String.utf8EncodeChar

/-- **The count tells a malformed string by a wrong lead byte only.** The result is the number of
code points of a well-formed string and 0 for any other exactly when the string is well-formed or
its chunks lead to a byte that leads none. -/
theorem utf8Leng_counts_iff (s : List UInt8) :
    ((∀ m : List Char, s = m.flatMap String.utf8EncodeChar → utf8Leng s = m.length) ∧
      (¬ WellFormed s → utf8Leng s = 0)) ↔ WellFormed s ∨ Refused s := by
  constructor
  · rintro ⟨-, rejects⟩
    by_contra neither
    obtain ⟨malformed, unrefused⟩ := not_or.mp neither
    have nonempty : s ≠ [] := fun empty => malformed ⟨[], empty⟩
    exact Nat.ne_of_gt (utf8Leng_pos unrefused nonempty) (rejects malformed)
  · intro either
    refine ⟨?_, fun malformed => ?_⟩
    · rintro m rfl
      rw [utf8Leng, utf8LengFrom_encoded, Nat.zero_add]
    · exact utf8LengFrom_of_refused (either.resolve_left malformed) 0

/-- A continuation byte alone, `0x80`. -/
theorem stray_continuation_counted :
    ¬ ∀ s : List UInt8,
      (∀ m : List Char, s = m.flatMap String.utf8EncodeChar → utf8Leng s = m.length) ∧
        (¬ WellFormed s → utf8Leng s = 0) := by
  intro all
  have counted : utf8Leng [0x80] = 1 := by simp [utf8Leng, utf8LengFrom, skipped]
  have malformed : ¬ WellFormed [0x80] := by
    rintro ⟨m, encoded⟩
    cases m with
    | nil => cases encoded
    | cons c m =>
      obtain ⟨lead, more, first, -, other⟩ := encoded_leads c
      rw [List.flatMap_cons, first] at encoded
      obtain ⟨rfl, -⟩ := List.cons.inj encoded
      exact other rfl
  rw [(all [0x80]).2 malformed] at counted
  cases counted

end Sws.Utility
