import Mathlib.Data.List.Infix
import Sws.Text
import Sws.Transducer

/-! UTF-8 as SQLite reads it: whatever the bytes are, they are characters, and different bytes can be the
same ones. Only an ASCII byte is always itself. -/
namespace Sws.Sql

/-- What the first byte of a longer character holds. -/
def lead (b : Nat) : UInt32 :=
  UInt32.ofNat <|
    if b < 0xE0 then b - 0xC0
    else if b < 0xF0 then b - 0xE0
    else if b < 0xF8 then b - 0xF0
    else if b < 0xFC then b - 0xF8
    else if b < 0xFE then b - 0xFC
    else 0

/-- A character that has been read; one that is too short, or none at all, is the replacement. -/
def settle (c : UInt32) : Nat :=
  if c < 0x80 ∨ c &&& 0xFFFFF800 = 0xD800 ∨ c &&& 0xFFFFFFFE = 0xFFFE then 0xFFFD else c.toNat

/-- A byte where no character is open; one that continues a character is one by itself here. -/
def begin (b : Char) : List Nat × Option UInt32 :=
  if 0xC0 ≤ b.toNat then ([], some (lead b.toNat)) else ([b.toNat], none)

/-- `sqlite3Utf8Read`, byte by byte. -/
def decoder : Transducer (Option UInt32) Char Nat where
  step
    | none, b => begin b
    | some c, b =>
      if 0x80 ≤ b.toNat ∧ b.toNat < 0xC0 then ([], some ((c <<< 6) + UInt32.ofNat (b.toNat % 64)))
      else (settle c :: (begin b).1, (begin b).2)
  finish
    | none => []
    | some c => [settle c]

def characters (t : Text) : List Nat := decoder.output none t

/-- The small letter of a capital ASCII letter. -/
def lowered (c : Nat) : Nat := if 65 ≤ c ∧ c ≤ 90 then c + 32 else c

/-- The characters of a text without regard to case. -/
def folded (t : Text) : List Nat := (characters t).map lowered

/-- The text occurs in the other one byte for byte, but for the case of ASCII letters. -/
def Occurs (v t : Text) : Prop := fold v <:+: fold t

instance (v t : Text) : Decidable (Occurs v t) := inferInstanceAs (Decidable (_ <:+: _))

section Bytes

variable {s t v : Text} {b d : Char} {m : Option UInt32} {x y : List Nat}

theorem settle_ge (c : UInt32) : 0x80 ≤ settle c := by
  unfold settle
  split_ifs with short
  · decide
  · push Not at short
    exact UInt32.le_iff_toNat_le.mp (UInt32.not_lt.mp short.1)

theorem begin_ascii (ascii : b.toNat < 0x80) : begin b = ([b.toNat], none) := by
  rw [begin, if_neg (by omega)]

/-- An ASCII byte ends what is open, and is a character. -/
theorem step_ascii (ascii : b.toNat < 0x80) (m : Option UInt32) :
    decoder.step m b = (decoder.finish m ++ [b.toNat], none) := by
  have other : ¬ (0x80 ≤ b.toNat ∧ b.toNat < 0xC0) := by omega
  cases m with
  | none => exact begin_ascii ascii
  | some c => simp [decoder, begin_ascii ascii, other]

/-- The first byte of a longer character ends what is open, and opens. -/
theorem step_lead (high : 0xC0 ≤ b.toNat) (m : Option UInt32) :
    decoder.step m b = (decoder.finish m, some (lead b.toNat)) := by
  have begun : begin b = ([], some (lead b.toNat)) := if_pos high
  have other : ¬ (0x80 ≤ b.toNat ∧ b.toNat < 0xC0) := by omega
  cases m with
  | none => exact begun
  | some c => simp [decoder, begun, other]

theorem characters_append (ascii : b.toNat < 0x80) :
    characters (s ++ b :: t) = characters s ++ b.toNat :: characters t := by
  rw [characters, Transducer.output_append]
  simp only [Transducer.output, Transducer.run, step_ascii ascii, characters, List.append_assoc,
    List.cons_append, List.nil_append]

/-! ### ASCII among other bytes -/

theorem ascii_not_mem_finish (ascii : b.toNat < 0x80) (m : Option UInt32) : b.toNat ∉ decoder.finish m := by
  cases m with
  | none => exact List.not_mem_nil
  | some c =>
    have high := settle_ge c
    simp only [decoder, List.mem_singleton]
    omega

theorem ascii_not_mem_step (ascii : b.toNat < 0x80) (other : b ≠ d) (m : Option UInt32) :
    b.toNat ∉ (decoder.step m d).1 := by
  have begun : b.toNat ∉ (begin d).1 := by
    unfold begin
    split_ifs
    · exact List.not_mem_nil
    · simpa [Char.toNat_inj] using other
  cases m with
  | none => exact begun
  | some c =>
    have high := settle_ge c
    simp only [decoder]
    split_ifs
    · exact List.not_mem_nil
    · rw [List.mem_cons, not_or]
      exact ⟨by omega, begun⟩

/-- The characters below 128 are the bytes. -/
theorem mem_characters (ascii : b.toNat < 0x80) : b.toNat ∈ characters t ↔ b ∈ t := by
  have all (m : Option UInt32) : b.toNat ∈ decoder.output m t ↔ b ∈ t := by
    induction t generalizing m with
    | nil => exact iff_of_false (ascii_not_mem_finish ascii m) List.not_mem_nil
    | cons d t ih =>
      rw [Transducer.output_cons, List.mem_append, ih, List.mem_cons]
      refine or_congr_left ⟨fun held => ?_, ?_⟩
      · by_contra other
        exact ascii_not_mem_step ascii other m held
      · rintro rfl
        rw [step_ascii ascii]
        exact List.mem_append_right _ (List.mem_singleton_self _)
  exact all none

/-- Before a sign there is everything that the sign is not in. -/
theorem append_cons_of_not_mem {α : Type*} {l rest x y : List α} {n : α} (absent : n ∉ l)
    (shape : l ++ rest = x ++ n :: y) : ∃ more, x = l ++ more ∧ rest = more ++ n :: y := by
  induction l generalizing x with
  | nil => exact ⟨x, rfl, shape⟩
  | cons e l ih =>
    obtain ⟨other, others⟩ := not_or.mp (mt List.mem_cons.mpr absent)
    cases x with
    | nil => exact absurd (List.cons.inj shape).1.symm other
    | cons f x =>
      obtain ⟨rfl, tails⟩ := List.cons.inj shape
      obtain ⟨more, rfl, own⟩ := ih others tails
      exact ⟨more, rfl, own⟩

/-- Where an ASCII character is read, the byte is, and what surrounds it is read by itself. -/
theorem output_split (ascii : b.toNat < 0x80) (shape : decoder.output m t = x ++ b.toNat :: y) :
    ∃ s u, t = s ++ b :: u ∧ decoder.output m s = x ∧ characters u = y := by
  induction t generalizing m x with
  | nil =>
    have held : b.toNat ∈ decoder.finish m := by
      have whole : decoder.finish m = x ++ b.toNat :: y := shape
      simp [whole]
    exact absurd held (ascii_not_mem_finish ascii m)
  | cons d t ih =>
    rw [Transducer.output_cons] at shape
    by_cases same : b = d
    · subst same
      rw [step_ascii ascii, List.append_assoc] at shape
      obtain ⟨more, rfl, rest⟩ := append_cons_of_not_mem (ascii_not_mem_finish ascii m) shape
      cases more with
      | nil => exact ⟨[], t, rfl, (List.append_nil _).symm, (List.cons.inj rest).2⟩
      | cons e more =>
        obtain ⟨rfl, onwards⟩ := List.cons.inj rest
        obtain ⟨s, u, rfl, before, after⟩ := ih onwards
        refine ⟨b :: s, u, rfl, ?_, after⟩
        rw [Transducer.output_cons, step_ascii ascii, before, List.append_assoc]
        rfl
    · obtain ⟨more, rfl, rest⟩ := append_cons_of_not_mem (ascii_not_mem_step ascii same m) shape
      obtain ⟨s, u, rfl, before, after⟩ := ih rest
      exact ⟨d :: s, u, rfl, by rw [Transducer.output_cons, before], after⟩

theorem output_open_ne_nil (c : UInt32) (t : Text) : decoder.output (some c) t ≠ [] := by
  induction t generalizing c with
  | nil => exact List.cons_ne_nil _ _
  | cons d t ih =>
    rw [Transducer.output_cons]
    by_cases more : 0x80 ≤ d.toNat ∧ d.toNat < 0xC0
    · simpa [decoder, more] using ih _
    · simp [decoder, more]

theorem characters_eq_nil (none_ : characters t = []) : t = [] := by
  cases t with
  | nil => rfl
  | cons d t =>
    rw [characters, Transducer.output_cons] at none_
    by_cases high : 0xC0 ≤ d.toNat
    · rw [step_lead high] at none_
      exact absurd (List.append_eq_nil_iff.mp none_).2 (output_open_ne_nil _ t)
    · simp [decoder, begin, high] at none_

/-- Between other bytes an ASCII text is read as it is. -/
theorem characters_literal (ascii : ∀ b ∈ v, b.toNat < 0x80) (some_ : v ≠ []) (s t : Text) :
    characters (s ++ (v ++ t)) = characters s ++ (v.map Char.toNat ++ characters t) := by
  induction v generalizing s with
  | nil => exact absurd rfl some_
  | cons b v ih =>
    obtain ⟨first, others⟩ := List.forall_mem_cons.mp ascii
    rw [List.cons_append, characters_append first, List.map_cons, List.cons_append]
    cases v with
    | nil => rfl
    | cons d v => exact congrArg (fun more => characters s ++ b.toNat :: more) (ih others (List.cons_ne_nil _ _) [])

theorem characters_split (ascii : ∀ b ∈ v, b.toNat < 0x80) (some_ : v ≠ [])
    (shape : characters t = x ++ (v.map Char.toNat ++ y)) :
    ∃ s u, t = s ++ (v ++ u) ∧ characters s = x := by
  induction v generalizing t x with
  | nil => exact absurd rfl some_
  | cons b v ih =>
    obtain ⟨first, others⟩ := List.forall_mem_cons.mp ascii
    obtain ⟨s, u, rfl, before, after⟩ := output_split first shape
    cases v with
    | nil => exact ⟨s, u, rfl, before⟩
    | cons d v =>
      have rest : characters u = [] ++ ((d :: v).map Char.toNat ++ y) := after
      obtain ⟨gap, u, rfl, none_⟩ := ih others (List.cons_ne_nil _ _) rest
      obtain rfl := characters_eq_nil none_
      exact ⟨s, u, rfl, before⟩

/-- **Substrings.** An ASCII text is found among the characters exactly where it is found among the bytes. -/
theorem infix_characters_iff (ascii : ∀ b ∈ v, b.toNat < 0x80) :
    v.map Char.toNat <:+: characters t ↔ v <:+: t := by
  by_cases none_ : v = []
  · subst none_
    exact iff_of_true List.nil_infix List.nil_infix
  · constructor
    · rintro ⟨before, after, shape⟩
      rw [List.append_assoc] at shape
      obtain ⟨s, u, rfl, -⟩ := characters_split ascii none_ shape.symm
      exact ⟨s, u, List.append_assoc ..⟩
    · rintro ⟨s, u, rfl⟩
      refine ⟨characters s, characters u, ?_⟩
      rw [List.append_assoc, List.append_assoc, characters_literal ascii none_]

/-! ### Case -/

/-- Bytes that become other ASCII bytes become other characters, and nothing else changes. -/
theorem characters_map {f : Char → Char} {g : Nat → Nat}
    (ascii : ∀ b : Char, b.toNat < 0x80 → (f b).toNat < 0x80 ∧ g b.toNat = (f b).toNat)
    (kept : ∀ b : Char, 0x80 ≤ b.toNat → f b = b) (kept' : ∀ n, 0x80 ≤ n → g n = n) (t : Text) :
    characters (t.map f) = (characters t).map g := by
  have settled (c : UInt32) : g (settle c) = settle c := kept' _ (settle_ge c)
  have finished (m : Option UInt32) : (decoder.finish m).map g = decoder.finish m := by
    cases m with
    | none => rfl
    | some c => simp [decoder, settled]
  have stepped (m : Option UInt32) (b : Char) :
      decoder.step m (f b) = ((decoder.step m b).1.map g, (decoder.step m b).2) := by
    by_cases low : b.toNat < 0x80
    · obtain ⟨still, same⟩ := ascii b low
      rw [step_ascii still, step_ascii low, List.map_append, finished, List.map_cons, same, List.map_nil]
    · have high : 0x80 ≤ b.toNat := by omega
      have begun : (begin b).1.map g = (begin b).1 := by
        unfold begin
        split_ifs
        · rfl
        · simp [kept' _ high]
      rw [kept b high]
      cases m with
      | none => simp only [decoder, begun]
      | some c =>
        simp only [decoder]
        split_ifs
        · rfl
        · rw [List.map_cons, settled, begun]
  have all (m : Option UInt32) : decoder.output m (t.map f) = (decoder.output m t).map g := by
    induction t generalizing m with
    | nil => exact (finished m).symm
    | cons b t ih => rw [List.map_cons, Transducer.output_cons, Transducer.output_cons, stepped, ih, List.map_append]
  exact all none

theorem lowered_eq_iff {n k : Nat} (other : k < 65 ∨ 90 < k ∧ k < 97 ∨ 122 < k) : lowered n = k ↔ n = k := by
  unfold lowered
  split_ifs <;> omega

theorem mem_folded (other : b.toNat < 65 ∨ 90 < b.toNat ∧ b.toNat < 97) : b.toNat ∈ folded t ↔ b ∈ t := by
  rw [← mem_characters (by omega), folded, List.mem_map]
  simp only [lowered_eq_iff (k := b.toNat) (by omega), exists_eq_right]

/-- The program and SQLite agree on the small letter of a byte. -/
theorem to_lower_to_nat (c : Char) : c.toLower.toNat = lowered c.toNat := by
  unfold Char.toLower lowered
  split
  next upper =>
    have first : 65 ≤ c.val.toNat := upper.1
    have last : c.val.toNat ≤ 90 := upper.2
    have shifted : (c.val + 32).toNat = c.val.toNat + 32 := by
      rw [UInt32.toNat_add]
      show (c.val.toNat + 32) % 4294967296 = _
      omega
    exact shifted.trans (if_pos ⟨first, last⟩).symm
  next other => exact (if_neg other).symm

/-- The characters without regard to case are those of the text in small letters. -/
theorem folded_eq (t : Text) : folded t = characters (fold t) := by
  refine (characters_map (fun b low => ⟨?_, (to_lower_to_nat b).symm⟩) (fun b high => ?_) (fun n high => ?_) t).symm
  · rw [to_lower_to_nat, lowered]
    split_ifs <;> omega
  · rw [← Char.toNat_inj, to_lower_to_nat, lowered, if_neg (by omega)]
  · rw [lowered, if_neg (by omega)]

end Bytes

/-! ### Bytes in disguise -/

section Disguises

variable {p q v t : Text} {b k : Char}

theorem to_nat_of_nat {n : Nat} (small : n < 0xD800) : (Char.ofNat n).toNat = n := by
  rw [Char.ofNat, dif_pos (Or.inl small)]
  rfl

theorem lead_eq (high : 0xC0 ≤ b.toNat) : ∃ n < 32, lead b.toNat = UInt32.ofNat n := by
  refine ⟨_, ?_, rfl⟩
  split_ifs <;> omega

/-- The first byte of a longer character is also read from two others: one that holds nothing, and one that
continues the character. -/
theorem lead_from_two (high : 0xC0 ≤ b.toNat) : ∃ x y : Char, x ≠ b ∧ y ≠ b ∧ 0x80 ≤ x.toNat ∧ 0x80 ≤ y.toNat ∧
    ∀ m rest, decoder.output m (x :: y :: rest) = decoder.output m (b :: rest) := by
  obtain ⟨n, few, holds⟩ := lead_eq high
  obtain ⟨x, other, first, nothing⟩ : ∃ x : Char, x ≠ b ∧ 0xC0 ≤ x.toNat ∧ lead x.toNat = 0 := by
    by_cases same : Char.ofNat 0xC0 = b
    · subst same
      exact ⟨Char.ofNat 0xE0, by decide, by decide, by decide⟩
    · exact ⟨Char.ofNat 0xC0, same, by decide, by decide⟩
  have second : (Char.ofNat (0x80 + n)).toNat = 0x80 + n := to_nat_of_nat (by omega)
  refine ⟨x, Char.ofNat (0x80 + n), other, ?_, by omega, by omega, fun m rest => ?_⟩
  · rintro rfl
    omega
  · have continues : 0x80 ≤ (Char.ofNat (0x80 + n)).toNat ∧ (Char.ofNat (0x80 + n)).toNat < 0xC0 := by omega
    have held : (0x80 + n) % 64 = n := by omega
    have onwards : decoder.step (some 0) (Char.ofNat (0x80 + n)) = ([], some (UInt32.ofNat n)) := by
      refine (if_pos continues).trans ?_
      rw [second, held, UInt32.zero_shiftLeft, UInt32.zero_add]
    rw [Transducer.output_cons, Transducer.output_cons, step_lead first, nothing, onwards, Transducer.output_cons,
      step_lead high, holds, List.nil_append]

theorem output_no_lead (low : ∀ b ∈ p, b.toNat < 0xC0) (rest : Text) :
    decoder.output none (p ++ rest) = p.map Char.toNat ++ decoder.output none rest := by
  induction p with
  | nil => rfl
  | cons b p ih =>
    obtain ⟨first, others⟩ := List.forall_mem_cons.mp low
    have alone : decoder.step none b = ([b.toNat], none) := if_neg (by omega)
    rw [List.cons_append, Transducer.output_cons, alone, ih others]
    rfl

/-- A byte after the first one of a character, with ASCII behind. -/
theorem output_two (continues : 0x80 ≤ k.toNat ∧ k.toNat < 0xC0) (ascii : ∀ b ∈ q, b.toNat < 0x80) :
    characters (Char.ofNat 0xC2 :: k :: q) = k.toNat :: characters q ∧
      characters (Char.ofNat 0xC3 :: k :: q) = (k.toNat + 64) :: characters q := by
  have closed (c : UInt32) : decoder.output (some c) q = settle c :: characters q := by
    cases q with
    | nil => rfl
    | cons b q =>
      obtain ⟨first, -⟩ := List.forall_mem_cons.mp ascii
      rw [characters, Transducer.output_cons, Transducer.output_cons, step_ascii first, step_ascii first]
      rfl
  have settled : ∀ n < 64, settle (((2 : UInt32) <<< 6) + UInt32.ofNat n) = 128 + n ∧
      settle (((3 : UInt32) <<< 6) + UInt32.ofNat n) = 192 + n := by decide
  obtain ⟨two, three⟩ := settled (k.toNat % 64) (by omega)
  have read (x : Char) (high : 0xC0 ≤ x.toNat) : characters (x :: k :: q) =
      settle ((lead x.toNat <<< 6) + UInt32.ofNat (k.toNat % 64)) :: characters q := by
    have onwards : decoder.step (some (lead x.toNat)) k =
        ([], some ((lead x.toNat <<< 6) + UInt32.ofNat (k.toNat % 64))) := if_pos continues
    rw [characters, Transducer.output_cons, Transducer.output_cons, step_lead high, onwards, closed]
    rfl
  have second : lead (Char.ofNat 0xC2).toNat = 2 := by decide
  have third : lead (Char.ofNat 0xC3).toNat = 3 := by decide
  rw [read _ (by decide), read _ (by decide), second, third, two, three]
  exact ⟨congrArg (· :: _) (by omega), congrArg (· :: _) (by omega)⟩

theorem to_lower_eq_iff (high : 0x80 ≤ b.toNat) (c : Char) : c.toLower = b ↔ c = b := by
  rw [← Char.toNat_inj, to_lower_to_nat, lowered_eq_iff (by omega), Char.toNat_inj]

theorem count_fold (high : 0x80 ≤ b.toNat) (t : Text) : (fold t).count b = t.count b := by
  induction t with
  | nil => rfl
  | cons c t ih => simp only [fold_cons, List.count_cons, ih, beq_iff_eq, to_lower_eq_iff high]

/-- The last byte beyond ASCII. -/
theorem last_high (high : ∃ b ∈ v, 0x80 ≤ b.toNat) :
    ∃ p k q, v = p ++ k :: q ∧ 0x80 ≤ k.toNat ∧ ∀ b ∈ q, b.toNat < 0x80 := by
  induction v with
  | nil => simp at high
  | cons b v ih =>
    by_cases later : ∃ b ∈ v, 0x80 ≤ b.toNat
    · obtain ⟨p, k, q, rfl, own, ascii⟩ := ih later
      exact ⟨b :: p, k, q, rfl, own, ascii⟩
    · push Not at later
      obtain ⟨k, member, own⟩ := high
      rcases List.mem_cons.mp member with rfl | held
      · exact ⟨[], k, v, rfl, own, later⟩
      · exact absurd (later k held) (by omega)

/-- A byte that is not in a text separates what the text can occur in. -/
theorem not_infix_between {α : Type*} {w p rest : List α} {x : α} (absent : x ∉ w) (apart : x ∉ p) (some_ : p ≠ [])
    (length : w.length = p.length + rest.length) (long : p.length < w.length) : ¬ w <:+: p ++ x :: rest := by
  rintro ⟨before, after, shape⟩
  have total := congrArg List.length shape
  simp only [List.length_append, List.length_cons] at total
  by_cases held : x ∈ before
  · obtain ⟨c, cs, rfl⟩ := List.exists_cons_of_ne_nil (List.ne_nil_of_mem held)
    have none_ : cs = [] := List.length_eq_zero_iff.mp (by simp only [List.length_cons] at total; omega)
    subst none_
    obtain rfl := List.mem_singleton.mp held
    obtain ⟨d, p, rfl⟩ := List.exists_cons_of_ne_nil some_
    exact apart ((List.cons.inj shape).1 ▸ List.mem_cons_self)
  · have outside : x ∉ before ++ w := by simp [held, absent]
    obtain ⟨more, rfl, -⟩ := append_cons_of_not_mem outside shape
    simp only [List.length_append] at long
    omega

/-- **Disguises.** A text with a byte beyond ASCII is read from other bytes, in which it does not occur, or it
occurs where it is not read. -/
theorem disguised (high : ∃ b ∈ v, 0x80 ≤ b.toNat) :
    (∃ t, characters t = characters v ∧ ¬ Occurs v t ∧ (nul ∈ t → nul ∈ v)) ∨
      ∃ t, Occurs v t ∧ (∃ n, 0x80 ≤ n ∧ n ∈ characters v ∧ n ∉ characters t) ∧ (nul ∈ t → nul ∈ v) := by
  have clean {x : Char} (high : 0x80 ≤ x.toNat) : nul ≠ x := by
    rintro rfl
    exact absurd high (by decide)
  by_cases leads : ∃ b ∈ v, 0xC0 ≤ b.toNat
  · obtain ⟨b, member, first⟩ := leads
    obtain ⟨p, rest, rfl⟩ := List.append_of_mem member
    obtain ⟨x, y, otherX, otherY, highX, highY, same⟩ := lead_from_two first
    refine .inl ⟨p ++ x :: y :: rest, ?_, fun occurs => ?_, ?_⟩
    · rw [characters, characters, Transducer.output_append, Transducer.output_append, same]
    · have fewer := occurs.sublist.count_le b
      rw [count_fold (by omega), count_fold (by omega)] at fewer
      simp only [List.count_append, List.count_cons, beq_iff_eq, otherX, otherY, if_false, if_true] at fewer
      omega
    · simp only [List.mem_append, List.mem_cons, clean highX, clean highY, false_or]
      exact Or.imp_right .inr
  · push Not at leads
    obtain ⟨p, k, q, rfl, own, ascii⟩ := last_high high
    have continues : 0x80 ≤ k.toNat ∧ k.toNat < 0xC0 := ⟨own, leads k (by simp)⟩
    have low : ∀ b ∈ p, b.toNat < 0xC0 := fun b held => leads b (List.mem_append_left _ held)
    obtain ⟨two, three⟩ := output_two continues ascii
    have alone : characters (k :: q) = k.toNat :: characters q :=
      output_no_lead (p := [k]) (by simpa using continues.2) q
    by_cases first : p = []
    · subst first
      refine .inr ⟨Char.ofNat 0xC3 :: k :: q, ⟨fold [Char.ofNat 0xC3], [], List.append_nil _⟩,
        ⟨k.toNat, own, ?_, ?_⟩, ?_⟩
      · rw [List.nil_append, alone]
        exact List.mem_cons_self
      · rw [three, List.mem_cons, not_or]
        have read : characters q = q.map Char.toNat := by
          have whole := output_no_lead (fun b held => (ascii b held).trans (by decide)) []
          rw [List.append_nil] at whole
          exact whole.trans (List.append_nil _)
        refine ⟨by omega, fun held => ?_⟩
        rw [read] at held
        obtain ⟨b, member, same⟩ := List.mem_map.mp held
        have small := ascii b member
        omega
      · simp [clean (show 0x80 ≤ (Char.ofNat 0xC3).toNat by decide)]
    · refine .inl ⟨p ++ Char.ofNat 0xC2 :: k :: q, ?_, ?_, ?_⟩
      · rw [characters, characters, output_no_lead low, output_no_lead low]
        exact congrArg _ (two.trans alone.symm)
      · have lead : (Char.ofNat 0xC2).toNat = 0xC2 := to_nat_of_nat (by decide)
        have mark (t : Text) (low : ∀ b ∈ t, b.toNat < 0xC0) : Char.ofNat 0xC2 ∉ fold t := by
          intro held
          obtain ⟨b, member, same⟩ := List.mem_map.mp held
          obtain rfl := (to_lower_eq_iff (by omega) b).mp same
          exact absurd (low _ member) (by omega)
        have shape : fold (p ++ Char.ofNat 0xC2 :: k :: q) = fold p ++ Char.ofNat 0xC2 :: fold (k :: q) := by
          rw [fold_append, fold_cons, (to_lower_eq_iff (by omega) _).mpr rfl]
        rw [Occurs, shape]
        refine not_infix_between (mark _ leads) (mark _ low) (by simpa [fold] using first) ?_ ?_
        · simp [fold]
        · simp [fold]
      · simp [clean (show 0x80 ≤ (Char.ofNat 0xC2).toNat by decide)]

end Disguises

end Sws.Sql
