import Mathlib.Tactic.IntervalCases
import Sws.Sql.Lexer

/-! What the scanner makes of the pieces a statement is assembled from: fixed text, escaped
string literals, bracketed identifiers and printed numbers. -/
namespace Sws.Sql

attribute [local simp] Transducer.run scanner step

/-- Read from mode `m`, the piece `s` emits `tokens` and leaves the scanner in mode `next`. -/
def Scans (m : Mode) (s : Text) (tokens : List Token) (next : Mode) : Prop :=
  scanner.run m s = (tokens, next)

namespace Scans

variable {m next last : Mode} {s t : Text} {tokens more : List Token}

theorem append (first : Scans m s tokens next) (second : Scans next t more last) :
    Scans m (s ++ t) (tokens ++ more) last := by
  rw [Scans, Transducer.run_append, first, second]

end Scans

/-- A fixed piece is scanned by computation. -/
theorem scans_text {m next : Mode} {cs : Text} {tokens : List Token}
    (read : scanner.run m cs = (tokens, next)) :
    Scans m (text (String.ofList cs)) tokens next :=
  text_eval read

/-! ### String literals -/

/-- Text with every occurrence of `q` written twice. -/
def doubled (q : Char) (s : Text) : Text := s.flatMap fun c => if c = q then [q, q] else [c]

@[simp] theorem doubled_nil (q : Char) : doubled q [] = [] := rfl

theorem mem_doubled {q c : Char} {s : Text} : c ∈ doubled q s ↔ c ∈ s := by
  simp only [doubled, List.mem_flatMap]
  constructor
  · rintro ⟨d, member, inside⟩
    by_cases same : d = q
    · simp only [same, ↓reduceIte, List.mem_cons, List.not_mem_nil, or_false, or_self] at inside
      rwa [inside, ← same]
    · simp only [same, ↓reduceIte, List.mem_singleton] at inside
      rwa [inside]
  · intro member
    exact ⟨c, member, by by_cases same : c = q <;> simp [same]⟩

/-- Doubling changes nothing where there is nothing to double. -/
theorem doubled_of_not_mem {q : Char} {s : Text} (absent : q ∉ s) : doubled q s = s := by
  induction s with
  | nil => rfl
  | cons c s ih =>
    obtain ⟨head, tail⟩ := not_or.mp (mt List.mem_cons.mpr absent)
    have rest : List.flatMap (fun c => if c = q then [q, q] else [c]) s = s := ih tail
    rw [doubled, List.flatMap_cons, if_neg (Ne.symm head), rest]
    rfl

/-- A NUL cuts doubled text where it cuts the text itself. -/
theorem c_str_doubled {q : Char} (visible : q ≠ nul) (s : Text) :
    cStr (doubled q s) = doubled q (cStr s) := by
  induction s with
  | nil => rfl
  | cons c s ih =>
    simp only [doubled, List.flatMap_cons] at ih ⊢
    by_cases stop : c = nul
    · simp [stop, visible.symm, cStr]
    · by_cases same : c = q <;> simp [same, stop, visible, cStr, ih]

/-- Inside quotes, doubled text is read back as it was before doubling. -/
theorem scans_doubled (q : Char) (held s : Text) :
    Scans (.quoted q held) (doubled q s) [] (.quoted q (held ++ s)) := by
  refine Transducer.run_encoded (Mode.quoted q) _ (fun more c _ => ?_) held
  by_cases same : c = q
  · subst same
    simp
  · simp [same]

/-- A quote that is not followed by another one closes the literal. -/
theorem scans_close {s : Text} {c : Char} {cs : Text} {tokens : List Token} {next : Mode}
    (read : scanner.run .start (c :: cs) = (tokens, next)) (apart : (c == quote) = false) :
    Scans (.quoted quote s) (text (String.ofList (quote :: c :: cs))) (.string s :: tokens) next := by
  have other : c ≠ quote := beq_eq_false_iff_ne.mp apart
  apply scans_text
  simp only [Transducer.run, scanner, step, Prod.mk.injEq] at read ⊢
  simp [other, emit, quotedToken, read]

/-! ### Bracketed identifiers -/

/-- A quote, a text with its quotes doubled and a quote are one string literal,
which stands for the text, whatever follows that is no quote. -/
theorem lex_literal (s : Text) {rest : Text} (apart : rest.head? ≠ some quote) :
    lex (quote :: (doubled quote s ++ quote :: rest)) = .string s :: lex rest := by
  have opening : Scans .start [quote] [] (.quoted quote []) := rfl
  have closing : Scans (.quoted quote s) [quote] [] (.quotedEnd quote s) := by
    simp [Scans]
  have whole : Scans .start ([quote] ++ (doubled quote s ++ [quote])) [] (.quotedEnd quote s) :=
    opening.append ((scans_doubled quote [] s).append closing)
  have shape : quote :: (doubled quote s ++ quote :: rest) =
      ([quote] ++ (doubled quote s ++ [quote])) ++ rest := by simp
  rw [shape, lex, Transducer.output_append, whole, List.nil_append]
  cases rest with
  | nil => rfl
  | cons c rest =>
    have other : c ≠ quote := fun same => apart (congrArg some same)
    simp [lex, Transducer.output, emit, other, quotedToken]

/-- Without a closing bracket the name goes on. -/
theorem scans_bracket (held : Text) {n : Text} (unclosed : ']' ∉ n) :
    Scans (.bracket held) n [] (.bracket (held ++ n)) := by
  refine Transducer.run_gather Mode.bracket (fun more c member => ?_) held
  have different : c ≠ ']' := fun same => unclosed (same ▸ member)
  simp [different]

/-- The closing bracket, at the beginning of a fixed piece. -/
theorem scans_bracket_close {n cs : Text} {tokens : List Token} {next : Mode}
    (read : scanner.run .start cs = (tokens, next)) :
    Scans (.bracket n) (text (String.ofList (']' :: cs))) (.quotedId n :: tokens) next := by
  apply scans_text
  simp at read ⊢
  simp [read]

/-- The first closing bracket ends the identifier, wherever it stands in the name. -/
theorem lex_bracket_closed {s : Text} {tokens : List Token}
    (read : Scans .start s tokens (.bracket [])) {n : Text} (closed : ']' ∈ n) (rest : Text) :
    ∃ before after, n = before ++ ']' :: after ∧
      lex (s ++ (n ++ rest)) = tokens ++ .quotedId before :: lex (after ++ rest) := by
  obtain ⟨before, after, shape, first⟩ := List.eq_append_cons_of_mem closed
  refine ⟨before, after, shape, ?_⟩
  have head := read.append (scans_bracket [] first)
  have whole : s ++ (n ++ rest) = (s ++ before) ++ ']' :: (after ++ rest) := by simp [shape]
  rw [whole, lex, Transducer.output_append, head]
  simp [Transducer.output, lex]

/-! ### Numbers -/

/-- The digits of a printed integer. -/
def digits (i : Int) : Text := Nat.toDigits 10 i.natAbs

/-- The token before the digits of a printed integer. -/
def signTokens : Int → List Token
  | .ofNat _ => []
  | .negSucc _ => [.sym .minus]

theorem is_digit_of_mem_digits {i : Int} {c : Char} (member : c ∈ digits i) : c.isDigit :=
  Nat.isDigit_of_mem_toDigits (by omega) (by omega) member

/-- A printed integer has digits and a sign. -/
theorem not_mem_decimal {c : Char} (other : c.isDigit = false) (sign : c ≠ '-') (i : Int) : c ∉ decimal i := by
  have clean (n : Nat) : c ∉ Nat.toDigits 10 n := fun member =>
    absurd (Nat.isDigit_of_mem_toDigits (b := 10) (n := n) (by omega) (by omega) member) (by simp [other])
  cases i with
  | ofNat n => exact clean n
  | negSucc n => simpa [decimal, sign] using clean (n + 1)

theorem nul_not_mem_decimal (i : Int) : nul ∉ decimal i := not_mem_decimal (by decide) (by decide) i

private theorem enter_digit {d : Char} (digit : d.isDigit) : enter d = ([], .digits [d]) := by
  simp only [Char.isDigit, Bool.and_eq_true, decide_eq_true_eq, ge_iff_le,
    UInt32.le_iff_toNat_le] at digit
  have low : 48 ≤ d.toNat := digit.1
  have high : d.toNat ≤ 57 := digit.2
  have same : d = Char.ofNat d.toNat := (Char.ofNat_toNat d).symm
  interval_cases d.toNat <;> subst same <;> decide

theorem scans_digits (held : Text) {ds : Text} (all : ∀ c ∈ ds, c.isDigit) :
    Scans (.digits held) ds [] (.digits (held ++ ds)) := by
  refine Transducer.run_gather Mode.digits (fun more c member => ?_) held
  simp [all c member]

/-- A mode that a number ends: what is pending is emitted, and the number begins. -/
def OpensNumber (m : Mode) : Prop :=
  step m '-' = emit (finish m) '-' ∧ ∀ d : Char, d.isDigit → step m d = emit (finish m) d

theorem start_opens_number : OpensNumber .start := ⟨rfl, fun _ _ => rfl⟩

theorem equals_opens_number : OpensNumber .equals := by
  refine ⟨by decide, fun d digit => ?_⟩
  have different : d ≠ '=' := by rintro rfl; revert digit; decide
  simp [different, finish]

/-- A natural number, printed after a mode it ends. -/
theorem scans_nat {m : Mode} (reads : ∀ d : Char, d.isDigit → step m d = emit (finish m) d) (n : Nat) :
    Scans m (Nat.toDigits 10 n) (finish m) (.digits (Nat.toDigits 10 n)) := by
  cases shape : Nat.toDigits 10 n with
  | nil => exact absurd shape Nat.toDigits_ne_nil
  | cons d ds =>
    have all : ∀ c ∈ d :: ds, c.isDigit := fun c member =>
      Nat.isDigit_of_mem_toDigits (b := 10) (n := n) (by omega) (by omega) (shape ▸ member)
    have first := all d List.mem_cons_self
    have rest := scans_digits [d] fun c member => all c (List.mem_cons_of_mem _ member)
    simp only [Scans, Transducer.run] at rest ⊢
    simp [-step, reads d first, emit, enter_digit first] at rest ⊢
    simp [rest]

/-- The same with a minus before it. -/
theorem scans_minus_nat {m : Mode} (opens : OpensNumber m) (n : Nat) :
    Scans m ('-' :: Nat.toDigits 10 n) (finish m ++ [.sym .minus]) (.digits (Nat.toDigits 10 n)) := by
  have sign : Scans m ['-'] (finish m) .minus := by
    simp [-step, Scans, opens.1, emit, enter, isSpace, isIdStart, quote, doubleQuote, backtick]
  have after : Scans .minus (Nat.toDigits 10 n) [.sym .minus] (.digits (Nat.toDigits 10 n)) := by
    refine scans_nat (fun d digit => ?_) n
    have notDash : d ≠ '-' := by rintro rfl; revert digit; decide
    have notAngle : d ≠ '>' := by rintro rfl; revert digit; decide
    simp [notDash, notAngle, finish]
  exact sign.append after

/-- A printed integer is read as its sign and its digits. -/
theorem scans_decimal {m : Mode} (opens : OpensNumber m) (i : Int) :
    Scans m (decimal i) (finish m ++ signTokens i) (.digits (digits i)) := by
  cases i with
  | ofNat n => simpa [decimal, signTokens, digits] using scans_nat opens.2 n
  | negSucc n => exact scans_minus_nat opens (n + 1)

/-- The places after a decimal point. -/
theorem scans_places (n ds : Text) (all : ∀ c ∈ ds, c.isDigit) :
    Scans (.digits n) ('.' :: ds) [] (.fraction (n ++ '.' :: ds)) := by
  have point : Scans (.digits n) ['.'] [] (.fraction (n ++ ['.'])) := by
    simp [Scans]
  have places : Scans (.fraction (n ++ ['.'])) ds [] (.fraction ((n ++ ['.']) ++ ds)) := by
    refine Transducer.run_gather Mode.fraction (fun more c member => ?_) (n ++ ['.'])
    simp [all c member]
  have both := point.append places
  rwa [List.append_assoc, List.singleton_append] at both

/-- A character that cannot continue a number. -/
def EndsNumber (c : Char) : Prop := c ≠ '.' ∧ isIdChar c = false

instance (c : Char) : Decidable (EndsNumber c) := inferInstanceAs (Decidable (_ ∧ _))

theorem EndsNumber.not_digit {c : Char} (ends : EndsNumber c) : c.isDigit = false := by
  have plain := ends.2
  cases digit : c.isDigit with
  | false => rfl
  | true => simp [isIdChar, Char.isAlphanum, digit] at plain

theorem EndsNumber.not_letter {c d : Char} (ends : EndsNumber c) (letter : d.isAlpha := by decide) :
    c ≠ d := by
  have plain := ends.2
  rintro rfl
  simp [isIdChar, Char.isAlphanum, letter] at plain

/-- The end of a number, at the beginning of a fixed piece. -/
theorem scans_number_end {n : Text} {c : Char} {cs : Text} {tokens : List Token} {next : Mode}
    (read : scanner.run .start (c :: cs) = (tokens, next)) (ends : EndsNumber c) :
    Scans (.digits n) (text (String.ofList (c :: cs))) (.number n :: tokens) next := by
  apply scans_text
  simp only [Transducer.run, scanner, step, Prod.mk.injEq] at read ⊢
  simp [endNumber, emit, ends.not_digit, ends.2, ends.1, ends.not_letter (d := 'e'),
    ends.not_letter (d := 'E'), ends.not_letter (d := 'x'), ends.not_letter (d := 'X'), read]

/-- The same after decimal places. -/
theorem scans_fraction_end {n : Text} {c : Char} {cs : Text} {tokens : List Token} {next : Mode}
    (read : scanner.run .start (c :: cs) = (tokens, next)) (ends : EndsNumber c) :
    Scans (.fraction n) (text (String.ofList (c :: cs))) (.number n :: tokens) next := by
  apply scans_text
  simp only [Transducer.run, scanner, step, Prod.mk.injEq] at read ⊢
  simp [endNumber, emit, ends.not_digit, ends.2, ends.not_letter (d := 'e'),
    ends.not_letter (d := 'E'), read]

/-! ### Texts that hold literals -/

/-- From mode `m` the text is read as `tokens`, or, where it holds a NUL, is cut inside a literal
of its only statement. -/
structure Reads (m : Mode) (q : Text) (tokens : List Token) : Prop where
  whole : nul ∉ q → scanner.output m q = tokens
  cut : nul ∈ q → ∃ before, scanner.output m (cStr q) = before ++ [.illegal] ∧ .sym .semi ∉ before

namespace Reads

variable {m : Mode} {s q a : Text} {before tokens : List Token}

/-- The last fixed piece. -/
theorem close {next : Mode} (read : Scans m s before next) (clean : nul ∉ s) :
    Reads m s (before ++ finish next) where
  whole := fun _ => by rw [Transducer.output, read]; rfl
  cut := fun cut => absurd cut clean

/-- A fixed piece and what follows. -/
theorem fixed {next : Mode} (read : Scans m s before next) (clean : nul ∉ s)
    (single : .sym .semi ∉ before) (rest : Reads next q tokens) : Reads m (s ++ q) (before ++ tokens) where
  whole := fun all => by
    rw [Transducer.output_append, read]
    simpa using rest.whole fun cut => all (List.mem_append_right _ cut)
  cut := fun cut => by
    obtain ⟨early, output, inner⟩ := rest.cut ((List.mem_append.mp cut).resolve_left clean)
    rw [c_str_append clean, Transducer.output_append, read]
    exact ⟨before ++ early, by simp [-scanner, output], by simp [single, inner]⟩

/-- A fixed piece that opens a literal, an escaped argument, and what follows. -/
theorem literal (read : Scans m s before (.quoted quote [])) (clean : nul ∉ s)
    (single : .sym .semi ∉ before) (rest : Reads (.quoted quote a) q tokens) :
    Reads m (s ++ (doubled quote a ++ q)) (before ++ tokens) where
  whole := fun all => by
    have opened := read.append (scans_doubled quote [] a)
    have after := rest.whole fun cut => all (by simp [cut])
    rw [← List.append_assoc, Transducer.output_append, opened]
    simpa using after
  cut := fun cut => by
    rw [c_str_append clean]
    by_cases inside : nul ∈ a
    · have opened := read.append (scans_doubled quote [] (cStr a))
      rw [c_str_append_of_nul (mem_doubled.mpr inside), c_str_doubled (by decide), Transducer.output,
        opened]
      exact ⟨before, by simp [scanner, finish], single⟩
    · have later : nul ∈ q := by simpa [clean, inside, mem_doubled] using cut
      obtain ⟨early, output, inner⟩ := rest.cut later
      have opened := read.append (scans_doubled quote [] a)
      rw [c_str_append (mt mem_doubled.mp inside), ← List.append_assoc, Transducer.output_append, opened]
      refine ⟨before ++ early, ?_, by simp [single, inner]⟩
      simpa using output

/-- A fixed piece that opens a bracket, a name without a closing bracket, and what follows. -/
theorem bracket {name : Text} (read : Scans m s before (.bracket [])) (clean : nul ∉ s)
    (single : .sym .semi ∉ before) (unclosed : ']' ∉ name) (rest : Reads (.bracket name) q tokens) :
    Reads m (s ++ (name ++ q)) (before ++ tokens) where
  whole := fun all => by
    have opened := read.append (scans_bracket [] unclosed)
    rw [← List.append_assoc, Transducer.output_append, opened]
    simpa using rest.whole fun cut => all (by simp [cut])
  cut := fun cut => by
    rw [c_str_append clean]
    by_cases inside : nul ∈ name
    · have shorter : ']' ∉ cStr name := fun member => unclosed (mem_of_mem_c_str member)
      have opened := read.append (scans_bracket [] shorter)
      rw [c_str_append_of_nul inside, Transducer.output, opened]
      exact ⟨before, by simp [scanner, finish], single⟩
    · have later : nul ∈ q := by simpa [clean, inside] using cut
      obtain ⟨early, output, inner⟩ := rest.cut later
      have opened := read.append (scans_bracket [] unclosed)
      rw [c_str_append inside, ← List.append_assoc, Transducer.output_append, opened]
      exact ⟨before ++ early, by simpa using output, by simp [single, inner]⟩

end Reads

end Sws.Sql
