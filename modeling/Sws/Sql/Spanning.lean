import Sws.Sql.Provenance

/-! An argument that stands twice in a text, each time between quotes but as it is. A literal of the text
with at least as many quotes as the argument runs over both copies: then it is longer than the argument,
or all there is between the first quote and the last. -/
namespace Sws.Sql

/-- The characters that are no quotes. -/
def others (s : Text) : Nat := s.countP (· ≠ quote)

@[simp] theorem others_nil : others [] = 0 := rfl

@[simp] theorem others_append (s t : Text) : others (s ++ t) = others s + others t := List.countP_append

@[simp] theorem others_quote (s : Text) : others (quote :: s) = others s := by simp [others]

theorem others_cons {c : Char} (other : c ≠ quote) (s : Text) : others (c :: s) = others s + 1 := by
  simp [others, other]

@[simp] theorem count_doubled (s : Text) : (doubled quote s).count quote = 2 * s.count quote := by
  induction s with
  | nil => rfl
  | cons c s ih =>
    have rest : doubled quote (c :: s) = (if c = quote then [quote, quote] else [c]) ++ doubled quote s := rfl
    rw [rest, List.count_append, ih]
    by_cases same : c = quote
    · simp [same]
      omega
    · simp [same]

@[simp] theorem others_doubled (s : Text) : others (doubled quote s) = others s := by
  induction s with
  | nil => rfl
  | cons c s ih =>
    have rest : doubled quote (c :: s) = (if c = quote then [quote, quote] else [c]) ++ doubled quote s := rfl
    rw [rest, others_append, ih]
    by_cases same : c = quote
    · simp [same]
    · rw [if_neg same, others_cons same, others_cons same]
      simp only [others_nil]
      omega

theorem length_eq (s : Text) : s.length = s.count quote + others s := by
  have split := List.length_eq_countP_add_countP (· == quote) (l := s)
  rw [split, List.count, others]
  simp

section Spans

variable {whole u v head a m tail before after : Text}

/-- Of two beginnings, the one with fewer quotes is the shorter. -/
theorem others_of_prefix (first : u <+: whole) (second : v <+: whole) (fewer : u.count quote < v.count quote) :
    others u ≤ others v := by
  rcases List.prefix_or_prefix_of_prefix first second with within | within
  · exact within.sublist.countP_le
  · have more := within.sublist.count_le quote
    omega

theorem others_of_suffix (first : u <:+ whole) (second : v <:+ whole) (fewer : u.count quote < v.count quote) :
    others u ≤ others v := by
  rcases List.suffix_or_suffix_of_suffix first second with within | within
  · exact within.sublist.countP_le
  · have more := within.sublist.count_le quote
    omega

/-- The text around two copies of an argument. -/
def twice (head a tail : Text) : Text :=
  head ++ quote :: (a ++ quote :: ',' :: ' ' :: quote :: (a ++ quote :: tail))

theorem count_twice (first : quote ∉ head) (last : quote ∉ tail) :
    (twice head a tail).count quote = 2 * a.count quote + 4 := by
  have none := List.count_eq_zero.mpr first
  have none' := List.count_eq_zero.mpr last
  have comma : (',' == quote) = false := by decide
  have space : (' ' == quote) = false := by decide
  simp only [twice, List.count_append, List.count_cons, none, none', comma, space, BEq.rfl, ↓reduceIte,
    Bool.false_eq_true]
  omega

theorem others_twice : others (twice head a tail) = others head + 2 * others a + others tail + 2 := by
  have comma (s : Text) : others (',' :: s) = others s + 1 := others_cons (by decide) s
  have space (s : Text) : others (' ' :: s) = others s + 1 := others_cons (by decide) s
  simp only [twice, others_append, others_quote, comma, space]
  omega

/-- **A literal over both copies.** One with as many quotes as the argument is longer. -/
theorem length_lt_of_spans (first : quote ∉ head) (last : quote ∉ tail)
    (spans : twice head a tail = before ++ quote :: (doubled quote m ++ quote :: after))
    (as_many : a.count quote = m.count quote) (some_ : quote ∈ m) : a.length < m.length := by
  have quotes := congrArg (List.count quote) spans
  have rest := congrArg others spans
  rw [count_twice first last] at quotes
  rw [others_twice] at rest
  simp only [List.count_append, List.count_cons_self, count_doubled] at quotes
  simp only [others_append, others_quote, others_doubled] at rest
  have positive : 0 < m.count quote := List.count_pos_iff.mpr some_
  have none := List.count_eq_zero.mpr first
  have none' := List.count_eq_zero.mpr last
  have early : before <+: twice head a tail := ⟨_, spans.symm⟩
  have late : after <:+ twice head a tail := by
    rw [spans]
    exact ⟨before ++ quote :: (doubled quote m ++ [quote]), by simp⟩
  rw [length_eq a, length_eq m, as_many]
  by_contra short
  -- Two quotes are left outside the literal: both after it, both before it, or one on each side.
  obtain sides | sides | sides : before.count quote = 0 ∨ before.count quote = 1 ∨ before.count quote = 2 := by
    omega
  · have left := others_of_prefix early (v := head ++ [quote]) ⟨_, by simp [twice]; rfl⟩
      (by simp [none, sides])
    have right := others_of_suffix late (v := quote :: (a ++ quote :: tail))
      ⟨head ++ quote :: (a ++ [quote, ',', ' ']), by simp [twice]⟩ (by simp [none']; omega)
    simp only [others_append, others_quote, others_nil] at left right
    omega
  · obtain ⟨x, y, rfl, without⟩ := List.eq_append_cons_of_mem (List.count_pos_iff.mp (as_many ▸ positive))
    have none'' := List.count_eq_zero.mpr without
    simp only [List.count_append, List.count_cons_self, none''] at as_many quotes
    have left := others_of_prefix early (v := head ++ quote :: (x ++ [quote])) ⟨_, by simp [twice]; rfl⟩
      (by simp [none, none'', sides])
    have right := others_of_suffix late (v := quote :: (y ++ quote :: tail))
      ⟨head ++ quote :: (x ++ quote :: (y ++ quote :: ',' :: ' ' :: quote :: x)), by simp [twice]⟩
      (by simp [none']; omega)
    simp only [others_append, others_quote, others_nil] at left right rest short
    omega
  · have left := others_of_prefix early (v := head ++ quote :: (a ++ [quote])) ⟨_, by simp [twice]; rfl⟩
      (by simp [none]; omega)
    have right := others_of_suffix late (v := quote :: tail)
      ⟨head ++ quote :: (a ++ quote :: ',' :: ' ' :: quote :: a), by simp [twice]⟩ (by simp [none']; omega)
    simp only [others_append, others_quote, others_nil] at left right
    omega

/-- What stands before the first quote of a text is fixed by the text. -/
theorem eq_of_first_quote (first : quote ∉ u) (second : quote ∉ v) (left : u ++ [quote] <+: whole)
    (right : v ++ [quote] <+: whole) : u = v := by
  have shorter {u v : Text} (clean : quote ∉ v) (within : u ++ [quote] <+: v ++ [quote]) : u = v := by
    rcases List.prefix_concat_iff.mp within with same | inner
    · exact List.append_cancel_right same
    · exact absurd (inner.subset (by simp)) clean
  rcases List.prefix_or_prefix_of_prefix left right with within | within
  · exact shorter second within
  · exact (shorter first within).symm

/-- What stands after the last quote of a text is fixed by the text. -/
theorem eq_of_last_quote (first : quote ∉ u) (second : quote ∉ v) (left : quote :: u <:+ whole)
    (right : quote :: v <:+ whole) : u = v := by
  have shorter {u v : Text} (clean : quote ∉ v) (within : quote :: u <:+ quote :: v) : u = v := by
    rcases List.suffix_cons_iff.mp within with same | inner
    · exact (List.cons.inj same).2
    · exact absurd (inner.subset List.mem_cons_self) clean
  rcases List.suffix_or_suffix_of_suffix left right with within | within
  · exact shorter second within
  · exact (shorter first within).symm

/-- One with more quotes is all there is between the first quote and the last. -/
theorem bounds_of_spans (first : quote ∉ head) (last : quote ∉ tail)
    (spans : twice head a tail = before ++ quote :: (doubled quote m ++ quote :: after))
    (more : a.count quote < m.count quote) : before = head ∧ after = tail := by
  have quotes := congrArg (List.count quote) spans
  rw [count_twice first last] at quotes
  simp only [List.count_append, List.count_cons_self, count_doubled] at quotes
  have early : quote ∉ before := List.count_eq_zero.mp (by omega)
  have late : quote ∉ after := List.count_eq_zero.mp (by omega)
  have left : before ++ [quote] <+: twice head a tail := ⟨_, by rw [spans]; simp; rfl⟩
  have left' : head ++ [quote] <+: twice head a tail := ⟨_, by simp [twice]; rfl⟩
  have right : quote :: after <:+ twice head a tail := by
    rw [spans]
    exact ⟨before ++ quote :: doubled quote m, by simp⟩
  have right' : quote :: tail <:+ twice head a tail :=
    ⟨head ++ quote :: (a ++ quote :: ',' :: ' ' :: quote :: a), by simp [twice]⟩
  exact ⟨eq_of_first_quote early first left left', eq_of_last_quote late last right right'⟩

end Spans

end Sws.Sql
