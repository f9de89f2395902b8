import Mathlib.Dynamics.PeriodicPts.Defs
import Mathlib.Data.List.Rotate

/-! Lists read in a circle: the index after the last is the first. An element says where it stands only
if it stands there once; but what comes after it may be the same wherever it stands, and then the list
is one list of distinct elements, over and over. -/
namespace Sws.Cyclic

open Function

/-- The index after this one in a circle of `n`. -/
def after (n i : Nat) : Nat := if i + 1 = n then 0 else i + 1

/-- The index before this one in a circle of `n`. -/
def before (n i : Nat) : Nat := if i = 0 then n - 1 else i - 1

section Indices

variable {n i : Nat}

theorem after_eq (inside : i < n) : after n i = (i + 1) % n := by
  unfold after
  split_ifs with last
  · rw [last, Nat.mod_self]
  · rw [Nat.mod_eq_of_lt (by omega)]

theorem before_eq (inside : i < n) : before n i = (i + (n - 1)) % n := by
  unfold before
  split_ifs with first
  · rw [first, Nat.zero_add, Nat.mod_eq_of_lt (by omega)]
  · have around : i + (n - 1) = i - 1 + n := by omega
    rw [around, Nat.add_mod_right, Nat.mod_eq_of_lt (by omega)]

theorem after_lt (inside : i < n) : after n i < n := by
  rw [after_eq inside]
  exact Nat.mod_lt _ (Nat.zero_lt_of_lt inside)

theorem before_lt (inside : i < n) : before n i < n := by
  rw [before_eq inside]
  exact Nat.mod_lt _ (Nat.zero_lt_of_lt inside)

end Indices

variable {α : Type*}

/-- The same elements stand before and after two indices. -/
def SameNeighbours (l : List α) (i j : Nat) : Prop :=
  l[after l.length i]? = l[after l.length j]? ∧ l[before l.length i]? = l[before l.length j]?

instance [DecidableEq α] (l : List α) (i j : Nat) : Decidable (SameNeighbours l i j) :=
  inferInstanceAs (Decidable (_ ∧ _))

section Blocks

variable {l block : List α} {k : Nat}

/-- A list that is one list over and over, by indices. -/
theorem getElem?_flatten_replicate {i : Nat} (inside : i < k * block.length) :
    (List.replicate k block).flatten[i]? = block[i % block.length]? := by
  induction k generalizing i with
  | zero =>
    rw [Nat.zero_mul] at inside
    cases inside
  | succ k ih =>
    rw [List.replicate_succ, List.flatten_cons]
    by_cases first : i < block.length
    · rw [List.getElem?_append_left first, Nat.mod_eq_of_lt first]
    · have rest : i - block.length < k * block.length := by
        rw [Nat.succ_mul] at inside
        omega
      rw [List.getElem?_append_right (not_lt.mp first), ih rest, ← Nat.mod_eq_sub_mod (not_lt.mp first)]

theorem length_flatten_replicate : (List.replicate k block).flatten.length = k * block.length := by
  simp

/-- The orbit of a point as far as a multiple of its period. -/
theorem map_iterate_eq_flatten (f : α → α) (x : α) (k : Nat) :
    (List.range (k * minimalPeriod f x)).map (f^[·] x) =
      (List.replicate k ((List.range (minimalPeriod f x)).map (f^[·] x))).flatten := by
  induction k with
  | zero => simp
  | succ k ih =>
    have again : ((f^[·] x) ∘ fun i => minimalPeriod f x + i) = (f^[·] x) := by
      funext i
      simp [Nat.add_comm, iterate_add_apply]
    rw [Nat.succ_mul, Nat.add_comm, List.range_add, List.map_append, List.map_map, again, ih,
      List.replicate_succ, List.flatten_cons]

theorem nodup_orbit (f : α → α) (x : α) : ((List.range (minimalPeriod f x)).map (f^[·] x)).Nodup := by
  refine List.Nodup.map_on (fun i first j second same => ?_) List.nodup_range
  exact (iterate_eq_iterate_iff_of_lt_minimalPeriod (List.mem_range.mp first) (List.mem_range.mp second)).mp
    same

/-- A list in which each element has the next one as its image, the last one the first, is an orbit. -/
theorem repeated_of_iterates {f : α → α} {x : α} (head : l[0]? = some x)
    (images : ∀ i y, l[i]? = some y → l[after l.length i]? = some (f y)) :
    ∃ block k, block.Nodup ∧ l = (List.replicate k block).flatten := by
  have inside : 0 < l.length := (List.getElem?_eq_some_iff.mp head).1
  have orbit : ∀ i, i < l.length → l[i]? = some (f^[i] x) := by
    intro i
    induction i with
    | zero => exact fun _ => head
    | succ i ih =>
      intro small
      have next := images i _ (ih (by omega))
      rwa [after, if_neg (by omega), ← iterate_succ_apply' f] at next
  have closed : IsPeriodicPt f l.length x := by
    obtain ⟨n, length⟩ := Nat.exists_eq_succ_of_ne_zero (Nat.ne_of_gt inside)
    have last := images n _ (orbit n (by omega))
    rw [after, if_pos (by omega), head, ← iterate_succ_apply' f, ← length] at last
    exact (Option.some.inj last).symm
  obtain ⟨k, times⟩ := closed.minimalPeriod_dvd
  refine ⟨_, k, nodup_orbit f x, ?_⟩
  rw [← map_iterate_eq_flatten, Nat.mul_comm, ← times]
  apply List.ext_getElem?
  intro i
  by_cases small : i < l.length
  · rw [orbit i small, List.getElem?_map, List.getElem?_range small]
    rfl
  · rw [List.getElem?_eq_none (not_lt.mp small), List.getElem?_eq_none (by simpa using not_lt.mp small)]

/-- In such a list an index has the neighbours of its place in the block. -/
theorem same_neighbours_mod {i : Nat} (inside : i < k * block.length) :
    SameNeighbours (List.replicate k block).flatten (i % block.length) i := by
  have place : i % block.length < k * block.length := lt_of_le_of_lt (Nat.mod_le _ _) inside
  have step (c j : Nat) (within : j < k * block.length) :
      (List.replicate k block).flatten[(j + c) % (k * block.length)]? = block[(j + c) % block.length]? := by
    rw [getElem?_flatten_replicate (Nat.mod_lt _ (Nat.zero_lt_of_lt within)),
      Nat.mod_mod_of_dvd _ (Nat.dvd_mul_left _ _)]
  constructor
  · rw [length_flatten_replicate, after_eq inside, after_eq place, step _ _ inside, step _ _ place,
      Nat.mod_add_mod]
  · rw [length_flatten_replicate, before_eq inside, before_eq place, step _ _ inside, step _ _ place,
      Nat.mod_add_mod]

variable [BEq α] [LawfulBEq α]

/-- There an element stands first at its place in the block. -/
theorem idxOf_flatten_replicate {i : Nat} {x : α} (distinct : block.Nodup) (some_ : 0 < k)
    (at_ : block[i]? = some x) : (List.replicate k block).flatten.idxOf x = i := by
  obtain ⟨n, rfl⟩ := Nat.exists_eq_succ_of_ne_zero (Nat.ne_of_gt some_)
  obtain ⟨inside, rfl⟩ := List.getElem?_eq_some_iff.mp at_
  rw [List.replicate_succ, List.flatten_cons, List.idxOf_append_of_mem (List.getElem_mem inside),
    distinct.idxOf_getElem]

/-- **Neighbours.** In a list that is not empty every element has the neighbours that it has where it
stands first, exactly when the list is one list of distinct elements, over and over. -/
theorem same_neighbours_iff_repeated (some_ : l ≠ []) :
    (∀ i x, l[i]? = some x → SameNeighbours l (l.idxOf x) i) ↔
      ∃ block k, block.Nodup ∧ l = (List.replicate k block).flatten := by
  constructor
  · intro all
    obtain ⟨x, rest, rfl⟩ := List.exists_cons_of_ne_nil some_
    let l := x :: rest
    refine repeated_of_iterates (f := fun y => (l[after l.length (l.idxOf y)]?).getD y) rfl ?_
    intro i y at_
    have next := List.getElem?_eq_getElem (after_lt (List.getElem?_eq_some_iff.mp at_).1)
    rw [(all i y at_).1, next]
    rfl
  · rintro ⟨block, k, distinct, rfl⟩ i x at_
    have inside : i < k * block.length :=
      length_flatten_replicate ▸ (List.getElem?_eq_some_iff.mp at_).1
    have positive : 0 < block.length := Nat.pos_of_mul_pos_left (Nat.zero_lt_of_lt inside)
    have small : i % block.length < block.length := Nat.mod_lt _ positive
    rw [getElem?_flatten_replicate inside] at at_
    rw [idxOf_flatten_replicate distinct (Nat.pos_of_mul_pos_right (Nat.zero_lt_of_lt inside)) at_]
    exact same_neighbours_mod inside

end Blocks

end Sws.Cyclic
