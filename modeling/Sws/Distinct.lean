import Mathlib.Data.List.Nodup

/-! Lists that grow at the end by elements with a new key. Elements whose key is there already are
passed over, so the keys stay distinct and going over the same elements again adds nothing. -/
namespace Sws.Distinct

variable {α κ : Type*} [DecidableEq κ] (key : α → κ)

def extend (acc : List α) (x : α) : List α := if key x ∈ acc.map key then acc else acc ++ [x]

/-- The elements that are added, in order. -/
def added : List α → List α → List α
  | _, [] => []
  | acc, x :: rest => if key x ∈ acc.map key then added acc rest else x :: added (acc ++ [x]) rest

variable {key} {acc xs : List α} {x : α}

theorem foldl_eq_append (acc xs : List α) : xs.foldl (extend key) acc = acc ++ added key acc xs := by
  induction xs generalizing acc with
  | nil => rw [List.foldl_nil, added, List.append_nil]
  | cons x xs ih =>
    rw [List.foldl_cons, ih, extend, added]
    split_ifs with held
    · rfl
    · rw [List.append_assoc, List.singleton_append]

theorem nodup_extend (nodup : (acc.map key).Nodup) : ((extend key acc x).map key).Nodup := by
  unfold extend
  split_ifs with held
  · exact nodup
  · rw [List.map_append, List.map_singleton]
    apply List.nodup_append.mpr
    refine ⟨nodup, List.nodup_singleton _, fun k there l single same => held ?_⟩
    rwa [← List.mem_singleton.mp single, ← same]

theorem nodup_foldl (nodup : (acc.map key).Nodup) : ((xs.foldl (extend key) acc).map key).Nodup := by
  induction xs generalizing acc with
  | nil => exact nodup
  | cons x xs ih => exact ih (nodup_extend nodup)

theorem mem_extend {k : κ} : k ∈ (extend key acc x).map key ↔ k ∈ acc.map key ∨ k = key x := by
  unfold extend
  split_ifs with held
  · refine (or_iff_left_of_imp ?_).symm
    rintro rfl
    exact held
  · rw [List.map_append, List.map_singleton, List.mem_append, List.mem_singleton]

theorem mem_foldl {k : κ} :
    k ∈ (xs.foldl (extend key) acc).map key ↔ k ∈ acc.map key ∨ k ∈ xs.map key := by
  induction xs generalizing acc with
  | nil => simp
  | cons x xs ih => rw [List.foldl_cons, ih, mem_extend, List.map_cons, List.mem_cons, or_assoc]

theorem added_of_held (held : ∀ x ∈ xs, key x ∈ acc.map key) : added key acc xs = [] := by
  induction xs with
  | nil => rfl
  | cons x xs ih =>
    obtain ⟨first, others⟩ := List.forall_mem_cons.mp held
    rw [added, if_pos first, ih others]

/-- Going over the same elements again adds nothing. -/
theorem added_again (acc xs : List α) : added key (xs.foldl (extend key) acc) xs = [] :=
  added_of_held fun _ member => mem_foldl.mpr (.inr (List.mem_map_of_mem member))

/-- Elements with keys of their own are added unless the list held their key from the start. -/
theorem added_eq_filter (once : (xs.map key).Nodup) :
    added key acc xs = xs.filter fun x => key x ∉ acc.map key := by
  induction xs generalizing acc with
  | nil => rfl
  | cons x xs ih =>
    obtain ⟨new, others⟩ := List.nodup_cons.mp (List.map_cons ▸ once)
    rw [added]
    by_cases held : key x ∈ acc.map key
    · rw [if_pos held, ih others, List.filter_cons_of_neg (by simpa using held)]
    · have same : ∀ y ∈ xs, (key y ∉ (acc ++ [x]).map key) ↔ key y ∉ acc.map key := by
        intro y member
        have other : key y ≠ key x := fun same => new (same ▸ List.mem_map_of_mem member)
        rw [List.map_append, List.map_singleton, List.mem_append, List.mem_singleton, or_iff_left other]
      have filtered : xs.filter (fun y => key y ∉ (acc ++ [x]).map key) =
          xs.filter fun y => key y ∉ acc.map key :=
        List.filter_congr fun y member => decide_eq_decide.mpr (same y member)
      rw [if_neg held, ih others, List.filter_cons_of_pos (by simpa using held), filtered]

end Sws.Distinct
