import Mathlib.Data.List.Basic
import Mathlib.Logic.Relation

/-! Systems given by a step function: an action either changes the state or is not enabled. A run
is a list of actions, so a schedule is data: an invariant speaks of every list, and a failing
schedule is one list, checked by evaluation. -/
namespace Sws

/-- A system with states `σ` and actions `α`; `none` is an action that is not enabled. -/
abbrev Steps (σ α : Type*) := σ → α → Option σ

namespace Steps

variable {σ α : Type*} (step : Steps σ α)

/-- The state after a schedule, if every action of it was enabled. -/
def run : σ → List α → Option σ
  | s, [] => some s
  | s, a :: rest => (step s a).bind fun t => run t rest

/-- Every action of the schedule meets a condition in the state it is taken in. -/
def Along (allowed : σ → α → Prop) : σ → List α → Prop
  | _, [] => True
  | s, a :: rest => allowed s a ∧ (step s a).elim True fun t => Along allowed t rest

/-- Some schedule of actions of one kind leads from `s` to `t`. -/
def Reaches (among : α → Prop) (s t : σ) : Prop :=
  ∃ actions, (∀ a ∈ actions, among a) ∧ step.run s actions = some t

variable {step} {s t u : σ} {a : α} {actions more : List α} {among : α → Prop}

theorem run_cons_iff :
    step.run s (a :: actions) = some u ↔ ∃ t, step s a = some t ∧ step.run t actions = some u :=
  Option.bind_eq_some_iff

theorem run_append (first : step.run s actions = some t) (second : step.run t more = some u) :
    step.run s (actions ++ more) = some u := by
  induction actions generalizing s with
  | nil =>
    cases first
    exact second
  | cons a actions ih =>
    obtain ⟨middle, taken, rest⟩ := run_cons_iff.mp first
    exact run_cons_iff.mpr ⟨middle, taken, ih rest⟩

theorem run_append_iff :
    step.run s (actions ++ more) = some u ↔
      ∃ t, step.run s actions = some t ∧ step.run t more = some u := by
  refine ⟨fun reached => ?_, fun ⟨t, first, second⟩ => run_append first second⟩
  induction actions generalizing s with
  | nil => exact ⟨s, rfl, reached⟩
  | cons a actions ih =>
    obtain ⟨middle, taken, rest⟩ := run_cons_iff.mp reached
    obtain ⟨t, first, second⟩ := ih rest
    exact ⟨t, run_cons_iff.mpr ⟨middle, taken, first⟩, second⟩

theorem run_concat : step.run s (actions ++ [a]) = (step.run s actions).bind fun t => step t a := by
  induction actions generalizing s with
  | nil => simp [run]
  | cons b actions ih =>
    rw [List.cons_append, run, run, Option.bind_assoc]
    exact congrArg _ (funext fun _ => ih)

/-! ### Invariants -/

/-- What every allowed action preserves holds after every allowed schedule. -/
theorem preserved_along {Kept : σ → Prop} {allowed : σ → α → Prop}
    (keeps : ∀ s a t, Kept s → allowed s a → step s a = some t → Kept t)
    (along : step.Along allowed s actions) (reached : step.run s actions = some t)
    (held : Kept s) : Kept t := by
  induction actions generalizing s with
  | nil =>
    cases reached
    exact held
  | cons a actions ih =>
    obtain ⟨middle, taken, rest⟩ := run_cons_iff.mp reached
    obtain ⟨allow, onwards⟩ := along
    rw [taken] at onwards
    exact ih onwards rest (keeps s a middle held allow taken)

theorem along_of_forall {allowed : σ → α → Prop} (all : ∀ s, ∀ a ∈ actions, allowed s a) :
    step.Along allowed s actions := by
  induction actions generalizing s with
  | nil => trivial
  | cons a actions ih =>
    refine ⟨all s a List.mem_cons_self, ?_⟩
    cases step s a with
    | none => trivial
    | some t => exact ih fun s b member => all s b (List.mem_cons_of_mem _ member)

/-- What every action preserves holds after every schedule. -/
theorem preserved {Kept : σ → Prop} (keeps : ∀ s a t, Kept s → step s a = some t → Kept t)
    (reached : step.run s actions = some t) (held : Kept s) : Kept t := by
  have along : step.Along (fun _ _ => True) s actions := along_of_forall fun _ _ _ => trivial
  exact preserved_along (fun s a t held _ => keeps s a t held) along reached held

theorem along_cons {allowed : σ → α → Prop} (allow : allowed s a) (taken : step s a = some t)
    (rest : step.Along allowed t actions) : step.Along allowed s (a :: actions) :=
  ⟨allow, by rwa [taken]⟩

theorem along_append {allowed : σ → α → Prop} (first : step.Along allowed s actions)
    (reached : step.run s actions = some t) (second : step.Along allowed t more) :
    step.Along allowed s (actions ++ more) := by
  induction actions generalizing s with
  | nil =>
    cases reached
    exact second
  | cons a actions ih =>
    obtain ⟨middle, taken, rest⟩ := run_cons_iff.mp reached
    obtain ⟨allow, onwards⟩ := first
    rw [taken] at onwards
    exact along_cons allow taken (ih onwards rest)

/-- A condition that follows wherever the run comes holds along it. -/
theorem along_of_kept {Kept : σ → Prop} {allowed allowed' : σ → α → Prop}
    (keeps : ∀ s a t, Kept s → allowed s a → step s a = some t → Kept t)
    (follows : ∀ s a t, Kept s → step s a = some t → allowed' s a)
    (along : step.Along allowed s actions) (reached : step.run s actions = some t) (held : Kept s) :
    step.Along allowed' s actions := by
  induction actions generalizing s with
  | nil => trivial
  | cons a actions ih =>
    obtain ⟨middle, taken, rest⟩ := run_cons_iff.mp reached
    obtain ⟨allow, onwards⟩ := along
    rw [taken] at onwards
    refine ⟨follows s a middle held taken, ?_⟩
    rw [taken]
    exact ih onwards rest (keeps s a middle held allow taken)

/-! ### What the latest step decides -/

variable (step) in
/-- Whether the last action of the schedule that decided something decided it so; `before` where
none did. -/
def Latest (sets clears : σ → α → Prop) : σ → List α → Prop → Prop
  | _, [], before => before
  | s, a :: rest, before =>
    (step s a).elim True fun t => Latest sets clears t rest (¬ clears s a ∧ (sets s a ∨ before))

/-- What each action sets, clears or leaves is after a run as its latest such action left it. -/
theorem latest_iff {Kept Held : σ → Prop} {sets clears : σ → α → Prop}
    (keeps : ∀ s a t, Kept s → step s a = some t → Kept t)
    (decides : ∀ s a t, Kept s → step s a = some t → (Held t ↔ ¬ clears s a ∧ (sets s a ∨ Held s)))
    (reached : step.run s actions = some t) (kept : Kept s) :
    Held t ↔ step.Latest sets clears s actions (Held s) := by
  induction actions generalizing s with
  | nil =>
    cases reached
    rfl
  | cons a actions ih =>
    obtain ⟨middle, taken, rest⟩ := run_cons_iff.mp reached
    rw [ih rest (keeps s a middle kept taken), Latest, taken, Option.elim_some,
      propext (decides s a middle kept taken)]

/-! ### Reaching a goal -/

namespace Reaches

theorem refl (s : σ) : step.Reaches among s s := ⟨[], by simp, rfl⟩

theorem single (kind : among a) (taken : step s a = some t) : step.Reaches among s t :=
  ⟨[a], by simpa using kind, by simp [run, taken]⟩

theorem trans (first : step.Reaches among s t) (second : step.Reaches among t u) :
    step.Reaches among s u := by
  obtain ⟨actions, kind, reached⟩ := first
  obtain ⟨more, moreKind, onwards⟩ := second
  refine ⟨actions ++ more, fun a member => ?_, run_append reached onwards⟩
  rcases List.mem_append.mp member with early | late
  · exact kind a early
  · exact moreKind a late

theorem preserved {Kept : σ → Prop} (keeps : ∀ s a t, Kept s → among a → step s a = some t → Kept t)
    (reached : step.Reaches among s t) (held : Kept s) : Kept t := by
  obtain ⟨actions, kind, run⟩ := reached
  have along : step.Along (fun _ a => among a) s actions :=
    along_of_forall fun _ a member => kind a member
  exact preserved_along keeps along run held

end Reaches

variable (step among) in
/-- A system that can always come closer to its goal can reach it. -/
theorem reaches_goal (Kept Goal : σ → Prop) (distance : σ → Nat)
    (closer : ∀ s, Kept s → ¬ Goal s →
      ∃ a t, among a ∧ step s a = some t ∧ Kept t ∧ distance t < distance s)
    (held : Kept s) : ∃ t, step.Reaches among s t ∧ Kept t ∧ Goal t := by
  induction bound : distance s using Nat.strongRecOn generalizing s with
  | ind n ih =>
    by_cases goal : Goal s
    · exact ⟨s, .refl s, held, goal⟩
    · obtain ⟨a, middle, kind, taken, kept, less⟩ := closer s held goal
      obtain ⟨t, reached, settled⟩ := ih (distance middle) (bound ▸ less) kept rfl
      exact ⟨t, (Reaches.single kind taken).trans reached, settled⟩

/-! ### Progress by one's own steps -/

/-- Finitely many own steps lead to the goal, whatever the others do before each of them. -/
inductive Ensures (own : σ → Option σ) (others : σ → σ → Prop) (goal : σ → Prop) : σ → Prop
  | here {s : σ} (met : goal s) : Ensures own others goal s
  | there {s : σ}
      (enabled : ∀ t, Relation.ReflTransGen others s t → ¬ goal t → ∃ u, own t = some u)
      (onwards : ∀ t u, Relation.ReflTransGen others s t → ¬ goal t → own t = some u →
        Ensures own others goal u) : Ensures own others goal s

namespace Ensures

variable {own : σ → Option σ} {others : σ → σ → Prop} {goal : σ → Prop}

/-- Each own step brings the goal closer, and the others do not take it further away. -/
theorem of_rank (Kept : σ → Prop) (rank : σ → Nat)
    (disturb : ∀ s t, Kept s → others s t → Kept t ∧ rank t ≤ rank s)
    (closer : ∀ s, Kept s → ¬ goal s → ∃ u, own s = some u ∧ Kept u ∧ rank u < rank s)
    (held : Kept s) : Ensures own others goal s := by
  have between (s t : σ) (kept : Kept s) (later : Relation.ReflTransGen others s t) :
      Kept t ∧ rank t ≤ rank s := by
    induction later with
    | refl => exact ⟨kept, Nat.le_refl _⟩
    | tail _ last ih =>
      obtain ⟨after, less⟩ := disturb _ _ ih.1 last
      exact ⟨after, Nat.le_trans less ih.2⟩
  induction bound : rank s using Nat.strongRecOn generalizing s with
  | ind n ih =>
    refine .there (fun t later unmet => ?_) (fun t u later unmet taken => ?_)
    · obtain ⟨u, taken, -⟩ := closer t (between s t held later).1 unmet
      exact ⟨u, taken⟩
    · obtain ⟨kept, notFurther⟩ := between s t held later
      obtain ⟨v, taken', after, less⟩ := closer t kept unmet
      obtain rfl : u = v := Option.some.inj (taken.symm.trans taken')
      exact ih (rank u) (bound ▸ Nat.lt_of_lt_of_le less notFurther) after rfl

/-- Own steps that never leave what excludes the goal do not lead to it. -/
theorem false_of_stuck (Stuck : σ → Prop) (unmet : ∀ s, Stuck s → ¬ goal s)
    (stays : ∀ s t, Stuck s → own s = some t → Stuck t) (ensured : Ensures own others goal s) :
    ¬ Stuck s := by
  induction ensured with
  | here met => exact fun stuck => unmet _ stuck met
  | there enabled _ ih =>
    intro stuck
    obtain ⟨u, taken⟩ := enabled _ .refl (unmet _ stuck)
    exact ih _ u .refl (unmet _ stuck) taken (stays _ _ stuck taken)

end Ensures

end Steps

/-! What has happened in the course of a schedule, and what has happened since. -/
namespace History

variable {α : Type*} (past : List α → Prop) (later : α → Prop) (xs : List α) (x : α)

/-- What is said of the schedule held of some first part of it. -/
def Once : Prop := ∃ before after, xs = before ++ after ∧ past before

/-- It held of some first part, and an action of this kind came after that. -/
def Since : Prop := ∃ before after, xs = before ++ after ∧ past before ∧ ∃ y ∈ after, later y

variable {past later xs x}

theorem not_since_nil : ¬ Since past later [] := by
  rintro ⟨before, after, shape, -, y, member, -⟩
  obtain ⟨-, rfl⟩ := List.append_eq_nil_iff.mp shape.symm
  cases member

theorem once_nil : Once past [] ↔ past [] := by
  constructor
  · rintro ⟨before, after, shape, held⟩
    obtain ⟨rfl, -⟩ := List.append_eq_nil_iff.mp shape.symm
    exact held
  · exact fun held => ⟨[], [], rfl, held⟩

theorem once_concat : Once past (xs ++ [x]) ↔ Once past xs ∨ past (xs ++ [x]) := by
  constructor
  · rintro ⟨before, after, shape, held⟩
    rcases List.eq_nil_or_concat' after with rfl | ⟨after, y, rfl⟩
    · rw [List.append_nil] at shape
      exact .inr (shape ▸ held)
    · rw [← List.append_assoc] at shape
      exact .inl ⟨before, after, (List.append_inj' shape rfl).1, held⟩
  · rintro (⟨before, after, rfl, held⟩ | held)
    · exact ⟨before, after ++ [x], by rw [List.append_assoc], held⟩
    · exact ⟨xs ++ [x], [], (List.append_nil _).symm, held⟩

theorem since_concat : Since past later (xs ++ [x]) ↔ Since past later xs ∨ Once past xs ∧ later x := by
  constructor
  · rintro ⟨before, after, shape, held, y, member, kind⟩
    rcases List.eq_nil_or_concat' after with rfl | ⟨after, z, rfl⟩
    · cases member
    · rw [← List.append_assoc] at shape
      obtain ⟨rfl, last⟩ := List.append_inj' shape rfl
      cases last
      rcases List.mem_append.mp member with earlier | own
      · exact .inl ⟨before, after, rfl, held, y, earlier, kind⟩
      · exact .inr ⟨⟨before, after, rfl, held⟩, List.mem_singleton.mp own ▸ kind⟩
  · rintro (⟨before, after, rfl, held, y, member, kind⟩ | ⟨⟨before, after, rfl, held⟩, kind⟩)
    · exact ⟨before, after ++ [x], by rw [List.append_assoc], held, y, List.mem_append_left _ member, kind⟩
    · have last : x ∈ after ++ [x] := List.mem_append_right _ (List.mem_singleton_self x)
      exact ⟨before, after ++ [x], by rw [List.append_assoc], held, x, last, kind⟩

end History

end Sws
