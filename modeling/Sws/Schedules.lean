import Mathlib.Data.List.Forall2
import Mathlib.Logic.Function.Basic
import Sws.Transition

/-! A system that follows a plain function: each of its actions does to what the state stands for what
some change does. What several threads leave then depends on their schedule only as far as their
changes do. -/
namespace Sws

namespace Steps

variable {σ τ α β : Type*} {step : Steps σ α} {apply : τ → β → τ} {stands : σ → τ → Prop} {means : α → β → Prop}

/-- Actions that each follow their change follow all of them together. -/
theorem run_follows (each : ∀ s t a b, stands s t → means a b → ∃ s', step s a = some s' ∧ stands s' (apply t b))
    {actions : List α} {changes : List β} (aligned : List.Forall₂ means actions changes) {s : σ} {t : τ}
    (held : stands s t) : ∃ s', step.run s actions = some s' ∧ stands s' (changes.foldl apply t) := by
  induction aligned generalizing s t with
  | nil => exact ⟨s, rfl, held⟩
  | cons meant _ ih =>
    obtain ⟨middle, taken, onwards⟩ := each s t _ _ held meant
    obtain ⟨s', ran, after⟩ := ih onwards
    exact ⟨s', run_cons_iff.mpr ⟨middle, taken, ran⟩, after⟩

end Steps

namespace Schedule

variable {ι σ α : Type*} [DecidableEq ι] {apply : σ → α → σ}

/-- What one thread does in a schedule, which says of every action whose it is. -/
def ofThread (schedule : List (ι × α)) (i : ι) : List α := (schedule.filter (·.1 = i)).map (·.2)

variable {first second schedule : List (ι × α)} {i : ι} {a : α}

theorem of_thread_append : ofThread (first ++ second) i = ofThread first i ++ ofThread second i := by
  rw [ofThread, List.filter_append, List.map_append]
  rfl

theorem of_thread_cons_self : ofThread ((i, a) :: schedule) i = a :: ofThread schedule i := by
  rw [ofThread, List.filter_cons_of_pos (by simp)]
  rfl

theorem of_thread_cons_ne {j : ι} (other : j ≠ i) : ofThread ((j, a) :: schedule) i = ofThread schedule i := by
  rw [ofThread, List.filter_cons_of_neg (by simpa using other)]
  rfl

theorem mem_of_thread : a ∈ ofThread schedule i ↔ (i, a) ∈ schedule := by
  simp [ofThread]

/-- Where a thread's next action stands in a schedule, the thread does nothing before it. -/
theorem split_at_next {rest : List α} (next : ofThread schedule i = a :: rest) :
    ∃ before after, schedule = before ++ (i, a) :: after ∧ ofThread before i = [] := by
  induction schedule with
  | nil => cases next
  | cons x schedule ih =>
    obtain ⟨j, b⟩ := x
    by_cases own : j = i
    · subst own
      rw [of_thread_cons_self] at next
      obtain ⟨rfl, -⟩ := List.cons.inj next
      exact ⟨[], schedule, rfl, rfl⟩
    · rw [of_thread_cons_ne own] at next
      obtain ⟨before, after, rfl, idle⟩ := ih next
      exact ⟨(j, b) :: before, after, rfl, by rw [of_thread_cons_ne own, idle]⟩

theorem of_thread_take_prefix (n : Nat) : ofThread (schedule.take n) i <+: ofThread schedule i :=
  ((List.take_prefix n schedule).filter _).map _

/-- Each thread in turn does all it has to do. -/
def serial (threads : List ι) (tasks : ι → List α) : List (ι × α) := threads.flatMap fun i => (tasks i).map (Prod.mk i)

omit [DecidableEq ι] in
theorem serial_actions (threads : List ι) (tasks : ι → List α) :
    (serial threads tasks).map (·.2) = threads.flatMap tasks := by
  simp [serial, List.map_flatMap, Function.comp_def]

theorem of_thread_block {j : ι} (tasks : List α) :
    ofThread (tasks.map (Prod.mk j)) i = if j = i then tasks else [] := by
  split
  next own => simp [ofThread, own, List.filter_map, Function.comp_def]
  next other => simp [ofThread, other]

/-- A serial schedule gives each thread its own tasks. -/
theorem of_thread_serial {threads : List ι} {tasks : ι → List α} (once : threads.Nodup)
    (all : ∀ i, i ∉ threads → tasks i = []) (i : ι) : ofThread (serial threads tasks) i = tasks i := by
  have blocks (threads : List ι) (once : threads.Nodup) :
      ofThread (serial threads tasks) i = if i ∈ threads then tasks i else [] := by
    induction threads with
    | nil => rfl
    | cons j threads ih =>
      obtain ⟨fresh, others⟩ := List.nodup_cons.mp once
      have cut : serial (j :: threads) tasks = (tasks j).map (Prod.mk j) ++ serial threads tasks := rfl
      rw [cut, of_thread_append, of_thread_block, ih others]
      by_cases own : j = i
      · subst own
        simp [fresh]
      · simp [own, Ne.symm own]
  rw [blocks threads once]
  split
  · rfl
  next absent => exact (all i absent).symm

/-- An action that commutes with each action before it may be taken first. -/
theorem foldl_move_first {before : List α} (commutes : ∀ b ∈ before, ∀ s, apply (apply s b) a = apply (apply s a) b)
    (s : σ) : apply (before.foldl apply s) a = before.foldl apply (apply s a) := by
  induction before generalizing s with
  | nil => rfl
  | cons b before ih =>
    obtain ⟨now, later⟩ := List.forall_mem_cons.mp commutes
    rw [List.foldl_cons, List.foldl_cons, ih later, now]

/-- **Schedules of commuting threads.** Where actions of different threads commute, two schedules in
which each thread does the same lead to the same state. -/
theorem foldl_eq_of_threads (same : ∀ i, ofThread first i = ofThread second i)
    (commutes : ∀ x ∈ first, ∀ y ∈ first, x.1 ≠ y.1 → ∀ s, apply (apply s x.2) y.2 = apply (apply s y.2) x.2)
    (s : σ) : (first.map (·.2)).foldl apply s = (second.map (·.2)).foldl apply s := by
  induction first generalizing second s with
  | nil =>
    cases second with
    | nil => rfl
    | cons x second =>
      have idle := same x.1
      rw [of_thread_cons_self] at idle
      cases idle
  | cons x first ih =>
    obtain ⟨i, a⟩ := x
    have next := same i
    rw [of_thread_cons_self] at next
    obtain ⟨before, after, rfl, idle⟩ := split_at_next next.symm
    have others : ∀ y ∈ before, y.1 ≠ i := by
      rintro ⟨j, b⟩ member rfl
      rw [← mem_of_thread, idle] at member
      cases member
    have among : ∀ y ∈ before, y ∈ (i, a) :: first := by
      rintro ⟨j, b⟩ member
      have there : (j, b) ∈ before ++ (i, a) :: after := List.mem_append_left _ member
      rwa [← mem_of_thread, ← same, mem_of_thread] at there
    have rest : ∀ j, ofThread first j = ofThread (before ++ after) j := by
      intro j
      have whole := same j
      rw [of_thread_append] at whole ⊢
      by_cases own : i = j
      · subst own
        rw [of_thread_cons_self, of_thread_cons_self, idle] at whole
        rw [idle]
        exact (List.cons.inj whole).2
      · rwa [of_thread_cons_ne own, of_thread_cons_ne own] at whole
    have early : ∀ b ∈ before.map (·.2), ∀ s, apply (apply s b) a = apply (apply s a) b := by
      intro b member s
      obtain ⟨y, held, rfl⟩ := List.mem_map.mp member
      exact commutes y (among y held) (i, a) List.mem_cons_self (others y held) s
    have fewer : ∀ x ∈ first, ∀ y ∈ first, x.1 ≠ y.1 → ∀ s,
        apply (apply s x.2) y.2 = apply (apply s y.2) x.2 :=
      fun x inside y member => commutes x (List.mem_cons_of_mem _ inside) y (List.mem_cons_of_mem _ member)
    calc ((i, a) :: first).map (·.2) |>.foldl apply s
      _ = (first.map (·.2)).foldl apply (apply s a) := rfl
      _ = ((before ++ after).map (·.2)).foldl apply (apply s a) := ih rest fewer _
      _ = (after.map (·.2)).foldl apply ((before.map (·.2)).foldl apply (apply s a)) := by
        rw [List.map_append, List.foldl_append]
      _ = (after.map (·.2)).foldl apply (apply ((before.map (·.2)).foldl apply s) a) := by
        rw [foldl_move_first early]
      _ = ((before ++ (i, a) :: after).map (·.2)).foldl apply s := by
        rw [List.map_append, List.foldl_append]
        rfl

/-- What is done in a schedule may be listed with the actions of one kind that each thread's own mean. -/
theorem exists_aligned {β : Type*} {means : α → β → Prop} {changes : ι → List β}
    (mean : ∀ i, List.Forall₂ means (ofThread schedule i) (changes i)) :
    ∃ listed : List (ι × β), (∀ i, ofThread listed i = changes i) ∧
      List.Forall₂ means (schedule.map (·.2)) (listed.map (·.2)) := by
  induction schedule generalizing changes with
  | nil => exact ⟨[], fun i => (List.forall₂_nil_left_iff.mp (mean i)).symm, .nil⟩
  | cons x schedule ih =>
    obtain ⟨i, a⟩ := x
    have own := mean i
    rw [of_thread_cons_self] at own
    obtain ⟨b, rest, meant, others, shape⟩ := List.forall₂_cons_left_iff.mp own
    have fewer : ∀ j, List.Forall₂ means (ofThread schedule j) (Function.update changes i rest j) := by
      intro j
      by_cases same : i = j
      · subst same
        rwa [Function.update_self]
      · have whole := mean j
        rw [of_thread_cons_ne same] at whole
        rwa [Function.update_of_ne (Ne.symm same)]
    obtain ⟨listed, threads, aligned⟩ := ih fewer
    refine ⟨(i, b) :: listed, fun j => ?_, .cons meant aligned⟩
    by_cases same : i = j
    · subst same
      rw [of_thread_cons_self, threads, Function.update_self, shape]
    · rw [of_thread_cons_ne same, threads, Function.update_of_ne (Ne.symm same)]

end Schedule

end Sws
