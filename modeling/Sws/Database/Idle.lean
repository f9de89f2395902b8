import Sws.Database.Monitor

/-! The flag at rest. A `push` writes `false` outside the lock, and by then the monitor may be done with
its statement: what it wrote itself is overwritten, and nobody writes again. -/
namespace Sws.Database.Monitor

variable {ι α : Type*}

/-- Whether the monitor is on the way from a statement to its write of the flag. -/
def MonitorAt.Writes : MonitorAt α → Prop
  | .taken _ | .running _ | .ran | .tested _ => True
  | _ => False

/-- The monitor will write the flag before it waits. -/
def State.Busy (s : State ι α) : Prop := s.queries ≠ [] ∨ s.monitor.Writes

/-- With no `push` in progress, the queue empty and the monitor waiting, `empty_queue` answers `true`. -/
def Settled (s : State ι α) : Prop :=
  (∀ p, s.producers p = .outside) → s.queries = [] → s.monitor = .waiting → s.queueEmpty = true

/-- Where a `push` writes `false`, the monitor has yet to write. -/
def Timely (s : State ι α) : Action ι α → Prop
  | .unempty _ => s.Busy
  | _ => True

/-- The flag is lowered only over a monitor that has yet to write, and one that is about to lower it will
write again. -/
structure Due (s : State ι α) : Prop where
  busy : s.queueEmpty = false → s.Busy
  again : s.monitor = .tested false → s.queries ≠ []

section Timely

variable {fails : Nat → α → Bool} {s t : State ι α}

@[simp] theorem writes_notified (m : MonitorAt α) : m.notified.Writes ↔ m.Writes := by
  cases m <;> rfl

@[simp] theorem notified_eq_tested (m : MonitorAt α) (empty : Bool) :
    m.notified = .tested empty ↔ m = .tested empty := by
  cases m <;> simp [MonitorAt.notified]

theorem due_advance (due : Due s) (taken : advance fails s = some t) : Due t := by
  obtain ⟨producers, monitor, queries, queueEmpty, order, executed⟩ := s
  obtain ⟨busy, again⟩ := due
  cases monitor with
  | waiting => cases taken
  | testing =>
    cases taken
    by_cases empty : queries = []
    · exact ⟨fun low => .inl ((busy low).resolve_right id), by simp [empty]⟩
    · exact ⟨fun _ => .inl empty, by simp [empty]⟩
  | passed =>
    cases queries with
    | nil =>
      cases taken
      exact ⟨fun low => .inl ((busy low).resolve_right id), nofun⟩
    | cons q rest =>
      cases taken
      exact ⟨fun _ => .inr trivial, nofun⟩
  | ran =>
    cases taken
    refine ⟨fun _ => .inr trivial, fun tested => ?_⟩
    rintro rfl
    cases tested
  | tested empty =>
    cases taken
    exact ⟨fun low => .inl (again (congrArg _ low)), nofun⟩
  | taken q | running q =>
    cases taken
    exact ⟨fun _ => .inr trivial, nofun⟩
  | _ =>
    cases taken
    exact ⟨fun low => .inl ((busy low).resolve_right id), nofun⟩

variable [DecidableEq ι]

theorem due_step (s : State ι α) (a : Action ι α) (t : State ι α) (due : Due s) (timely : Timely s a)
    (taken : step fails s a = some t) : Due t := by
  cases a with
  | push p q =>
    simp only [step, Option.ite_none_right_eq_some, Option.some.injEq] at taken
    obtain ⟨-, rfl⟩ := taken
    exact ⟨fun _ => .inl (by simp), fun _ => by simp⟩
  | unempty p =>
    simp only [step, Option.ite_none_right_eq_some, Option.some.injEq] at taken
    obtain ⟨-, rfl⟩ := taken
    exact ⟨fun _ => timely, due.again⟩
  | notify p =>
    simp only [step, Option.ite_none_right_eq_some, Option.some.injEq] at taken
    obtain ⟨-, rfl⟩ := taken
    exact ⟨fun low => by simpa [State.Busy] using due.busy low, by simpa using due.again⟩
  | wake =>
    simp only [step, Option.some.injEq] at taken
    subst taken
    exact ⟨fun low => by simpa [State.Busy] using due.busy low, by simpa using due.again⟩
  | advance => exact due_advance due taken

/-- The monitor is about to lower the flag only over a queue that is not empty. -/
theorem again_step (s : State ι α) (a : Action ι α) (t : State ι α)
    (again : s.monitor = .tested false → s.queries ≠ []) (taken : step fails s a = some t) :
    t.monitor = .tested false → t.queries ≠ [] := by
  cases a with
  | push p q =>
    simp only [step, Option.ite_none_right_eq_some, Option.some.injEq] at taken
    obtain ⟨-, rfl⟩ := taken
    exact fun _ => by simp
  | unempty p | notify p =>
    simp only [step, Option.ite_none_right_eq_some, Option.some.injEq] at taken
    obtain ⟨-, rfl⟩ := taken
    simpa using again
  | wake =>
    simp only [step, Option.some.injEq] at taken
    subst taken
    simpa using again
  | advance =>
    obtain ⟨producers, monitor, queries, queueEmpty, order, executed⟩ := s
    cases monitor with
    | waiting => cases taken
    | passed =>
      cases queries <;> cases taken <;> intro tested <;> cases tested
    | ran =>
      cases taken
      rintro tested rfl
      cases tested
    | testing =>
      cases taken
      by_cases empty : queries = [] <;> simp [empty]
    | _ =>
      cases taken
      intro tested
      cases tested

omit [DecidableEq ι] in
theorem settled_of_due (due : Due s) : Settled s := by
  intro _ empty waits
  by_contra low
  rcases due.busy (Bool.eq_false_iff.mpr low) with waiting | writes
  · exact waiting empty
  · rw [waits] at writes
    exact writes

end Timely

/-! ### What a late write leaves -/

/-- The flag is lowered, and the monitor has nothing left to write for. -/
structure Spent (s : State ι α) : Prop where
  lowered : s.queueEmpty = false
  idle : ¬ s.Busy

/-- What is left to do without another `push`. -/
def Action.finishes (a : Action ι α) : Prop := a.arrivals = []

/-- How far a monitor without statements is from its wait. -/
def MonitorAt.toWait : MonitorAt α → Nat
  | .waiting => 0
  | .testing => 1
  | .top | .woken => 2
  | .closing => 3
  | _ => 4

section Late

variable [DecidableEq ι] {fails : Nat → α → Bool} {s : State ι α}

/-- The pushes in progress write `false` once more, and return. -/
theorem spent_returns {callers : List ι} (spent : Spent s) (among : Among callers s.producers) :
    ∃ t, (step fails).Reaches Action.finishes s t ∧ Spent t ∧ ∀ p, t.producers p = .outside := by
  induction callers generalizing s with
  | nil =>
    refine ⟨s, .refl s, spent, fun p => ?_⟩
    by_contra inside
    cases among p inside
  | cons p callers ih =>
    have returns {s : State ι α} (spent : Spent s) (among : Among (p :: callers) s.producers)
        (notifying : s.producers p = .notifying) :
        ∃ t, (step fails).Reaches Action.finishes s t ∧ Spent t ∧ ∀ r, t.producers r = .outside := by
      let t : State ι α := { s with
        producers := Function.update s.producers p .outside
        monitor := s.monitor.notified }
      have taken : step fails s (.notify p) = some t := by simp [step, notifying, t]
      have fewer : Among callers t.producers := by
        intro r inside
        by_cases self : r = p
        · simp [t, self] at inside
        · exact (List.mem_cons.mp (among r (by simpa [t, self] using inside))).resolve_left self
      have still : Spent t := ⟨spent.lowered, by simpa [t, State.Busy] using spent.idle⟩
      have kind : (Action.notify p : Action ι α).finishes := rfl
      obtain ⟨u, onwards, rest⟩ := ih still fewer
      exact ⟨u, (Steps.Reaches.single kind taken).trans onwards, rest⟩
    cases here : s.producers p with
    | outside =>
      apply ih spent
      intro r inside
      rcases List.mem_cons.mp (among r inside) with rfl | member
      · exact absurd here inside
      · exact member
    | notifying => exact returns spent among here
    | unlocked =>
      let t : State ι α :=
        { s with producers := Function.update s.producers p .notifying, queueEmpty := false }
      have taken : step fails s (.unempty p) = some t := by simp [step, here, t]
      have kind : (Action.unempty p : Action ι α).finishes := rfl
      have still : Spent t := ⟨rfl, spent.idle⟩
      have inside : Among (p :: callers) t.producers := by
        intro r inside
        by_cases self : r = p
        · simp [self]
        · exact among r (by simpa [t, self] using inside)
      obtain ⟨u, onwards, rest⟩ := returns still inside (by simp [t])
      exact ⟨u, (Steps.Reaches.single kind taken).trans onwards, rest⟩

/-- The monitor goes back to its wait. -/
theorem spent_waits (spent : Spent s) (outside : ∀ p, s.producers p = .outside) :
    ∃ t, (step fails).Reaches Action.finishes s t ∧ (Spent t ∧ ∀ p, t.producers p = .outside) ∧
      t.monitor = .waiting := by
  refine Steps.reaches_goal (step fails) Action.finishes
    (fun t => Spent t ∧ ∀ p, t.producers p = .outside) (fun t => t.monitor = .waiting)
    (fun t => t.monitor.toWait) ?_ ⟨spent, outside⟩
  rintro ⟨producers, monitor, queries, queueEmpty, order, executed⟩ ⟨⟨lowered, idle⟩, outside⟩ going
  simp only [State.Busy, not_or, not_not] at idle
  obtain ⟨rfl, quiet⟩ := idle
  cases monitor with
  | waiting => exact absurd rfl going
  | taken | running | ran | tested => exact absurd trivial quiet
  | testing | passed =>
    exact ⟨.advance, _, rfl, rfl, ⟨⟨lowered, by simp [State.Busy, MonitorAt.Writes]⟩, outside⟩,
      by simp [MonitorAt.toWait]⟩
  | top | woken | closing | relocking =>
    exact ⟨.advance, _, rfl, rfl, ⟨⟨lowered, by simp [State.Busy, MonitorAt.Writes]⟩, outside⟩,
      by simp [MonitorAt.toWait]⟩

/-- While no `push` brings in another statement, nothing changes that. -/
theorem spent_kept {t : State ι α} {a : Action ι α} (outside : ∀ p, s.producers p = .outside) (finishes : a.finishes)
    (taken : step fails s a = some t) (spent : Spent s) : Spent t := by
  cases a with
  | push p q => cases finishes
  | unempty p | notify p => cases (Option.ite_none_right_eq_some.mp taken).1.symm.trans (outside p)
  | wake =>
    cases taken
    exact ⟨spent.lowered, by simpa [State.Busy] using spent.idle⟩
  | advance =>
    obtain ⟨producers, monitor, queries, queueEmpty, order, executed⟩ := s
    obtain ⟨lowered, idle⟩ := spent
    simp only [State.Busy, not_or, not_not] at idle
    obtain ⟨rfl, quiet⟩ := idle
    cases monitor with
    | waiting => cases taken
    | taken | running | ran | tested => exact absurd trivial quiet
    | _ =>
      cases taken
      exact ⟨lowered, by simp [State.Busy, MonitorAt.Writes]⟩

/-- The flag is raised, or the monitor has yet to write it, and lowers it only over a queue that is not empty. -/
def Raising (s : State ι α) : Prop :=
  s.queueEmpty = true ∨ s.Busy ∧ (s.monitor = .tested false → s.queries ≠ [])

variable (fails) in
theorem raising_closer (raising : Raising s) (low : ¬ s.queueEmpty = true) :
    ∃ a t, a.own ∧ step fails s a = some t ∧ (t.producers = s.producers ∧ Raising t) ∧ t.distance < s.distance := by
  obtain ⟨busy, again⟩ := raising.resolve_left low
  obtain ⟨producers, monitor, queries, queueEmpty, order, executed⟩ := s
  -- Away from its write, the monitor is busy with a queue that is not empty.
  have fetches (idle : ¬ monitor.Writes) : queries ≠ [] := busy.resolve_right idle
  cases monitor with
  | waiting =>
    exact ⟨.wake, _, trivial, rfl, ⟨rfl, .inr ⟨.inl (fetches id), fun tested => by cases tested⟩⟩,
      by simp [State.distance, MonitorAt.notified, MonitorAt.rank]⟩
  | testing =>
    have held := fetches id
    exact ⟨.advance, _, trivial, rfl, ⟨rfl, .inr ⟨.inl held, by simp [held]⟩⟩,
      by simp [State.distance, MonitorAt.rank, held]⟩
  | passed =>
    cases queries with
    | nil => exact absurd rfl (fetches id)
    | cons q rest =>
      exact ⟨.advance, _, trivial, rfl, ⟨rfl, .inr ⟨.inr trivial, fun tested => by cases tested⟩⟩,
        by simp [State.distance, MonitorAt.rank]; omega⟩
  | taken q | running q =>
    exact ⟨.advance, _, trivial, rfl, ⟨rfl, .inr ⟨.inr trivial, fun tested => by cases tested⟩⟩,
      by simp [State.distance, MonitorAt.rank]⟩
  | ran =>
    refine ⟨.advance, _, trivial, rfl, ⟨rfl, .inr ⟨.inr trivial, ?_⟩⟩, by simp [State.distance, MonitorAt.rank]⟩
    rintro tested rfl
    cases tested
  | tested empty =>
    refine ⟨.advance, _, trivial, rfl, ⟨rfl, ?_⟩, by simp [State.distance, MonitorAt.rank]⟩
    cases empty with
    | true => exact .inl rfl
    | false => exact .inr ⟨.inl (again rfl), fun tested => by cases tested⟩
  | top | woken | closing | relocking =>
    exact ⟨.advance, _, trivial, rfl, ⟨rfl, .inr ⟨.inl (fetches id), fun tested => by cases tested⟩⟩,
      by simp [State.distance, MonitorAt.rank]⟩

/-- A monitor that has yet to write the flag raises it in the end. -/
theorem reaches_raised (again : s.monitor = .tested false → s.queries ≠ []) (busy : s.Busy) :
    ∃ t, (step fails).Reaches Action.own s t ∧ t.producers = s.producers ∧ t.queueEmpty = true := by
  have closer (t : State ι α) (kept : t.producers = s.producers ∧ Raising t) (low : ¬ t.queueEmpty = true) :
      ∃ a u, a.own ∧ step fails t a = some u ∧ (u.producers = s.producers ∧ Raising u) ∧ u.distance < t.distance := by
    obtain ⟨a, u, own, taken, ⟨same, raising⟩, less⟩ := raising_closer fails kept.2 low
    exact ⟨a, u, own, taken, ⟨same.trans kept.1, raising⟩, less⟩
  obtain ⟨t, reached, ⟨same, -⟩, raised⟩ := Steps.reaches_goal (step fails) Action.own _ _ State.distance closer
    ⟨rfl, .inr ⟨busy, again⟩⟩
  exact ⟨t, reached, same, raised⟩

/-- **A late write stays.** In every run in which each `push` writes `false` while the monitor has yet to
write, `empty_queue` answers `true` in every state at rest. Where a `push` writes later, the pushes in
progress only have to return for the monitor to wait with the flag lowered. -/
theorem empty_queue_at_rest_of_timely {actions : List (Action ι α)}
    (reached : (step fails).run initial actions = some s) :
    ((step fails).Along Timely initial actions → Settled s) ∧
    ∀ a t, ¬ Timely s a → step fails s a = some t →
      ∃ u, (step fails).Reaches Action.finishes t u ∧ ¬ Settled u := by
  refine ⟨fun timely => ?_, fun a t late taken => ?_⟩
  · exact settled_of_due (Steps.preserved_along due_step timely reached ⟨nofun, nofun⟩)
  · cases a with
    | unempty p =>
      have bounded : Bounded s :=
        Steps.preserved bounded_step reached ⟨[], fun _ inside => absurd rfl inside⟩
      obtain ⟨callers, among⟩ := bounded_step s (.unempty p) t bounded taken
      simp only [step, Option.ite_none_right_eq_some, Option.some.injEq] at taken
      obtain ⟨-, written⟩ := taken
      have spent : Spent t := by
        rw [← written]
        exact ⟨rfl, late⟩
      obtain ⟨u, first, spent, outside⟩ := spent_returns spent among
      obtain ⟨v, second, ⟨spent', outside'⟩, waits⟩ := spent_waits spent outside
      refine ⟨v, first.trans second, fun settled => ?_⟩
      have empty : v.queries = [] := by
        by_contra waiting
        exact spent'.idle (.inl waiting)
      cases (settled outside' empty waits).symm.trans spent'.lowered
    | _ => exact absurd trivial late

end Late

theorem undisturbed_settled :
    ∃ s, (step fun _ _ => false).run initial (undisturbed ++ List.replicate 4 .advance) = some s ∧
      s.monitor = .waiting ∧ Settled s := by
  have reached : (step fun _ _ => false).run initial (undisturbed ++ List.replicate 4 .advance) =
      some ⟨fun _ => .outside, .waiting, [], true, [0], [(0, true)]⟩ := rfl
  refine ⟨_, reached, rfl, (empty_queue_at_rest_of_timely reached).1 ?_⟩
  refine ⟨trivial, .inl (by simp), trivial, ?_⟩
  iterate 11 refine ⟨trivial, ?_⟩
  trivial

/-- The statement is executed before the `push` that brought it writes the flag. -/
theorem queue_not_empty_at_rest :
    ¬ ∀ (actions : List (Action Unit Nat)) (s : State Unit Nat),
      (step fun _ _ => false).run initial actions = some s → Settled s := by
  intro all
  have settled := all
    [.push () 0, .advance, .advance, .advance, .advance, .advance, .advance, .advance, .advance, .advance,
      .advance, .advance, .unempty (), .notify (), .advance, .advance] _ rfl
  cases settled (fun _ => rfl) rfl rfl

end Sws.Database.Monitor
