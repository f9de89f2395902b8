import Mathlib.Logic.Function.Basic
import Sws.Fifo
import Sws.Transition

/-! The statement queue: any number of threads in `db::push` and the one thread in `db::monitor`.
A critical section of `push` is one action, taken while the monitor does not hold the mutex; each
statement outside it is an action of its own. The monitor goes on statement by statement. Statements
are of any type, and whether the `n`-th execution fails is left open. -/
namespace Sws.Database.Monitor

/-- Where a thread is in `db::push`. -/
inductive PushAt
  | outside
  /-- Before `queue_empty = false`. -/
  | unlocked
  /-- Before `cv.notify_all`. -/
  | notifying
  deriving DecidableEq, Repr

/-- Where the thread is in `db::monitor`. -/
inductive MonitorAt (α : Type*)
  /-- Before the lock is taken. -/
  | top
  /-- In `cv.wait`, about to test the condition. -/
  | testing
  | waiting
  /-- Woken, without the mutex. -/
  | woken
  /-- `cv.wait` has returned. -/
  | passed
  | taken (q : α)
  /-- In `sqlite3_exec`. -/
  | running (q : α)
  /-- Before the size is tested, outside the lock. -/
  | ran
  /-- Before `queue_empty` is written. -/
  | tested (empty : Bool)
  | relocking
  /-- At the end of the scope of the lock. -/
  | closing
  deriving DecidableEq, Repr

namespace MonitorAt

variable {α : Type*}

/-- Whether the monitor holds `m_mutex`. -/
def holds : MonitorAt α → Bool
  | .testing | .passed | .taken _ | .closing => true
  | .top | .waiting | .woken | .running _ | .ran | .tested _ | .relocking => false

/-- The statement removed from the queue and not yet executed. -/
def inFlight : MonitorAt α → Option α
  | .taken q | .running q => some q
  | _ => none

end MonitorAt

structure State (ι α : Type*) where
  producers : ι → PushAt
  monitor : MonitorAt α
  queries : List α
  queueEmpty : Bool
  /-- The statements in the order in which their enqueues took the lock. -/
  order : List α
  /-- The statements executed, each with whether it succeeded. -/
  executed : List (α × Bool)

inductive Action (ι α : Type*)
  | push (p : ι) (q : α)
  | unempty (p : ι)
  | notify (p : ι)
  /-- A wake-up nobody asked for. -/
  | wake
  | advance
  deriving DecidableEq, Repr

variable {ι α : Type*}

def initial : State ι α where
  producers := fun _ => .outside
  monitor := .top
  queries := []
  queueEmpty := true
  order := []
  executed := []

/-- A wake-up reaches the monitor only in `cv.wait`. -/
def MonitorAt.notified : MonitorAt α → MonitorAt α
  | .waiting => .woken
  | m => m

/-- The next statement of `db::monitor`. -/
def advance (fails : Nat → α → Bool) (s : State ι α) : Option (State ι α) :=
  match s.monitor with
  | .top => some { s with monitor := .testing }
  | .testing => some { s with monitor := if s.queries = [] then .waiting else .passed }
  | .waiting => none
  | .woken => some { s with monitor := .testing }
  | .passed =>
    match s.queries with
    | [] => some { s with monitor := .closing }
    | q :: rest => some { s with monitor := .taken q, queries := rest }
  | .taken q => some { s with monitor := .running q }
  | .running q =>
    some { s with monitor := .ran, executed := s.executed ++ [(q, !fails s.executed.length q)] }
  | .ran => some { s with monitor := .tested s.queries.isEmpty }
  | .tested empty => some { s with monitor := .relocking, queueEmpty := empty }
  | .relocking => some { s with monitor := .closing }
  | .closing => some { s with monitor := .top }

variable [DecidableEq ι]

def step (fails : Nat → α → Bool) : Steps (State ι α) (Action ι α)
  | s, .push p q =>
    if s.producers p = .outside ∧ s.monitor.holds = false then
      some { s with
        producers := Function.update s.producers p .unlocked
        queries := s.queries ++ [q]
        order := s.order ++ [q] }
    else none
  | s, .unempty p =>
    if s.producers p = .unlocked then
      some { s with producers := Function.update s.producers p .notifying, queueEmpty := false }
    else none
  | s, .notify p =>
    if s.producers p = .notifying then
      some { s with
        producers := Function.update s.producers p .outside
        monitor := s.monitor.notified }
    else none
  | s, .wake => some { s with monitor := s.monitor.notified }
  | s, .advance => advance fails s

/-! ### Order -/

/-- The queue as an account of its statements. -/
def State.account (s : State ι α) : Fifo α where
  done := s.executed.map Prod.fst
  flight := s.monitor.inFlight
  waiting := s.queries

/-- The statements an action brings in. -/
def Action.arrivals : Action ι α → List α
  | .push _ q => [q]
  | _ => []

omit [DecidableEq ι] in
@[simp] theorem in_flight_notified (m : MonitorAt α) : m.notified.inFlight = m.inFlight := by
  cases m <;> rfl

omit [DecidableEq ι] in
theorem advance_moves {fails : Nat → α → Bool} {s t : State ι α} (taken : advance fails s = some t) :
    s.account.Move [] t.account ∧ t.order = s.order := by
  obtain ⟨producers, monitor, queries, queueEmpty, order, executed⟩ := s
  cases monitor with
  | waiting => cases taken
  | testing =>
    cases taken
    refine ⟨?_, rfl⟩
    by_cases empty : queries = [] <;> simpa [State.account, MonitorAt.inFlight, empty] using Fifo.Move.idle _
  | passed =>
    cases queries with
    | nil =>
      cases taken
      exact ⟨.idle _, rfl⟩
    | cons q rest =>
      cases taken
      exact ⟨.take _ q rest, rfl⟩
  | running q =>
    cases taken
    refine ⟨?_, rfl⟩
    simpa [State.account, MonitorAt.inFlight] using Fifo.Move.finish (executed.map Prod.fst) q queries
  | _ =>
    cases taken
    exact ⟨.idle _, rfl⟩

/-- Every action is a move of the account. -/
theorem step_moves {fails : Nat → α → Bool} {s t : State ι α} {a : Action ι α}
    (taken : step fails s a = some t) :
    s.account.Move a.arrivals t.account ∧ t.order = s.order ++ a.arrivals := by
  cases a with
  | push p q =>
    simp only [step, Option.ite_none_right_eq_some, Option.some.injEq] at taken
    obtain ⟨-, rfl⟩ := taken
    exact ⟨.arrive s.account q, rfl⟩
  | unempty p =>
    simp only [step, Option.ite_none_right_eq_some, Option.some.injEq] at taken
    obtain ⟨-, rfl⟩ := taken
    exact ⟨.idle s.account, by simp [Action.arrivals]⟩
  | notify p =>
    simp only [step, Option.ite_none_right_eq_some, Option.some.injEq] at taken
    obtain ⟨-, rfl⟩ := taken
    exact ⟨by simpa [State.account, Action.arrivals] using Fifo.Move.idle s.account,
      by simp [Action.arrivals]⟩
  | wake =>
    simp only [step, Option.some.injEq] at taken
    subst taken
    exact ⟨by simpa [State.account, Action.arrivals] using Fifo.Move.idle s.account,
      by simp [Action.arrivals]⟩
  | advance =>
    obtain ⟨move, same⟩ := advance_moves taken
    exact ⟨move, by simpa [Action.arrivals] using same⟩

/-- Executed, in flight and waiting statements, in this order, are those enqueued. -/
def Ordered (s : State ι α) : Prop := s.account.contents = s.order

theorem ordered_step {fails : Nat → α → Bool} (s : State ι α) (a : Action ι α) (t : State ι α)
    (ordered : Ordered s) (taken : step fails s a = some t) : Ordered t := by
  obtain ⟨move, arrived⟩ := step_moves taken
  rw [Ordered, move.contents_eq, arrived, ordered]

theorem ordered_run {fails : Nat → α → Bool} {actions : List (Action ι α)} {s : State ι α}
    (reached : (step fails).run initial actions = some s) : Ordered s :=
  Steps.preserved ordered_step reached rfl

/-- The statement a thread brings into the queue. -/
def Action.pushed : Action ι α → Option (ι × α)
  | .push p q => some (p, q)
  | _ => none

/-- The critical sections of a run, in the order in which they took the lock. -/
def pushes (actions : List (Action ι α)) : List (ι × α) := actions.filterMap Action.pushed

omit [DecidableEq ι] in
theorem arrivals_eq (a : Action ι α) : a.arrivals = a.pushed.toList.map (·.2) := by
  cases a <;> rfl

theorem order_run {fails : Nat → α → Bool} {actions : List (Action ι α)} {s t : State ι α}
    (reached : (step fails).run s actions = some t) : t.order = s.order ++ (pushes actions).map (·.2) := by
  induction actions generalizing s with
  | nil =>
    cases reached
    exact (List.append_nil _).symm
  | cons a actions ih =>
    obtain ⟨middle, taken, rest⟩ := Steps.run_cons_iff.mp reached
    rw [ih rest, (step_moves taken).2, arrivals_eq, List.append_assoc, pushes, pushes, List.filterMap_cons]
    cases a.pushed <;> rfl

omit [DecidableEq ι] in
/-- What has been executed is what was enqueued first. -/
theorem executed_eq_take {s : State ι α} (ordered : Ordered s) :
    s.executed.map Prod.fst = s.order.take s.executed.length := by
  rw [← ordered, Fifo.contents, State.account, List.append_assoc, List.take_left' (List.length_map _)]

/-- What has been executed is what was pushed first. -/
theorem executed_run {fails : Nat → α → Bool} {actions : List (Action ι α)} {s : State ι α}
    (reached : (step fails).run initial actions = some s) :
    s.executed.map Prod.fst = ((pushes actions).take s.executed.length).map (·.2) := by
  have pushed : s.order = (pushes actions).map (·.2) := order_run reached
  rw [executed_eq_take (ordered_run reached), pushed, List.map_take]

/-! ### Progress -/

/-- The monitor's own steps, wake-ups included. -/
def Action.own : Action ι α → Prop
  | .wake | .advance => True
  | _ => False

/-- How far the monitor is from its next statement. -/
def MonitorAt.rank : MonitorAt α → Nat
  | .taken _ => 11
  | .running _ => 10
  | .ran => 9
  | .tested _ => 8
  | .relocking => 7
  | .closing => 6
  | .top => 5
  | .waiting => 4
  | .woken => 3
  | .testing => 2
  | .passed => 1

def State.distance (s : State ι α) : Nat := 12 * s.queries.length + s.monitor.rank

/-- Nothing waits and nothing is in the monitor's hands. -/
def State.Drained (s : State ι α) : Prop := s.queries = [] ∧ s.monitor.inFlight = none

/-- Whatever fails, the monitor comes closer to the end of its queue. -/
theorem closer (fails : Nat → α → Bool) (s : State ι α) (busy : ¬ s.Drained) :
    ∃ a t, a.own ∧ step fails s a = some t ∧ t.order = s.order ∧ t.distance < s.distance := by
  obtain ⟨producers, monitor, queries, queueEmpty, order, executed⟩ := s
  simp only [State.Drained, not_and] at busy
  cases monitor with
  | waiting => exact ⟨.wake, _, trivial, rfl, rfl, by simp [State.distance, MonitorAt.notified, MonitorAt.rank]⟩
  | testing =>
    have held : queries ≠ [] := fun empty => busy empty rfl
    exact ⟨.advance, _, trivial, rfl, rfl, by simp [State.distance, MonitorAt.rank, held]⟩
  | passed =>
    cases queries with
    | nil => exact absurd rfl (busy rfl)
    | cons q rest =>
      exact ⟨.advance, _, trivial, rfl, rfl, by simp [State.distance, MonitorAt.rank]; omega⟩
  | _ => exact ⟨.advance, _, trivial, rfl, rfl, by simp [State.distance, MonitorAt.rank]⟩

/-- From every state the monitor's own steps execute all statements enqueued so far. -/
theorem reaches_drained (fails : Nat → α → Bool) (s : State ι α) :
    ∃ t, (step fails).Reaches Action.own s t ∧ t.order = s.order ∧ t.Drained := by
  refine Steps.reaches_goal (step fails) Action.own (fun t => t.order = s.order) State.Drained
    State.distance ?_ rfl
  intro u kept busy
  obtain ⟨a, t, own, taken, same, less⟩ := closer fails u busy
  exact ⟨a, t, own, taken, same.trans kept, less⟩

/-! ### The flag

`empty_queue` returns what the monitor or a producer wrote last. The monitor writes what it found
when it tested the size, and a whole `push` fits between the two. -/

/-- While no `push` is in progress, `empty_queue` answers `true` only after all is executed. -/
def Safe (s : State ι α) : Prop :=
  s.queueEmpty = true → (∀ p, s.producers p = .outside) → s.executed.map Prod.fst = s.order

/-- Some `push` has enqueued its statement and not yet written the flag. -/
def State.Pending (s : State ι α) : Prop := ∃ p, s.producers p = .unlocked

/-- Where the monitor writes `true`, the queue is still empty, or a pending `push` will write
`false` over it. -/
def Careful (s : State ι α) : Action ι α → Prop
  | .advance => s.monitor = .tested true → s.queries = [] ∨ s.Pending
  | _ => True

/-- The flag is raised only over a drained queue or under a pending `push`. -/
def Honest (s : State ι α) : Prop := s.queueEmpty = true → s.Drained ∨ s.Pending

omit [DecidableEq ι] in
theorem drained_advance {fails : Nat → α → Bool} {s t : State ι α}
    (taken : advance fails s = some t) (drained : s.Drained) : t.Drained := by
  obtain ⟨producers, monitor, queries, queueEmpty, order, executed⟩ := s
  obtain ⟨none_waiting, none_flying⟩ := drained
  simp only at none_waiting none_flying
  subst none_waiting
  cases monitor with
  | waiting => cases taken
  | taken q => cases none_flying
  | running q => cases none_flying
  | _ =>
    cases taken
    exact ⟨rfl, rfl⟩

omit [DecidableEq ι] in
theorem producers_advance {fails : Nat → α → Bool} {s t : State ι α}
    (taken : advance fails s = some t) : t.producers = s.producers := by
  obtain ⟨producers, monitor, queries, queueEmpty, order, executed⟩ := s
  cases monitor with
  | waiting => cases taken
  | passed => cases queries <;> cases taken <;> rfl
  | _ => cases taken; rfl

omit [DecidableEq ι] in
/-- Among the monitor's statements only the assignment after the test touches the flag. -/
theorem flag_advance {fails : Nat → α → Bool} {s t : State ι α} (taken : advance fails s = some t) :
    (∃ empty, s.monitor = .tested empty ∧ t.queueEmpty = empty ∧ t.queries = s.queries ∧
      t.monitor = .relocking) ∨ t.queueEmpty = s.queueEmpty := by
  obtain ⟨producers, monitor, queries, queueEmpty, order, executed⟩ := s
  cases monitor with
  | waiting => cases taken
  | tested empty =>
    cases taken
    exact .inl ⟨empty, rfl, rfl, rfl, rfl⟩
  | passed => cases queries <;> cases taken <;> exact .inr rfl
  | _ => cases taken; exact .inr rfl

theorem honest_step {fails : Nat → α → Bool} (s : State ι α) (a : Action ι α) (t : State ι α)
    (honest : Honest s) (careful : Careful s a) (taken : step fails s a = some t) : Honest t := by
  intro raised
  cases a with
  | push p q =>
    simp only [step, Option.ite_none_right_eq_some, Option.some.injEq] at taken
    obtain ⟨-, rfl⟩ := taken
    exact .inr ⟨p, by simp⟩
  | unempty p =>
    simp only [step, Option.ite_none_right_eq_some, Option.some.injEq] at taken
    obtain ⟨-, rfl⟩ := taken
    cases raised
  | notify p =>
    simp only [step, Option.ite_none_right_eq_some, Option.some.injEq] at taken
    obtain ⟨notifying, rfl⟩ := taken
    rcases honest raised with ⟨empty, idle⟩ | ⟨r, unlocked⟩
    · exact .inl ⟨empty, by simpa using idle⟩
    · have other : r ≠ p := by
        intro same
        rw [same, notifying] at unlocked
        cases unlocked
      exact .inr ⟨r, by simpa [other] using unlocked⟩
  | wake =>
    simp only [step, Option.some.injEq] at taken
    subst taken
    rcases honest raised with ⟨empty, idle⟩ | pending
    · exact .inl ⟨empty, by simpa using idle⟩
    · exact .inr pending
  | advance =>
    have same := producers_advance taken
    rcases flag_advance taken with ⟨empty, tested, written, kept, relocking⟩ | unchanged
    · rw [raised] at written
      rw [← written] at tested
      rcases careful tested with none_waiting | ⟨p, unlocked⟩
      · exact .inl ⟨kept.trans none_waiting, by simp [relocking, MonitorAt.inFlight]⟩
      · exact .inr ⟨p, same ▸ unlocked⟩
    · rcases honest (unchanged ▸ raised) with drained | ⟨p, unlocked⟩
      · exact .inl (drained_advance taken drained)
      · exact .inr ⟨p, same ▸ unlocked⟩

omit [DecidableEq ι] in
theorem safe_of_honest {s : State ι α} (ordered : Ordered s) (honest : Honest s) : Safe s := by
  intro raised outside
  rcases honest raised with ⟨waiting, flying⟩ | ⟨p, unlocked⟩
  · exact (Fifo.contents_of_idle (f := s.account) flying waiting).symm.trans ordered
  · rw [outside p] at unlocked
    cases unlocked

/-! ### What a careless write leaves -/

/-- The flag is raised over a waiting statement, and no `push` is left to lower it. -/
def Mistaken (s : State ι α) : Prop :=
  s.queueEmpty = true ∧ s.queries ≠ [] ∧ ∀ p, s.producers p ≠ .unlocked

/-- Every thread in `push` is one of `callers`. -/
def Among (callers : List ι) (producers : ι → PushAt) : Prop :=
  ∀ p, producers p ≠ .outside → p ∈ callers

/-- Finitely many threads are in `push`. -/
def Bounded (s : State ι α) : Prop := ∃ callers, Among callers s.producers

def Action.notifies : Action ι α → Prop
  | .notify _ => True
  | _ => False

theorem among_update {callers : List ι} {producers : ι → PushAt} (among : Among callers producers)
    (p : ι) (place : PushAt) : Among (p :: callers) (Function.update producers p place) := by
  intro r inside
  by_cases self : r = p
  · simp [self]
  · rw [Function.update_of_ne self] at inside
    exact List.mem_cons_of_mem p (among r inside)

theorem bounded_step {fails : Nat → α → Bool} (s : State ι α) (a : Action ι α) (t : State ι α)
    (bounded : Bounded s) (taken : step fails s a = some t) : Bounded t := by
  obtain ⟨callers, among⟩ := bounded
  cases a with
  | push p q =>
    simp only [step, Option.ite_none_right_eq_some, Option.some.injEq] at taken
    obtain ⟨-, rfl⟩ := taken
    exact ⟨p :: callers, among_update among p .unlocked⟩
  | unempty p =>
    simp only [step, Option.ite_none_right_eq_some, Option.some.injEq] at taken
    obtain ⟨-, rfl⟩ := taken
    exact ⟨p :: callers, among_update among p .notifying⟩
  | notify p =>
    simp only [step, Option.ite_none_right_eq_some, Option.some.injEq] at taken
    obtain ⟨-, rfl⟩ := taken
    exact ⟨p :: callers, among_update among p .outside⟩
  | wake =>
    simp only [step, Option.some.injEq] at taken
    subst taken
    exact ⟨callers, among⟩
  | advance => exact ⟨callers, by rwa [producers_advance taken]⟩

/-- The pushes in progress end with their notifications, and none touches the flag. -/
theorem mistaken_returns {fails : Nat → α → Bool} {callers : List ι} {s : State ι α}
    (mistaken : Mistaken s) (ordered : Ordered s) (among : Among callers s.producers) :
    ∃ t, (step fails).Reaches Action.notifies s t ∧ Mistaken t ∧ Ordered t ∧
      ∀ p, t.producers p = .outside := by
  induction callers generalizing s with
  | nil =>
    refine ⟨s, .refl s, mistaken, ordered, fun p => ?_⟩
    by_contra inside
    cases among p inside
  | cons p callers ih =>
    obtain ⟨raised, waiting, written⟩ := mistaken
    cases here : s.producers p with
    | unlocked => exact absurd here (written p)
    | outside =>
      refine ih ⟨raised, waiting, written⟩ ordered fun r inside => ?_
      rcases List.mem_cons.mp (among r inside) with rfl | member
      · exact absurd here inside
      · exact member
    | notifying =>
      let t : State ι α := { s with
        producers := Function.update s.producers p .outside
        monitor := s.monitor.notified }
      have taken : step fails s (.notify p) = some t := by simp [step, here, t]
      have still : Mistaken t := by
        refine ⟨raised, waiting, fun r => ?_⟩
        by_cases self : r = p
        · simp [t, self]
        · simpa [t, self] using written r
      have fewer : Among callers t.producers := by
        intro r inside
        by_cases self : r = p
        · simp [t, self] at inside
        · rcases List.mem_cons.mp (among r (by simpa [t, self] using inside)) with same | member
          · exact absurd same self
          · exact member
      obtain ⟨u, onwards, rest⟩ := ih still (ordered_step s _ t ordered taken) fewer
      exact ⟨u, (Steps.Reaches.single trivial taken).trans onwards, rest⟩

omit [DecidableEq ι] in
theorem not_safe_of_mistaken {s : State ι α} (mistaken : Mistaken s) (ordered : Ordered s)
    (outside : ∀ p, s.producers p = .outside) : ¬ Safe s := by
  intro safe
  obtain ⟨raised, waiting, -⟩ := mistaken
  have all := safe raised outside
  unfold Ordered Fifo.contents at ordered
  have none_left : s.monitor.inFlight.toList ++ s.queries = [] := by
    simpa [State.account, all] using ordered
  exact waiting (List.append_eq_nil_iff.mp none_left).2

theorem mistaken_of_careless {fails : Nat → α → Bool} {s t : State ι α} {a : Action ι α}
    (careless : ¬ Careful s a) (taken : step fails s a = some t) : Mistaken t := by
  cases a with
  | advance =>
    unfold Careful at careless
    push Not at careless
    obtain ⟨tested, waiting, pending⟩ := careless
    simp only [step, advance, tested, Option.some.injEq] at taken
    subst taken
    exact ⟨rfl, waiting, fun p unlocked => pending ⟨p, unlocked⟩⟩
  | _ => exact absurd trivial careless

/-- **Test and write apart.** In every run in which the monitor writes `true` only while the queue
is still empty, or while some `push` has yet to write `false`, `empty_queue` can be relied on in
every state. Where the monitor writes `true` otherwise, the pushes in progress only have to return
for it to answer `true` with a statement still waiting. -/
theorem empty_queue_reliable_of_careful {fails : Nat → α → Bool} {actions : List (Action ι α)}
    {s : State ι α} (reached : (step fails).run initial actions = some s) :
    ((step fails).Along Careful initial actions → Safe s) ∧
    ∀ a t, ¬ Careful s a → step fails s a = some t →
      ∃ u, (step fails).Reaches Action.notifies t u ∧ ¬ Safe u := by
  have ordered := ordered_run reached
  refine ⟨fun careful => ?_, fun a t careless taken => ?_⟩
  · have honest : Honest s :=
      Steps.preserved_along honest_step careful reached fun _ => .inl ⟨rfl, rfl⟩
    exact safe_of_honest ordered honest
  · have bounded : Bounded s :=
      Steps.preserved bounded_step reached ⟨[], fun _ inside => absurd rfl inside⟩
    obtain ⟨callers, among⟩ := bounded_step s a t bounded taken
    have mistaken := mistaken_of_careless careless taken
    obtain ⟨u, onwards, still, kept, outside⟩ :=
      mistaken_returns mistaken (ordered_step s a t ordered taken) among
    exact ⟨u, onwards, not_safe_of_mistaken still kept outside⟩

/-- One statement pushed, taken and executed while no other is pushed. -/
def undisturbed : List (Action Unit Nat) :=
  [.push () 0, .unempty (), .notify (), .advance, .advance, .advance, .advance, .advance, .advance,
    .advance]

theorem undisturbed_safe :
    ∃ s, (step fun _ _ => false).run initial undisturbed = some s ∧ s.queueEmpty = true ∧ Safe s := by
  have reached : (step fun _ _ => false).run initial undisturbed =
      some ⟨fun _ => .outside, .relocking, [], true, [0], [(0, true)]⟩ := rfl
  refine ⟨_, reached, rfl, (empty_queue_reliable_of_careful reached).1 ?_⟩
  refine ⟨trivial, trivial, trivial, ?_⟩
  iterate 6 refine ⟨fun tested => (by cases tested), ?_⟩
  exact ⟨fun _ => .inl rfl, trivial⟩

/-- A second statement is pushed after the test and before the write. -/
theorem queue_empty_while_statement_waits :
    ¬ ∀ (actions : List (Action Unit Nat)) (s : State Unit Nat),
      (step fun _ _ => false).run initial actions = some s → Safe s := by
  intro all
  have safe := all
    [.push () 0, .unempty (), .notify (), .advance, .advance, .advance, .advance, .advance,
      .advance, .push () 1, .unempty (), .notify (), .advance] _ rfl
  have executed := safe rfl fun _ => rfl
  cases executed

end Sws.Database.Monitor
