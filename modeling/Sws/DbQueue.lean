import Sws.Database.Monitor

/-! The two queues of `db_queue` and their worker loops. Both loops hold their mutex from one
iteration to the next and wait on the one condition variable; they differ in where they test the
flag `monitor`, which a library scan writes. A push is one action, taken while the worker does not
hold the mutex; the workers go on statement by statement. -/
namespace Sws.DbQueue

open Database

/-- `monitor_update` tests the flag before the body of its loop, `monitor_duration` after it. -/
inductive Shape
  | whileLoop
  | doWhile
  deriving DecidableEq, Repr

/-- Where a worker is in its loops. -/
inductive WorkerAt (α : Type*)
  /-- Before the lock is taken. -/
  | start
  /-- At the condition of the inner loop. -/
  | head
  /-- In `cv.wait`, about to test the condition. -/
  | testing
  | waiting
  /-- Woken, without the mutex. -/
  | woken
  /-- Before `if (monitor && queue.size())`. -/
  | deciding
  /-- Past it, before `front` and `pop`. -/
  | popping
  | taken (x : α)
  /-- In `db::update_track` or `db::update_duration`. -/
  | handing (x : α)
  | relocking
  deriving DecidableEq, Repr

namespace WorkerAt

variable {α : Type*}

/-- Whether the worker holds its mutex. -/
def holds : WorkerAt α → Bool
  | .head | .testing | .deciding | .popping | .taken _ => true
  | .start | .waiting | .woken | .handing _ | .relocking => false

def inFlight : WorkerAt α → Option α
  | .taken x | .handing x => some x
  | _ => none

end WorkerAt

/-- One queue with its worker. -/
structure Lane (α : Type*) where
  queue : List α := []
  worker : WorkerAt α := .start
  /-- The entries in the order in which their pushes took the lock. -/
  pushed : List α := []
  /-- The entries handed to the database. -/
  handed : List α := []

/-- The steps of a worker; a wake-up may come from `notify_all` or from nowhere. -/
inductive WorkerAction
  | wake
  | advance
  deriving DecidableEq, Repr

namespace Lane

variable {α : Type*}

def push (x : α) (l : Lane α) : Option (Lane α) :=
  if l.worker.holds = false then some { l with queue := l.queue ++ [x], pushed := l.pushed ++ [x] }
  else none

/-- The next statement of the worker. A worker that finds the flag down goes round its loops with
the mutex in its hands. -/
def advance (shape : Shape) (monitor : Bool) (l : Lane α) : Option (Lane α) :=
  match l.worker with
  | .start => some { l with worker := if shape = .whileLoop then .head else .testing }
  | .head => some { l with worker := if shape = .whileLoop ∧ monitor = false then .head else .testing }
  | .testing => some { l with worker := if l.queue ≠ [] ∨ monitor = false then .deciding else .waiting }
  | .waiting => none
  | .woken => some { l with worker := .testing }
  | .deciding => some { l with worker := if monitor = true ∧ l.queue ≠ [] then .popping else .head }
  | .popping =>
    match l.queue with
    | [] => none
    | x :: rest => some { l with worker := .taken x, queue := rest }
  | .taken x => some { l with worker := .handing x }
  | .handing x => some { l with worker := .relocking, handed := l.handed ++ [x] }
  | .relocking => some { l with worker := .head }

def step (shape : Shape) (monitor : Bool) : Steps (Lane α) WorkerAction
  | l, .wake => some { l with worker := if l.worker matches .waiting then .woken else l.worker }
  | l, .advance => l.advance shape monitor

end Lane

structure State (α β : Type*) where
  monitor : Bool
  /-- The runs of `player::populate` in progress. -/
  populating : Nat
  songs : Lane α
  durations : Lane β

inductive Action (α β : Type*)
  | pushSong (s : α)
  | pushDuration (s : β)
  /-- `populate` up to its first assignment to the flag. -/
  | beginPopulate
  /-- `populate` from its last assignment to the flag. -/
  | endPopulate
  | update (a : WorkerAction)
  | duration (a : WorkerAction)
  deriving DecidableEq, Repr

variable {α β : Type*}

def initial : State α β := { monitor := true, populating := 0, songs := {}, durations := {} }

def step : Steps (State α β) (Action α β)
  | s, .pushSong x => (s.songs.push x).map fun l => { s with songs := l }
  | s, .pushDuration x => (s.durations.push x).map fun l => { s with durations := l }
  | s, .beginPopulate => some { s with monitor := false, populating := s.populating + 1 }
  | s, .endPopulate =>
    if s.populating = 0 then none
    else some { s with monitor := false, populating := s.populating - 1 }
  | s, .update a => (s.songs.step .whileLoop s.monitor a).map fun l => { s with songs := l }
  | s, .duration a => (s.durations.step .doWhile s.monitor a).map fun l => { s with durations := l }

/-! ### Order -/

namespace Lane

def account (l : Lane α) : Fifo α where
  done := l.handed
  flight := l.worker.inFlight
  waiting := l.queue

/-- Nothing is lost or reordered, and a worker about to pop has something to pop. -/
structure Sound (l : Lane α) : Prop where
  ordered : l.account.contents = l.pushed
  popping : l.worker = .popping → l.queue ≠ []

theorem Sound.push {l m : Lane α} {x : α} (sound : l.Sound) (taken : l.push x = some m) : m.Sound := by
  simp only [Lane.push, Option.ite_none_right_eq_some, Option.some.injEq] at taken
  obtain ⟨-, rfl⟩ := taken
  refine ⟨?_, fun _ => by simp⟩
  have arrived := (Fifo.Move.arrive l.account x).contents_eq
  rwa [sound.ordered] at arrived

theorem step_moves {shape : Shape} {monitor : Bool} {l m : Lane α} {a : WorkerAction}
    (taken : l.step shape monitor a = some m) :
    l.account.Move [] m.account ∧ m.pushed = l.pushed := by
  obtain ⟨queue, worker, pushed, handed⟩ := l
  cases a with
  | wake =>
    cases taken
    refine ⟨?_, rfl⟩
    cases worker <;> exact .idle _
  | advance =>
    cases worker with
    | waiting => cases taken
    | popping =>
      cases queue with
      | nil => cases taken
      | cons x rest =>
        cases taken
        exact ⟨.take _ x rest, rfl⟩
    | handing x =>
      cases taken
      exact ⟨.finish handed x queue, rfl⟩
    | _ =>
      cases taken
      refine ⟨?_, rfl⟩
      simp only [account, WorkerAt.inFlight]
      first
        | exact .idle _
        | split_ifs <;> exact .idle _

theorem Sound.step {shape : Shape} {monitor : Bool} {l m : Lane α} {a : WorkerAction}
    (sound : l.Sound) (taken : l.step shape monitor a = some m) : m.Sound := by
  obtain ⟨move, same⟩ := step_moves taken
  refine ⟨by rw [move.contents_eq, same, sound.ordered, List.append_nil], ?_⟩
  obtain ⟨queue, worker, pushed, handed⟩ := l
  cases a with
  | wake =>
    cases taken
    cases worker <;> simp_all [sound.popping]
  | advance =>
    cases worker with
    | waiting => cases taken
    | popping =>
      cases queue with
      | nil => cases taken
      | cons x rest =>
        cases taken
        simp
    | deciding =>
      cases taken
      intro popping
      have tested : monitor = true ∧ queue ≠ [] := by simpa using popping
      exact tested.2
    | _ =>
      cases taken
      intro popping
      simp only [] at popping
      first
        | cases popping
        | split_ifs at popping

end Lane

structure Sound (s : State α β) : Prop where
  songs : s.songs.Sound
  durations : s.durations.Sound

theorem sound_step (s : State α β) (a : Action α β) (t : State α β) (sound : Sound s)
    (taken : step s a = some t) : Sound t := by
  cases a with
  | pushSong x =>
    obtain ⟨l, pushed, rfl⟩ := Option.map_eq_some_iff.mp taken
    exact ⟨sound.songs.push pushed, sound.durations⟩
  | pushDuration x =>
    obtain ⟨l, pushed, rfl⟩ := Option.map_eq_some_iff.mp taken
    exact ⟨sound.songs, sound.durations.push pushed⟩
  | beginPopulate =>
    cases taken
    exact ⟨sound.songs, sound.durations⟩
  | endPopulate =>
    simp only [step, Option.ite_none_left_eq_some, Option.some.injEq] at taken
    obtain ⟨-, rfl⟩ := taken
    exact ⟨sound.songs, sound.durations⟩
  | update a =>
    obtain ⟨l, moved, rfl⟩ := Option.map_eq_some_iff.mp taken
    exact ⟨sound.songs.step moved, sound.durations⟩
  | duration a =>
    obtain ⟨l, moved, rfl⟩ := Option.map_eq_some_iff.mp taken
    exact ⟨sound.songs, sound.durations.step moved⟩

/-- The song an action brings in. -/
def Action.song : Action α β → Option α
  | .pushSong x => some x
  | _ => none

/-- The songs pushed in a run, in the order of their critical sections. -/
def songs (actions : List (Action α β)) : List α := actions.filterMap Action.song

theorem pushed_step {s t : State α β} {a : Action α β} (taken : step s a = some t) :
    t.songs.pushed = s.songs.pushed ++ a.song.toList := by
  cases a with
  | pushSong x =>
    obtain ⟨l, pushed, rfl⟩ := Option.map_eq_some_iff.mp taken
    simp only [Lane.push, Option.ite_none_right_eq_some, Option.some.injEq] at pushed
    obtain ⟨-, rfl⟩ := pushed
    rfl
  | update a =>
    obtain ⟨l, moved, rfl⟩ := Option.map_eq_some_iff.mp taken
    exact (Lane.step_moves moved).2.trans (List.append_nil _).symm
  | pushDuration | duration =>
    obtain ⟨l, -, rfl⟩ := Option.map_eq_some_iff.mp taken
    exact (List.append_nil _).symm
  | beginPopulate =>
    cases taken
    exact (List.append_nil _).symm
  | endPopulate =>
    simp only [step, Option.ite_none_left_eq_some, Option.some.injEq] at taken
    obtain ⟨-, rfl⟩ := taken
    exact (List.append_nil _).symm

theorem pushed_run {actions : List (Action α β)} {s t : State α β} (reached : step.run s actions = some t) :
    t.songs.pushed = s.songs.pushed ++ songs actions := by
  induction actions generalizing s with
  | nil =>
    cases reached
    exact (List.append_nil _).symm
  | cons a actions ih =>
    obtain ⟨middle, taken, rest⟩ := Steps.run_cons_iff.mp reached
    rw [ih rest, pushed_step taken, List.append_assoc, songs, songs, List.filterMap_cons]
    cases a.song <;> rfl

theorem sound_run {actions : List (Action α β)} {s : State α β}
    (reached : step.run initial actions = some s) : Sound s :=
  Steps.preserved sound_step reached ⟨⟨rfl, by simp [initial]⟩, ⟨rfl, by simp [initial]⟩⟩

/-! ### Progress of one lane -/

namespace Lane

/-- The entry the worker has decided to take and not yet taken. -/
def committed (l : Lane α) : Nat :=
  match l.worker with
  | .popping => 1
  | _ => 0

/-- How far a worker is from its next entry. -/
def rank : WorkerAt α → Nat
  | .taken _ => 11
  | .handing _ => 10
  | .relocking => 9
  | .start => 8
  | .head => 7
  | .waiting => 6
  | .woken => 5
  | .testing => 4
  | .deciding => 3
  | .popping => 2

def distance (l : Lane α) : Nat := 12 * l.queue.length + rank l.worker

def Drained (l : Lane α) : Prop := l.queue = [] ∧ l.worker.inFlight = none

/-- The worker can still take what waits: the flag is up, or what waits is already its own. -/
structure Ready (monitor : Bool) (l : Lane α) : Prop where
  sound : l.Sound
  takes : monitor = true ∨ l.queue.length ≤ l.committed

/-- A worker that can still take what waits comes closer to the end of its queue. -/
theorem Ready.closer {shape : Shape} {monitor : Bool} {l : Lane α} (ready : l.Ready monitor)
    (busy : ¬ l.Drained) :
    ∃ a m, l.step shape monitor a = some m ∧ m.Ready monitor ∧ m.distance < l.distance := by
  have next (a : WorkerAction) (m : Lane α) (taken : l.step shape monitor a = some m)
      (takes : monitor = true ∨ m.queue.length ≤ m.committed) (less : m.distance < l.distance) :
      ∃ a m, l.step shape monitor a = some m ∧ m.Ready monitor ∧ m.distance < l.distance :=
    ⟨a, m, taken, ⟨ready.sound.step taken, takes⟩, less⟩
  obtain ⟨sound, takes⟩ := ready
  obtain ⟨queue, worker, pushed, handed⟩ := l
  simp only [Drained, not_and] at busy
  cases worker with
  | taken x =>
    exact next .advance _ rfl takes (by simp [distance, rank])
  | handing x =>
    exact next .advance _ rfl takes (by simp [distance, rank])
  | popping =>
    cases queue with
    | nil => exact absurd rfl (sound.popping rfl)
    | cons x rest =>
      refine next .advance _ rfl ?_ (by simp [distance, rank]; omega)
      simpa [committed] using takes
  | _ =>
    have held : queue ≠ [] := fun empty => busy empty rfl
    have up : monitor = true := by
      refine takes.resolve_right fun few => held ?_
      simpa [committed] using few
    subst up
    cases shape
    all_goals first
      | exact next .advance _ rfl (.inl rfl) (by simp [distance, rank, held])
      | exact next .wake _ rfl (.inl rfl) (by simp [distance, rank])

theorem Ready.reaches_drained {shape : Shape} {monitor : Bool} {l : Lane α}
    (ready : l.Ready monitor) :
    ∃ m, (Lane.step shape monitor).Reaches (fun _ => True) l m ∧
      (m.Ready monitor ∧ m.pushed = l.pushed) ∧ m.Drained := by
  refine Steps.reaches_goal (Lane.step shape monitor) (fun _ => True)
    (fun m => m.Ready monitor ∧ m.pushed = l.pushed) Drained distance ?_ ⟨ready, rfl⟩
  rintro m ⟨kept, same⟩ busy
  obtain ⟨a, n, taken, after, less⟩ := kept.closer busy
  exact ⟨a, n, trivial, taken, ⟨after, (step_moves taken).2.trans same⟩, less⟩

/-- With the flag down, what the worker has not decided to take stays in the queue. -/
theorem blocked_step {shape : Shape} {l m : Lane α} {a : WorkerAction}
    (blocked : l.committed < l.queue.length) (taken : l.step shape false a = some m) :
    m.committed < m.queue.length := by
  obtain ⟨queue, worker, pushed, handed⟩ := l
  cases a with
  | wake =>
    cases taken
    cases worker <;> simpa [committed] using blocked
  | advance =>
    cases worker with
    | waiting => cases taken
    | popping =>
      cases queue with
      | nil => cases taken
      | cons x rest =>
        cases taken
        simpa [committed] using blocked
    | _ =>
      cases shape <;> cases taken <;> simpa [committed] using blocked

end Lane

/-! ### Progress of both -/

/-- The workers' own steps, wake-ups included. -/
def Action.own : Action α β → Prop
  | .update _ | .duration _ => True
  | _ => False

/-- A worker's run is a run of the whole in which nothing else changes. -/
theorem reaches_songs {s : State α β} {l : Lane α}
    (reached : (Lane.step .whileLoop s.monitor).Reaches (fun _ => True) s.songs l) :
    step.Reaches Action.own s { s with songs := l } := by
  obtain ⟨actions, -, run⟩ := reached
  induction actions generalizing s with
  | nil =>
    cases run
    exact .refl s
  | cons a actions ih =>
    obtain ⟨m, taken, rest⟩ := Steps.run_cons_iff.mp run
    have first : step s (.update a) = some { s with songs := m } := by simp [step, taken]
    exact (Steps.Reaches.single (a := .update a) trivial first).trans (ih (s := { s with songs := m }) rest)

theorem reaches_durations {s : State α β} {l : Lane β}
    (reached : (Lane.step .doWhile s.monitor).Reaches (fun _ => True) s.durations l) :
    step.Reaches Action.own s { s with durations := l } := by
  obtain ⟨actions, -, run⟩ := reached
  induction actions generalizing s with
  | nil =>
    cases run
    exact .refl s
  | cons a actions ih =>
    obtain ⟨m, taken, rest⟩ := Steps.run_cons_iff.mp run
    have first : step s (.duration a) = some { s with durations := m } := by simp [step, taken]
    exact (Steps.Reaches.single (a := .duration a) trivial first).trans
      (ih (s := { s with durations := m }) rest)

/-- Both queues are empty, and everything pushed before `s` has been handed on. -/
structure EmptiedFrom (s t : State α β) : Prop where
  songs : t.songs.queue = [] ∧ t.songs.handed = s.songs.pushed
  durations : t.durations.queue = [] ∧ t.durations.handed = s.durations.pushed

/-- The workers alone can empty both queues. -/
def Recovers (s : State α β) : Prop := ∃ t, step.Reaches Action.own s t ∧ EmptiedFrom s t

theorem Lane.handed_of_drained {l : Lane α} (sound : l.Sound) (drained : l.Drained) :
    l.handed = l.pushed := by
  rw [← sound.ordered, Fifo.contents_of_idle drained.2 drained.1]
  rfl

theorem recovers_of_ready {s : State α β} (songs : s.songs.Ready s.monitor)
    (durations : s.durations.Ready s.monitor) : Recovers s := by
  obtain ⟨l, reachedSongs, ⟨readySongs, sameSongs⟩, drainedSongs⟩ := songs.reaches_drained
  obtain ⟨m, reachedDurations, ⟨readyDurations, sameDurations⟩, drainedDurations⟩ :=
    durations.reaches_drained
  refine ⟨{ s with songs := l, durations := m }, ?_, ?_, ?_⟩
  · exact (reaches_songs reachedSongs).trans (reaches_durations (s := { s with songs := l }) reachedDurations)
  · exact ⟨drainedSongs.1, (Lane.handed_of_drained readySongs.sound drainedSongs).trans sameSongs⟩
  · exact ⟨drainedDurations.1,
      (Lane.handed_of_drained readyDurations.sound drainedDurations).trans sameDurations⟩

/-- With the flag down, some entry waits that no worker has decided to take. -/
def Blocked (s : State α β) : Prop :=
  s.monitor = false ∧ (s.songs.committed < s.songs.queue.length ∨
    s.durations.committed < s.durations.queue.length)

theorem blocked_step (s : State α β) (a : Action α β) (t : State α β) (blocked : Blocked s)
    (own : a.own) (taken : step s a = some t) : Blocked t := by
  obtain ⟨down, waiting⟩ := blocked
  cases a with
  | update a =>
    obtain ⟨l, moved, rfl⟩ := Option.map_eq_some_iff.mp taken
    rw [down] at moved
    exact ⟨down, waiting.imp_left fun held => Lane.blocked_step held moved⟩
  | duration a =>
    obtain ⟨l, moved, rfl⟩ := Option.map_eq_some_iff.mp taken
    rw [down] at moved
    exact ⟨down, waiting.imp_right fun held => Lane.blocked_step held moved⟩
  | _ => cases own

theorem not_recovers_of_blocked {s : State α β} (blocked : Blocked s) : ¬ Recovers s := by
  rintro ⟨t, reached, emptied⟩
  obtain ⟨-, waiting⟩ := reached.preserved blocked_step blocked
  rw [emptied.songs.1, emptied.durations.1] at waiting
  simp at waiting

/-- While the flag is up no scan has begun, so none is running. -/
theorem monitor_step {s t : State α β} {a : Action α β} (quiet : s.monitor = true → s.populating = 0)
    (taken : step s a = some t) :
    (t.monitor = true → t.populating = 0) ∧
      (t.monitor = true ↔ s.monitor = true ∧ a ≠ .beginPopulate) := by
  cases a with
  | beginPopulate =>
    cases taken
    simp
  | endPopulate =>
    simp only [step, Option.ite_none_left_eq_some, Option.some.injEq] at taken
    obtain ⟨running, rfl⟩ := taken
    have down : s.monitor = false := by simpa using mt quiet running
    simp [down]
  | _ =>
    obtain ⟨l, -, rfl⟩ := Option.map_eq_some_iff.mp taken
    exact ⟨quiet, by simp⟩

theorem monitor_run {actions : List (Action α β)} {s t : State α β}
    (quiet : s.monitor = true → s.populating = 0) (reached : step.run s actions = some t) :
    t.monitor = true ↔ s.monitor = true ∧ .beginPopulate ∉ actions := by
  induction actions generalizing s with
  | nil =>
    cases reached
    simp
  | cons a actions ih =>
    obtain ⟨u, taken, rest⟩ := Steps.run_cons_iff.mp reached
    obtain ⟨after, up⟩ := monitor_step quiet taken
    rw [ih after rest, up, List.mem_cons, not_or, and_assoc, ne_comm]

/-- The flag is up exactly in the runs in which no scan has begun. -/
theorem monitor_iff {actions : List (Action α β)} {s : State α β}
    (reached : step.run initial actions = some s) : s.monitor = true ↔ .beginPopulate ∉ actions := by
  simpa [initial] using monitor_run (fun _ => rfl) reached

/-- **A scan disables the queues for good.** In every reachable state with no scan running, the
workers alone can empty both queues exactly when no scan has ever begun, or when each queue holds
nothing but what its worker has already decided to take. -/
theorem recovers_iff {actions : List (Action α β)} {s : State α β}
    (reached : step.run initial actions = some s) (_idle : s.populating = 0) :
    Recovers s ↔ .beginPopulate ∉ actions ∨
      (s.songs.queue.length ≤ s.songs.committed ∧
        s.durations.queue.length ≤ s.durations.committed) := by
  have sound := sound_run reached
  rw [← monitor_iff reached]
  constructor
  · intro recovers
    by_contra stuck
    rw [not_or, not_and_or, Nat.not_le, Nat.not_le, Bool.not_eq_true] at stuck
    exact not_recovers_of_blocked stuck recovers
  · intro takes
    exact recovers_of_ready ⟨sound.songs, takes.imp_right And.left⟩
      ⟨sound.durations, takes.imp_right And.right⟩

/-- A song and a duration that their workers have decided to take when a scan begins. -/
theorem recovers_with_entries_decided :
    Recovers ({
      monitor := false
      populating := 0
      songs := { queue := [7], worker := .popping, pushed := [7] }
      durations := { queue := [9], worker := .popping, pushed := [9] } } : State Nat Nat) := by
  have reached : step.run (initial : State Nat Nat) ([.pushSong 7, .pushDuration 9] ++
      List.replicate 4 (.update .advance) ++ List.replicate 3 (.duration .advance) ++
        [.beginPopulate, .endPopulate]) = some {
          monitor := false
          populating := 0
          songs := { queue := [7], worker := .popping, pushed := [7] }
          durations := { queue := [9], worker := .popping, pushed := [9] } } := rfl
  exact (recovers_iff reached rfl).mpr (.inr ⟨by decide, by decide⟩)

/-- One complete scan, then one song. -/
theorem scan_disables_queues :
    ¬ ∀ (actions : List (Action Nat Nat)) (s : State Nat Nat),
      step.run initial actions = some s → s.populating = 0 → Recovers s := by
  intro all
  have recovers := all [.beginPopulate, .endPopulate, .pushSong 7]
    { monitor := false, populating := 0, songs := { queue := [7], pushed := [7] }, durations := {} } rfl rfl
  exact not_recovers_of_blocked ⟨rfl, .inl (by decide)⟩ recovers

/-! ### Both queues of the program -/

/-- **Every entry is handled once, in order.** Whatever fails, the statements executed, in flight
and waiting are those pushed, in the order of their critical sections, and the monitor can always
execute all of them; the same holds for the songs of `monitor_update` while the flag is up. -/
theorem entries_handled_once_in_order {ι γ : Type*} [DecidableEq ι] (fails : Nat → γ → Bool) :
    (∀ (actions : List (Monitor.Action ι γ)) (s : Monitor.State ι γ),
      (Monitor.step fails).run Monitor.initial actions = some s →
        s.executed.map Prod.fst ++ s.monitor.inFlight.toList ++ s.queries = (Monitor.pushes actions).map (·.2) ∧
        ∃ t, (Monitor.step fails).Reaches Monitor.Action.own s t ∧
          t.executed.map Prod.fst = (Monitor.pushes actions).map (·.2)) ∧
    (∀ (actions : List (Action α β)) (s : State α β), step.run initial actions = some s →
      s.songs.handed ++ s.songs.worker.inFlight.toList ++ s.songs.queue = songs actions ∧
      (s.monitor = true → ∃ t, step.Reaches Action.own s t ∧ t.songs.handed = songs actions)) := by
  refine ⟨fun actions s reached => ?_, fun actions s reached => ?_⟩
  · have ordered := Monitor.ordered_run reached
    have order : s.order = (Monitor.pushes actions).map (·.2) := Monitor.order_run reached
    rw [← order]
    refine ⟨ordered, ?_⟩
    obtain ⟨t, onwards, same, drained⟩ := Monitor.reaches_drained fails s
    have kept : Monitor.Ordered t := onwards.preserved
      (fun u a v held _ taken => Monitor.ordered_step u a v held taken) ordered
    refine ⟨t, onwards, ?_⟩
    rw [← same, ← kept, Fifo.contents_of_idle drained.2 drained.1]
    rfl
  · have sound := sound_run reached
    have pushed : s.songs.pushed = songs actions := pushed_run reached
    rw [← pushed]
    refine ⟨sound.songs.ordered, fun up => ?_⟩
    obtain ⟨t, onwards, emptied⟩ := recovers_of_ready ⟨sound.songs, .inl up⟩ ⟨sound.durations, .inl up⟩
    exact ⟨t, onwards, emptied.songs.2⟩

/-- Two statements of two threads, both failing; and two songs, the second pushed while the first is handed on. -/
theorem both_queues_handled :
    (∃ s t : Monitor.State Nat Nat,
      (Monitor.step fun _ _ => true).run Monitor.initial [.push 0 5, .advance, .advance, .advance,
        .advance, .push 1 8, .unempty 0] = some s ∧
      (Monitor.step fun _ _ => true).Reaches Monitor.Action.own s t ∧
      t.executed.map Prod.fst = [5, 8]) ∧
    ∃ s t : State Nat Nat,
      step.run initial ([.pushSong 7] ++ List.replicate 6 (.update .advance) ++ [.pushSong 9]) = some s ∧
      s.songs.worker = .handing 7 ∧ s.songs.queue = [9] ∧
      step.Reaches Action.own s t ∧ t.songs.handed = [7, 9] := by
  have both := entries_handled_once_in_order (ι := Nat) (γ := Nat) (α := Nat) (β := Nat) fun _ _ => true
  obtain ⟨-, t, onwards, all⟩ := both.1 [.push 0 5, .advance, .advance, .advance, .advance, .push 1 8,
    .unempty 0] _ rfl
  obtain ⟨-, recovers⟩ := both.2 ([.pushSong 7] ++ List.replicate 6 (.update .advance) ++ [.pushSong 9]) _ rfl
  obtain ⟨u, goes, handed⟩ := recovers rfl
  exact ⟨⟨_, t, rfl, onwards, all⟩, ⟨_, u, rfl, rfl, rfl, goes, handed⟩⟩

end Sws.DbQueue
