import Sws.DbQueue

/-! Whether a worker of `db_queue` lets go of its mutex. The lock is released in `cv.wait`, when the
condition fails, and around the call that handles an entry. With the flag down the condition never
fails and no entry is taken, so neither place is reached. -/
namespace Sws.DbQueue

variable {α β γ : Type*}

namespace WorkerAt

/-- The worker has found an entry to take, and goes on to the unlock whatever the flag says. -/
def decided : WorkerAt α → Bool
  | .popping | .taken _ => true
  | _ => false

/-- The worker holds the mutex in a loop that takes nothing. -/
def spins (w : WorkerAt α) : Prop := w.holds = true ∧ w.decided = false

end WorkerAt

namespace Lane

/-- How many statements a worker that finds the flag up is from a place without the mutex. -/
def toRelease (l : Lane α) : Nat :=
  match l.worker with
  | .deciding => if l.queue = [] then 6 else 3
  | .head => 5
  | .testing => 4
  | .popping => 2
  | .taken _ => 1
  | .start | .waiting | .woken | .handing _ | .relocking => 0

theorem toRelease_of_free {l : Lane α} (free : l.worker.holds = false) : l.toRelease = 0 := by
  obtain ⟨queue, worker, pushed, handed⟩ := l
  cases worker <;> first | rfl | cases free

/-- A worker with the mutex comes closer to a release when the flag is up or it has decided. -/
theorem advance_closer {shape : Shape} {monitor : Bool} {l : Lane α} (sound : l.Sound)
    (frees : monitor = true ∨ l.worker.decided = true) (holds : l.worker.holds = true) :
    ∃ m, l.advance shape monitor = some m ∧
      (monitor = true ∨ m.worker.holds = false ∨ m.worker.decided = true) ∧
      m.toRelease < l.toRelease := by
  obtain ⟨queue, worker, pushed, handed⟩ := l
  cases worker with
  | popping =>
    cases queue with
    | nil => exact absurd rfl (sound.popping rfl)
    | cons x rest => exact ⟨_, rfl, .inr (.inr rfl), by simp [toRelease]⟩
  | taken x => exact ⟨_, rfl, .inr (.inl rfl), by simp [toRelease]⟩
  | head | testing | deciding =>
    have up : monitor = true := frees.resolve_right (by simp [WorkerAt.decided])
    refine ⟨_, rfl, .inl up, ?_⟩
    cases queue <;> simp [toRelease, up]
  | start | waiting | woken | handing | relocking => cases holds

/-- With the flag down a worker that spins goes on to spin. -/
theorem advance_spins {shape : Shape} {l m : Lane α} (spins : l.worker.spins)
    (taken : l.advance shape false = some m) : m.worker.spins := by
  obtain ⟨queue, worker, pushed, handed⟩ := l
  obtain ⟨holds, undecided⟩ := spins
  cases worker with
  | head =>
    cases taken
    cases shape <;> exact ⟨rfl, rfl⟩
  | testing | deciding =>
    cases taken
    simp [WorkerAt.spins, WorkerAt.holds, WorkerAt.decided]
  | popping | taken => cases undecided
  | start | waiting | woken | handing | relocking => cases holds

end Lane

/-- What the others may do while the flag stays as it is: push, handle entries of their own, scan,
and wake the worker. -/
def Others (own : Action α β) (s t : State α β) : Prop :=
  ∃ a, a ≠ own ∧ step s a = some t ∧ t.monitor = s.monitor

/-- Whatever the others do, finitely many steps of the worker lead to a place without the mutex,
where a push completes. -/
def Releases (own : Action α β) (lane : State α β → Lane γ) (push : γ → Action α β) :
    State α β → Prop :=
  Steps.Ensures (fun t => step t own) (Others own) fun t =>
    (lane t).worker.holds = false ∧ ∀ x, (step t (push x)).isSome = true

/-- The part of the state that one worker and the pushes to it share. -/
structure Serves (own : Action α β) (shape : Shape) (lane : State α β → Lane γ)
    (push : γ → Action α β) : Prop where
  advances : ∀ s : State α β, (step s own).map (fun t => (t.monitor, lane t)) =
    ((lane s).advance shape s.monitor).map fun l => (s.monitor, l)
  others : ∀ (s t : State α β) (a : Action α β), a ≠ own → step s a = some t →
    lane t = lane s ∨ (lane s).worker.holds = false ∧ (lane t).worker.holds = false
  sound : ∀ s : State α β, Sound s → (lane s).Sound
  pushes : ∀ (s : State α β) (x : γ), (step s (push x)).isSome = !(lane s).worker.holds

theorem push_isSome (l : Lane α) (x : α) : (l.push x).isSome = !l.worker.holds := by
  cases held : l.worker.holds <;> simp [Lane.push, held]

theorem push_free {l m : Lane α} {x : α} (taken : l.push x = some m) :
    l.worker.holds = false ∧ m.worker.holds = false := by
  simp only [Lane.push, Option.ite_none_right_eq_some, Option.some.injEq] at taken
  obtain ⟨free, rfl⟩ := taken
  exact ⟨free, free⟩

theorem wake_keeps {shape : Shape} {monitor : Bool} {l m : Lane α}
    (taken : l.step shape monitor .wake = some m) :
    m = l ∨ l.worker.holds = false ∧ m.worker.holds = false := by
  obtain ⟨queue, worker, pushed, handed⟩ := l
  cases taken
  cases worker with
  | waiting => exact .inr ⟨rfl, rfl⟩
  | _ => exact .inl rfl

theorem serves_songs :
    Serves (.update .advance : Action α β) .whileLoop State.songs Action.pushSong where
  advances s := by
    simp only [step, Lane.step, Option.map_map]
    rfl
  others s t a other taken := by
    cases a with
    | pushSong x =>
      obtain ⟨l, pushed, rfl⟩ := Option.map_eq_some_iff.mp taken
      exact .inr (push_free pushed)
    | update a =>
      obtain ⟨l, moved, rfl⟩ := Option.map_eq_some_iff.mp taken
      cases a with
      | wake => exact wake_keeps moved
      | advance => exact absurd rfl other
    | pushDuration _ | duration _ =>
      obtain ⟨l, -, rfl⟩ := Option.map_eq_some_iff.mp taken
      exact .inl rfl
    | beginPopulate =>
      cases taken
      exact .inl rfl
    | endPopulate =>
      simp only [step, Option.ite_none_left_eq_some, Option.some.injEq] at taken
      obtain ⟨-, rfl⟩ := taken
      exact .inl rfl
  sound s sound := sound.songs
  pushes s x := by rw [step, Option.isSome_map, push_isSome]

theorem serves_durations :
    Serves (.duration .advance : Action α β) .doWhile State.durations Action.pushDuration where
  advances s := by
    simp only [step, Lane.step, Option.map_map]
    rfl
  others s t a other taken := by
    cases a with
    | pushDuration x =>
      obtain ⟨l, pushed, rfl⟩ := Option.map_eq_some_iff.mp taken
      exact .inr (push_free pushed)
    | duration a =>
      obtain ⟨l, moved, rfl⟩ := Option.map_eq_some_iff.mp taken
      cases a with
      | wake => exact wake_keeps moved
      | advance => exact absurd rfl other
    | pushSong _ | update _ =>
      obtain ⟨l, -, rfl⟩ := Option.map_eq_some_iff.mp taken
      exact .inl rfl
    | beginPopulate =>
      cases taken
      exact .inl rfl
    | endPopulate =>
      simp only [step, Option.ite_none_left_eq_some, Option.some.injEq] at taken
      obtain ⟨-, rfl⟩ := taken
      exact .inl rfl
  sound s sound := sound.durations
  pushes s x := by rw [step, Option.isSome_map, push_isSome]

namespace Serves

variable {own : Action α β} {shape : Shape} {lane : State α β → Lane γ} {push : γ → Action α β}
  {s t : State α β}

theorem advance_of_step (serves : Serves own shape lane push) (taken : step s own = some t) :
    t.monitor = s.monitor ∧ (lane s).advance shape s.monitor = some (lane t) := by
  have same := serves.advances s
  rw [taken, Option.map_some, eq_comm, Option.map_eq_some_iff] at same
  obtain ⟨l, moved, pair⟩ := same
  obtain ⟨flag, rfl⟩ := Prod.mk.inj pair
  exact ⟨flag.symm, moved⟩

theorem step_of_advance (serves : Serves own shape lane push) {l : Lane γ}
    (moved : (lane s).advance shape s.monitor = some l) :
    ∃ t, step s own = some t ∧ t.monitor = s.monitor ∧ lane t = l := by
  have same := serves.advances s
  rw [moved, Option.map_some, Option.map_eq_some_iff] at same
  obtain ⟨t, taken, pair⟩ := same
  exact ⟨t, taken, (Prod.mk.inj pair).1, (Prod.mk.inj pair).2⟩

/-- Where the worker is, as far as the others can change it. -/
theorem others_keep (serves : Serves own shape lane push) (moved : Others own s t) :
    t.monitor = s.monitor ∧ (lane t).worker.holds = (lane s).worker.holds ∧
      ((lane s).worker.holds = true → lane t = lane s) := by
  obtain ⟨a, other, taken, flag⟩ := moved
  rcases serves.others s t a other taken with same | ⟨before, after⟩
  · exact ⟨flag, by rw [same], fun _ => same⟩
  · exact ⟨flag, after.trans before.symm, fun holds => by simp [before] at holds⟩

/-- The flag is up, or the worker has let go, or it is about to. -/
def Frees (lane : State α β → Lane γ) (s : State α β) : Prop :=
  s.monitor = true ∨ (lane s).worker.holds = false ∨ (lane s).worker.decided = true

theorem releases_of_frees (serves : Serves own shape lane push) (sound : Sound s)
    (frees : Frees lane s) : Releases own lane push s := by
  refine Steps.Ensures.of_rank (fun t => Sound t ∧ Frees lane t) (fun t => (lane t).toRelease)
    ?_ ?_ ⟨sound, frees⟩
  · rintro t u ⟨sound, frees⟩ moved
    obtain ⟨flag, holds, same⟩ := serves.others_keep moved
    obtain ⟨a, -, taken, -⟩ := moved
    refine ⟨⟨sound_step t a u sound taken, ?_⟩, ?_⟩
    · rcases frees with up | free | decided
      · exact .inl (flag.trans up)
      · exact .inr (.inl (holds.trans free))
      · cases held : (lane t).worker.holds with
        | false => exact .inr (.inl (holds.trans held))
        | true => exact .inr (.inr (by rw [same held, decided]))
    · cases held : (lane t).worker.holds with
      | false => exact Nat.le_of_eq (by rw [Lane.toRelease_of_free (holds.trans held), Lane.toRelease_of_free held])
      | true => exact Nat.le_of_eq (by rw [same held])
  · rintro t ⟨sound, frees⟩ unmet
    have held : (lane t).worker.holds = true := by
      cases free : (lane t).worker.holds with
      | false => exact absurd ⟨free, fun x => by simp [serves.pushes, free]⟩ unmet
      | true => rfl
    have able : t.monitor = true ∨ (lane t).worker.decided = true := by
      simpa [Frees, held] using frees
    obtain ⟨l, moved, after, less⟩ := Lane.advance_closer (serves.sound t sound) able held
    obtain ⟨u, taken, flag, rfl⟩ := serves.step_of_advance moved
    exact ⟨u, taken, ⟨sound_step t own u sound taken, by rwa [Frees, flag]⟩, less⟩

theorem not_releases_of_spins (serves : Serves own shape lane push) (down : s.monitor = false)
    (spins : (lane s).worker.spins) : ¬ Releases own lane push s := by
  intro releases
  refine releases.false_of_stuck (fun t => t.monitor = false ∧ (lane t).worker.spins) ?_ ?_ ⟨down, spins⟩
  · rintro t ⟨-, spins⟩ ⟨free, -⟩
    simp [spins.1] at free
  · rintro t u ⟨down, spins⟩ taken
    obtain ⟨flag, moved⟩ := serves.advance_of_step taken
    rw [down] at moved flag
    exact ⟨flag, Lane.advance_spins spins moved⟩

theorem releases_iff (serves : Serves own shape lane push) (sound : Sound s) :
    Releases own lane push s ↔ Frees lane s := by
  refine ⟨fun releases => ?_, serves.releases_of_frees sound⟩
  by_contra stuck
  simp only [Frees, not_or, Bool.not_eq_true, Bool.not_eq_false] at stuck
  exact serves.not_releases_of_spins stuck.1 ⟨stuck.2.1, stuck.2.2⟩ releases

end Serves

/-- **A worker keeps its mutex once a scan has begun.** In every reachable state each worker lets
its mutex go, whatever the others do, exactly when no scan has ever begun, or it does not hold the
mutex, or it has already decided to take an entry. -/
theorem mutex_released_iff {actions : List (Action α β)} {s : State α β}
    (reached : step.run initial actions = some s) :
    (Releases (.update .advance) State.songs Action.pushSong s ↔ .beginPopulate ∉ actions ∨
      s.songs.worker.holds = false ∨ s.songs.worker.decided = true) ∧
    (Releases (.duration .advance) State.durations Action.pushDuration s ↔ .beginPopulate ∉ actions ∨
      s.durations.worker.holds = false ∨ s.durations.worker.decided = true) := by
  have sound := sound_run reached
  rw [← monitor_iff reached]
  exact ⟨serves_songs.releases_iff sound, serves_durations.releases_iff sound⟩

/-- An entry that the worker has taken when the scan begins. -/
theorem mutex_released_when_taken :
    ∃ s : State Nat Nat, step.run initial [.pushSong 7, .update .advance, .update .advance,
        .update .advance, .update .advance, .beginPopulate] = some s ∧
      s.monitor = false ∧ s.songs.worker.holds = true ∧
      Releases (.update .advance) State.songs Action.pushSong s := by
  have reached : step.run (initial : State Nat Nat) [.pushSong 7, .update .advance, .update .advance,
      .update .advance, .update .advance, .beginPopulate] =
      some ⟨false, 1, ⟨[7], .popping, [7], []⟩, {}⟩ := rfl
  exact ⟨_, reached, rfl, rfl, (mutex_released_iff reached).1.mpr (.inr (.inr rfl))⟩

/-- A scan that begins before the workers take their locks. -/
theorem mutex_kept_while_paused :
    ¬ ∀ (actions : List (Action Nat Nat)) (s : State Nat Nat),
      step.run initial actions = some s →
        Releases (.update .advance) State.songs Action.pushSong s ∧
        Releases (.duration .advance) State.durations Action.pushDuration s := by
  intro all
  have released := all [.beginPopulate, .update .advance, .duration .advance] _ rfl
  exact serves_songs.not_releases_of_spins rfl ⟨rfl, rfl⟩ released.1

end Sws.DbQueue
