import Mathlib.Data.List.Induction
import Sws.Player

/-! Playback: what `is_playing`, `is_paused` and the pipeline say of each other, and how the end of
one track starts the next. -/
namespace Sws.Player

/-- `player::start`, up to its main loop. -/
def start (s : State) : Option State := play { s with isPlaying := false }

/-! ### The pipeline and the flags -/

/-- The pipeline is in the state that the two flags report. -/
structure Consistent (s : State) : Prop where
  playing : s.pipeline = .playing ↔ s.isPlaying = true ∧ s.isPaused = false
  paused : s.pipeline = .paused ↔ s.isPlaying = true ∧ s.isPaused = true
  null : s.pipeline = .null ↔ s.isPlaying = false

/-- The operations that end in a play. -/
def Op.Plays : Op → Prop
  | .pause | .stop => False
  | _ => True

/-- A sequence whose last operation but pauses is a `stop`. -/
def Halted (ops : List Op) : Prop := ∃ before n, ops = before ++ .stop :: List.replicate n .pause

variable {stale : Stale} {s t : State} {ops : List Op} {op : Op}

theorem halted_pause : Halted (ops ++ [.pause]) ↔ Halted ops := by
  constructor
  · rintro ⟨before, n, shape⟩
    cases n with
    | zero =>
      obtain ⟨-, last⟩ := List.append_inj' shape rfl
      cases last
    | succ n =>
      rw [List.replicate_succ', ← List.cons_append, ← List.append_assoc] at shape
      exact ⟨before, n, (List.append_inj' shape rfl).1⟩
  · rintro ⟨before, n, rfl⟩
    exact ⟨before, n + 1, by rw [List.replicate_succ', List.append_assoc, List.cons_append]⟩

theorem plays_of_ne (running : op ≠ .pause) (going : op ≠ .stop) : op.Plays := by
  cases op with
  | pause => exact running rfl
  | stop => exact going rfl
  | _ => trivial

/-- Only a `stop` or a `pause` ends a halted sequence. -/
theorem not_halted_of_plays (plays : op.Plays) : ¬ Halted (ops ++ [op]) := by
  rintro ⟨before, n, shape⟩
  have last : op ∈ Op.stop :: List.replicate n .pause := by
    have latest := congrArg List.getLast? shape
    rw [List.getLast?_concat, List.getLast?_append_of_ne_nil _ (List.cons_ne_nil _ _)] at latest
    exact List.mem_of_getLast? latest.symm
  rcases List.mem_cons.mp last with rfl | paused
  · exact plays
  · rw [List.eq_of_mem_replicate paused] at plays
    exact plays

theorem consistent_of_play (played : play s = some t) : Consistent t ∧ t.isPlaying = true := by
  obtain ⟨i, path, -, -, rfl⟩ := play_eq_some_iff.mp played
  exact ⟨⟨by simp, by simp, by simp⟩, rfl⟩

theorem is_playing_pause (s : State) : (pause s).isPlaying = s.isPlaying := by
  unfold pause
  split <;> rfl

/-- `pause` sets the pipeline by `is_paused` alone. -/
theorem consistent_pause_iff (s : State) : Consistent (pause s) ↔ s.isPlaying = true := by
  constructor
  · intro consistent
    by_contra halted
    have null := consistent.null.mpr (by simpa [is_playing_pause] using halted)
    by_cases paused : s.isPaused <;> simp [pause, paused] at null
  · intro playing
    by_cases paused : s.isPaused <;>
      exact ⟨by simp [pause, paused, playing], by simp [pause, paused, playing],
        by simp [pause, paused, playing]⟩

theorem consistent_stop (s : State) : Consistent (stop s) :=
  ⟨by simp [stop], by simp [stop], by simp [stop]⟩

/-- After `start` the player reports itself stopped exactly when the sequence is halted. -/
theorem is_playing_iff (playing : s.isPlaying = true) (reached : (step stale).run s ops = some t) :
    t.isPlaying = true ↔ ¬ Halted ops := by
  induction ops using List.reverseRecOn generalizing t with
  | nil =>
    cases reached
    refine iff_of_true playing ?_
    rintro ⟨before, n, shape⟩
    simp at shape
  | append_singleton ops op ih =>
    obtain ⟨u, first, last⟩ := Steps.run_append_iff.mp reached
    obtain ⟨v, taken, done⟩ := Steps.run_cons_iff.mp last
    cases done
    by_cases paused : op = .pause
    · subst paused
      cases taken
      rw [is_playing_pause, halted_pause]
      exact ih first
    by_cases stopped : op = .stop
    · subst stopped
      cases taken
      exact iff_of_false (by simp [stop]) (not_not.mpr ⟨ops, 0, rfl⟩)
    · obtain ⟨w, played, -, -⟩ := played_of_step taken paused stopped
      exact iff_of_true (consistent_of_play played).2
        (not_halted_of_plays (plays_of_ne paused stopped))

/-! ### The current track -/

/-- The sequence ends in a `stop` of a track that has a path. -/
def Ends (stale : Stale) (s : State) (ops : List Op) : Prop :=
  ∃ before u, ops = before ++ [.stop] ∧ (step stale).run s before = some u ∧ u.currentTrack ≠ ""

/-- An operation plays after a `stop` of a track that has a path. -/
def Reuses (stale : Stale) (s : State) : List Op → Prop := History.Since (Ends stale s) Op.Plays

theorem ends_concat (reached : (step stale).run s ops = some t) :
    Ends stale s (ops ++ [op]) ↔ op = .stop ∧ t.currentTrack ≠ "" := by
  constructor
  · rintro ⟨before, u, shape, first, path⟩
    obtain ⟨rfl, last⟩ := List.append_inj' shape rfl
    cases first.symm.trans reached
    exact ⟨(List.cons.inj last).1, path⟩
  · rintro ⟨rfl, path⟩
    exact ⟨ops, t, rfl, reached, path⟩

/-- What an operation does to the life of the current track. -/
theorem lifetime_of_step (taken : step stale s op = some t) :
    (op.Plays ∧ t.lifetime = s.lifetime.assigned) ∨
      (¬ op.Plays ∧ (op = .stop → s.currentTrack = "") ∧ t.lifetime = s.lifetime ∧
        t.currentTrack = s.currentTrack) ∨
      (op = .stop ∧ s.currentTrack ≠ "" ∧ t.lifetime = s.lifetime.ended ∧ t.currentTrack = "") := by
  by_cases paused : op = .pause
  · subst paused
    cases taken
    refine .inr (.inl ⟨id, nofun, ?_⟩)
    unfold pause
    split <;> exact ⟨rfl, rfl⟩
  by_cases stopped : op = .stop
  · subst stopped
    cases taken
    by_cases path : s.currentTrack = ""
    · exact .inr (.inl ⟨id, fun _ => path, if_pos path, path.symm⟩)
    · exact .inr (.inr ⟨rfl, path, if_neg path, rfl⟩)
  · obtain ⟨u, played, -, -, same⟩ := played_of_step taken paused stopped
    obtain ⟨i, path, -, -, rfl⟩ := play_eq_some_iff.mp played
    exact .inl ⟨plays_of_ne paused stopped, congrArg Lifetime.assigned same⟩

/-- How far the life of the current track has come. -/
structure Lives (stale : Stale) (s : State) (ops : List Op) (t : State) : Prop where
  misused : t.lifetime = .misused ↔ Reuses stale s ops
  ended : t.lifetime ≠ .alive ↔ History.Once (Ends stale s) ops
  empty : t.lifetime = .destroyed → t.currentTrack = ""

theorem lives_run (alive : s.lifetime = .alive) (reached : (step stale).run s ops = some t) :
    Lives stale s ops t := by
  induction ops using List.reverseRecOn generalizing t with
  | nil =>
    cases reached
    refine ⟨iff_of_false (by rw [alive]; nofun) History.not_since_nil, iff_of_false (not_not.mpr alive) ?_,
      fun ended => absurd (alive.symm.trans ended) nofun⟩
    rw [History.once_nil]
    rintro ⟨before, u, shape, -⟩
    simp at shape
  | append_singleton ops op ih =>
    obtain ⟨u, first, last⟩ := Steps.run_append_iff.mp reached
    obtain ⟨v, taken, done⟩ := Steps.run_cons_iff.mp last
    cases done
    obtain ⟨misused, ended, empty⟩ := ih first
    have since : Reuses stale s (ops ++ [op]) ↔ Reuses stale s ops ∨ History.Once (Ends stale s) ops ∧ op.Plays :=
      History.since_concat
    have once : History.Once (Ends stale s) (ops ++ [op]) ↔
        History.Once (Ends stale s) ops ∨ op = .stop ∧ u.currentTrack ≠ "" :=
      History.once_concat.trans (or_congr_right (ends_concat first))
    rw [← misused, ← ended] at since
    rw [← ended] at once
    refine ⟨Iff.trans ?_ since.symm, Iff.trans ?_ once.symm, ?_⟩
    all_goals
      rcases lifetime_of_step taken with ⟨plays, life⟩ | ⟨quiet, path, life, same⟩ | ⟨rfl, path, life, same⟩
    · cases now : u.lifetime <;> simp [life, now, Lifetime.assigned, plays]
    · simp [life, quiet]
    · have still : ¬ Op.stop.Plays := id
      have living : u.lifetime ≠ .destroyed := fun gone => path (empty gone)
      cases now : u.lifetime <;> simp_all [Lifetime.ended]
    · have other : op ≠ .stop := fun same => by subst same; exact plays
      cases now : u.lifetime <;> simp [life, now, Lifetime.assigned, other]
    · have none : ¬ (op = .stop ∧ u.currentTrack ≠ "") := fun both => both.2 (path both.1)
      simp only [life, none, or_false]
    · cases now : u.lifetime <;> simp [life, now, Lifetime.ended, path]
    · intro gone
      rw [life] at gone
      cases now : u.lifetime <;> simp [now, Lifetime.assigned] at gone
    · rw [life, same]
      exact empty
    · exact fun _ => same

/-- Playing is defined exactly where no operation plays after a `stop` of a track that has a path. -/
theorem defined_iff (alive : s.lifetime = .alive) (reached : (step stale).run s ops = some t) :
    t.Defined ↔ ¬ Reuses stale s ops := not_congr (lives_run alive reached).misused

/-- After `start` the pipeline is in the state that the flags report, exactly unless the sequence ends in a
`stop` and one or more pauses after it. -/
theorem consistent_iff (stale : Stale) {s₀ : State} (started : start s = some s₀)
    (reached : (step stale).run s₀ ops = some t) :
    Consistent t ↔ ¬ ∃ before n, ops = before ++ .stop :: List.replicate (n + 1) .pause := by
  obtain ⟨consistent, playing⟩ := consistent_of_play started
  rcases List.eq_nil_or_concat' ops with rfl | ⟨ops, op, rfl⟩
  · cases reached
    refine iff_of_true consistent ?_
    rintro ⟨before, n, shape⟩
    simp at shape
  · obtain ⟨u, first, last⟩ := Steps.run_append_iff.mp reached
    obtain ⟨v, taken, done⟩ := Steps.run_cons_iff.mp last
    cases done
    by_cases paused : op = .pause
    · subst paused
      cases taken
      rw [consistent_pause_iff, is_playing_iff playing first, ← halted_pause]
      refine not_congr ⟨?_, fun ⟨before, n, shape⟩ => ⟨before, n + 1, shape⟩⟩
      rintro ⟨before, n, shape⟩
      cases n with
      | zero =>
        obtain ⟨-, same⟩ := List.append_inj' shape rfl
        cases same
      | succ n => exact ⟨before, n, shape⟩
    · refine iff_of_true ?_ ?_
      · by_cases stopped : op = .stop
        · subst stopped
          cases taken
          exact consistent_stop u
        · obtain ⟨w, played, -, -⟩ := played_of_step taken paused stopped
          exact (consistent_of_play played).1
      · rintro ⟨before, n, shape⟩
        rw [List.replicate_succ', ← List.cons_append, ← List.append_assoc] at shape
        obtain ⟨-, same⟩ := List.append_inj' shape rfl
        exact paused (List.cons.inj same).1

/-- A constructed player of one playlist with two tracks. -/
def sample : State where
  playlists := [⟨['d'], [['a'], ['b']]⟩]
  playlistTables := [['d']]
  it := 0
  currentPlaylist := ⟨['d'], [['a'], ['b']]⟩
  itTrack := ⟨some 0, true⟩
  currentTrack := ""
  lifetime := .alive
  isPlaying := false
  isPaused := false
  pipeline := .null
  config := ['d']
  plays := []

/-- A message of the bus, as far as `on_bus_message` tells them apart. -/
inductive Message
  | eos
  | error
  | other
  deriving DecidableEq, Repr

/-- `player::on_bus_message`: the player after it, and what it returns. -/
def onBusMessage (s : State) : Message → Option (State × Bool)
  | .eos => (next s).map (·, false)
  | .error => some (s, false)
  | .other => some (s, true)

/-- The player and whether the watch of its bus is installed. -/
structure Bus where
  player : State
  watched : Bool
  deriving DecidableEq, Repr

/-- The main loop hands a message to the watch, which stays if the callback returns `true`. -/
def deliver : Steps Bus Message
  | b, m =>
    if b.watched then (onBusMessage b.player m).map fun (player, kept) => ⟨player, kept⟩ else some b

/-- The player advanced once for each end of stream, from index `i`. -/
def Advanced (s t : State) (i : Nat) (messages : List Message) : Prop :=
  t.itTrack.position = some ((i + messages.count .eos) % s.currentPlaylist.tracks.length) ∧
    t.plays.length = s.plays.length + messages.count .eos

/-- `next` from inside the list goes to the next track, or from the last to the first. -/
theorem next_of_within {i : Nat} (at_ : s.itTrack.position = some i)
    (inside : i < s.currentPlaylist.tracks.length) :
    ∃ t, next s = some t ∧ t.plays.length = s.plays.length + 1 ∧
      t.itTrack.position = some ((i + 1) % s.currentPlaylist.tracks.length) := by
  have within : (i + 1) % s.currentPlaylist.tracks.length < s.currentPlaylist.tracks.length :=
    Nat.mod_lt _ (Nat.zero_lt_of_lt inside)
  let moved : State := { s with
    itTrack := if i + 1 = s.currentPlaylist.tracks.length then ⟨some 0, true⟩
      else ⟨some (i + 1), s.itTrack.valid⟩
    isPlaying := false }
  have place : moved.itTrack.position = some ((i + 1) % s.currentPlaylist.tracks.length) := by
    by_cases last : i + 1 = s.currentPlaylist.tracks.length
    · simp [moved, last]
    · simp [moved, last, Nat.mod_eq_of_lt (Nat.lt_of_le_of_ne inside last)]
  have run : next s = play moved := by simp [next, at_, Nat.not_le.mpr inside, moved]
  have played := play_eq_some_iff.mpr ⟨_, _, place, List.getElem?_eq_getElem within, rfl⟩
  exact ⟨_, run.trans played, by simp [moved], place⟩

/-- Without the watch nothing reaches the player. -/
theorem unwatched_run (s : State) (messages : List Message) :
    deliver.run ⟨s, false⟩ messages = some ⟨s, false⟩ := by
  induction messages with
  | nil => rfl
  | cons m messages ih => exact ih

/-- After an error or an end of stream, only a sequence without an end of stream is left to allow. -/
theorem pairwise_after {m : Message} {messages : List Message} (last : m ≠ .other) :
    ((∀ later ∈ messages, later = .eos → m = .other) ∧
      messages.Pairwise fun earlier later => later = .eos → earlier = .other) ↔
        messages.count .eos = 0 := by
  rw [List.count_eq_zero]
  constructor
  · rintro ⟨quiet, -⟩ member
    exact last (quiet .eos member rfl)
  · intro absent
    have quiet : ∀ later ∈ messages, later ≠ .eos := fun later member same => absent (same ▸ member)
    refine ⟨fun later member same => absurd same (quiet later member), ?_⟩
    exact List.pairwise_of_forall_mem_list fun _ _ later member same =>
      absurd same (quiet later member)

/-- **One end of stream.** From any index of a nonempty playlist the player advances once for each
end of stream, exactly when no end of stream follows an error or another end of stream. -/
theorem bus_advances_iff {i : Nat} (at_ : s.itTrack.position = some i)
    (inside : i < s.currentPlaylist.tracks.length) (messages : List Message) :
    (∃ b, deliver.run ⟨s, true⟩ messages = some b ∧ Advanced s b.player i messages) ↔
      messages.Pairwise fun earlier later => later = .eos → earlier = .other := by
  induction messages with
  | nil => exact iff_of_true ⟨_, rfl, by simpa [Nat.mod_eq_of_lt inside] using at_, rfl⟩ .nil
  | cons m messages ih =>
    rw [List.pairwise_cons]
    cases m with
    | other =>
      have quiet : ∀ later ∈ messages, later = .eos → Message.other = .other := fun _ _ _ => rfl
      rw [and_iff_right quiet, ← ih]
      simp [Advanced, Steps.run_cons_iff, deliver, onBusMessage]
    | error =>
      rw [pairwise_after (by simp)]
      have rest : deliver.run ⟨s, true⟩ (.error :: messages) = some ⟨s, false⟩ := unwatched_run s messages
      rw [rest]
      constructor
      · rintro ⟨b, same, -, plays⟩
        cases same
        simpa using plays
      · intro none
        refine ⟨_, rfl, ?_, ?_⟩
        · simpa [none, Nat.mod_eq_of_lt inside] using at_
        · simp [none]
    | eos =>
      rw [pairwise_after (by simp)]
      obtain ⟨t, moved, plays, place⟩ := next_of_within at_ inside
      have rest : deliver.run ⟨s, true⟩ (.eos :: messages) = some ⟨t, false⟩ := by
        refine Steps.run_cons_iff.mpr ⟨⟨t, false⟩, ?_, unwatched_run t messages⟩
        simp [deliver, onBusMessage, moved]
      rw [rest]
      constructor
      · rintro ⟨b, same, -, more⟩
        cases same
        simp only [List.count_cons_self, plays] at more
        omega
      · intro none
        refine ⟨_, rfl, ?_, ?_⟩
        · simpa [none] using place
        · simp [none, plays]

/-- Tags and one end of stream. -/
theorem first_end_of_stream_advances :
    ∃ b, deliver.run ⟨sample, true⟩ [.other, .eos, .other] = some b ∧
      Advanced sample b.player 0 [.other, .eos, .other] := by
  apply (bus_advances_iff (i := 0) rfl (by decide) _).mpr
  decide

/-- The callback returns `false` for the first end of stream, and the second is not delivered. -/
theorem second_end_of_stream_lost :
    ¬ ∀ (s : State) (i : Nat) (messages : List Message), s.itTrack.position = some i →
      i < s.currentPlaylist.tracks.length →
        ∃ b, deliver.run ⟨s, true⟩ messages = some b ∧ Advanced s b.player i messages := by
  intro all
  obtain ⟨b, reached, -, plays⟩ := all sample 0 [.eos, .eos] rfl (by decide)
  cases reached
  cases plays

end Sws.Player
