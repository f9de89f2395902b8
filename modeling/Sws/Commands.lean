import Mathlib.Data.List.DropRight
import Sws.Joystick
import Sws.Player

/-! The two ways a command reaches the player: a joystick action, dispatched by
`joystick_event_hanlder`, and a websocket message that names the action, dispatched by `onMessage`.
Both move through the playlists alike; they differ in what they do to playback. -/
namespace Sws.Commands

open Joystick Player

/-- `player::joystick_event_hanlder`: the case `playlist_down` has no `break` and falls through to
`stop`; `pause` has no case. -/
def joystickEventHanlder (stale : Stale) (s : State) : ActionType → Option State
  | .next => next s
  | .previous => previous s
  | .playlistUp => playlistUp stale s
  | .playlistDown => (playlistDown stale s).map stop
  | .stop => some (stop s)
  | .play => play s
  | _ => some s

/-- `joystick::set_event`: the action is stored, and the signal's one subscriber reads it back. -/
def setEvent (stale : Stale) : Steps State ActionType := fun s t => joystickEventHanlder stale s t

/-- The switch of `wsocket::onMessage`. -/
def command (stale : Stale) (s : State) : ActionType → Option State
  | .play => play s
  | .stop => some (stop s)
  | .pause => some (pause s)
  | .next => next s
  | .previous => previous s
  | .playlistDown => playlistDown stale s
  | .playlistUp => playlistUp stale s
  | _ => some s

/-- A parsed message. -/
inductive Json
  | null
  | bool (b : Bool)
  | number
  | string (s : Text)
  | array (items : List Json)
  | object (members : List (Text × Json))

/-- `wsocket::onMessage`, as far as the player is concerned. `none` is an empty or unparsable
payload, which is answered with the state of the player; asking a value that is no object for a
member is an assertion failure. -/
def onMessage (stale : Stale) (s : State) : Option Json → Option State
  | none => json s
  | some (.object members) =>
    match members.lookup (text "Action") with
    | some (.string action) =>
      match actions.lookup (cStr action) with
      | some t => command stale s t
      | none => some s
    | _ => some s
  | some _ => none

/-- The message that names an action. -/
def message (t : ActionType) : Option Json := some (.object [("Action", .string (enumToString t))])

/-- The actions of a sequence, each delivered as a message. -/
def deliver (stale : Stale) : Steps State ActionType := fun s t => onMessage stale s (message t)

theorem deliver_eq_command (stale : Stale) (s : State) (t : ActionType) :
    deliver stale s t = command stale s t := by
  have clean : cStr (enumToString t) = enumToString t := by
    cases t <;> decide
  simp [deliver, onMessage, message, clean, lookup_enum_to_string]

/-! ### Playback -/

/-- What a listener can tell. -/
structure Mode where
  isPlaying : Bool
  isPaused : Bool
  pipeline : Pipeline
  deriving DecidableEq, Repr

def mode (s : State) : Mode := ⟨s.isPlaying, s.isPaused, s.pipeline⟩

/-- The actions that end in a play. -/
def starts : ActionType → Bool
  | .play | .next | .previous | .playlistUp | .playlistDown => true
  | _ => false

def started : Mode := ⟨true, false, .playing⟩

def stopped (m : Mode) : Mode := { m with isPlaying := false, pipeline := .null }

def toggled (m : Mode) : Mode :=
  { m with isPaused := !m.isPaused, pipeline := if m.isPaused then .playing else .paused }

/-- The mode an action of the joystick leaves. -/
def joystickMode (m : Mode) : ActionType → Mode
  | .playlistDown => stopped started
  | .play | .next | .previous | .playlistUp => started
  | .stop => stopped m
  | _ => m

/-- The mode a message leaves. -/
def messageMode (m : Mode) : ActionType → Mode
  | .play | .next | .previous | .playlistUp | .playlistDown => started
  | .stop => stopped m
  | .pause => toggled m
  | _ => m

/-- The state with its mode and its current track replaced. -/
def withMode (s : State) (m : Mode) (track : Text) (life : Lifetime) : State :=
  { s with
    isPlaying := m.isPlaying
    isPaused := m.isPaused
    pipeline := m.pipeline
    currentTrack := track
    lifetime := life }

/-- The two states may differ in their modes and current tracks only. -/
def Alike (a b : State) : Prop := ∃ m track life, b = withMode a m track life

/-! ### The current track -/

/-- The life and the path of the current track. -/
def life (s : State) : Lifetime × Text := (s.lifetime, s.currentTrack)

/-- After a `stop`. -/
def halted (l : Lifetime × Text) : Lifetime × Text := (if l.2 = "" then l.1 else l.1.ended, "")

/-- The life an action of the joystick leaves, where a play starts this path. -/
def joystickLife (path : Text) (l : Lifetime × Text) : ActionType → Lifetime × Text
  | .playlistDown => halted (l.1.assigned, path)
  | .play | .next | .previous | .playlistUp => (l.1.assigned, path)
  | .stop => halted l
  | _ => l

/-- The life a message leaves, where a play starts this path. -/
def messageLife (path : Text) (l : Lifetime × Text) : ActionType → Lifetime × Text
  | .play | .next | .previous | .playlistUp | .playlistDown => (l.1.assigned, path)
  | .stop => halted l
  | _ => l

/-! ### One action -/

section Starting

variable {stale : Stale} {s t : State} {m : Mode} {track : Text} {l : Lifetime} {op : Op}

theorem play_with_mode : play (withMode s m track l) = (play s).map fun t => { t with lifetime := l.assigned } := by
  simp only [play, withMode, Option.bind_eq_bind]
  cases s.itTrack.position with
  | none => rfl
  | some i => cases held : s.currentPlaylist.tracks[i]? <;> simp [held]

theorem select_with_mode :
    select stale (withMode s m track l) = (select stale s).map fun t => { t with lifetime := l.assigned } := by
  simp only [select, Option.bind_eq_bind, Option.map_bind, Function.comp_def]
  exact Option.bind_congr fun name _ => Option.bind_congr fun p _ =>
    play_with_mode (s := { assign stale s p with config := p.name, isPlaying := false })
      (m := { m with isPlaying := false })

/-- A starting operation forgets the mode and the path, and assigns to the current track. -/
theorem step_with_mode (running : op ≠ .pause) (going : op ≠ .stop) :
    step stale (withMode s m track l) op = (step stale s op).map fun t => { t with lifetime := l.assigned } := by
  cases op with
  | pause => exact absurd rfl running
  | stop => exact absurd rfl going
  | play => exact play_with_mode
  | next =>
    simp only [step, next, Option.bind_eq_bind, Option.map_bind, Function.comp_def]
    refine Option.bind_congr fun i _ => ?_
    by_cases past : s.currentPlaylist.tracks.length ≤ i
    · simp [withMode, past]
    · rw [if_neg past, if_neg (show ¬ (withMode s m track l).currentPlaylist.tracks.length ≤ i from past)]
      exact play_with_mode (s := { s with itTrack := _, isPlaying := false }) (m := { m with isPlaying := false })
  | previous =>
    simp only [step, previous, Option.bind_eq_bind, Option.map_bind, Function.comp_def]
    refine Option.bind_congr fun i _ => ?_
    dsimp only [withMode]
    split
    · exact play_with_mode (s := { s with itTrack := _, isPlaying := false }) (m := { m with isPlaying := false })
    · rfl
  | playlistUp =>
    have it : (withMode s m track l).it = s.it := rfl
    have tables : (withMode s m track l).playlistTables = s.playlistTables := rfl
    simp only [step, playlistUp, it, tables]
    cases (if s.it = 0 then s.playlistTables.length else s.it) with
    | zero => rfl
    | succ i => exact select_with_mode (s := { s with it := i })
  | playlistDown =>
    have it : (withMode s m track l).it = s.it := rfl
    have tables : (withMode s m track l).playlistTables = s.playlistTables := rfl
    simp only [step, playlistDown, it, tables]
    by_cases past : s.playlistTables.length ≤ s.it
    · simp only [if_pos past, Option.map_none]
    · simp only [if_neg past]
      exact select_with_mode
        (s := { s with it := if s.it + 1 = s.playlistTables.length then 0 else s.it + 1 })
  | setCurrentPlaylist name =>
    have loop (playlists : List Playlist) (s : State) :
        playlists.foldl (fun s p => if p.name = name then assign stale s p else s) (withMode s m track l) =
          withMode (playlists.foldl (fun s p => if p.name = name then assign stale s p else s) s) m track l := by
      induction playlists generalizing s with
      | nil => rfl
      | cons p playlists ih =>
        by_cases same : p.name = name
        · simp only [List.foldl_cons, if_pos same]
          exact ih (assign stale s p)
        · simp only [List.foldl_cons, if_neg same]
          exact ih s
    have whole := loop s.playlists s
    simp only [step, setCurrentPlaylist]
    rw [show (withMode s m track l).playlists = s.playlists from rfl, whole]
    generalize s.playlists.foldl (fun s p => if p.name = name then assign stale s p else s) s = u
    exact play_with_mode (s := { u with isPlaying := false }) (m := { m with isPlaying := false })

end Starting

section Together

variable {stale : Stale} {s a b : State} {t : ActionType} {op : Op}

/-- What one action leaves, delivered either way to states that are alike. -/
structure Paired (t : ActionType) (a b a' b' : State) : Prop where
  alike : Alike a' b'
  left : mode a' = joystickMode (mode a) t
  right : mode b' = messageMode (mode b) t
  leftLife : life a' = joystickLife b'.currentTrack (life a) t
  rightLife : life b' = messageLife b'.currentTrack (life b) t

/-- Results of the two dispatchers that go together: both undefined, or so paired. -/
def Together (t : ActionType) (a b : State) : Option State → Option State → Prop
  | none, none => True
  | some a', some b' => Paired t a b a' b'
  | _, _ => False

/-- A starting operation takes states that are alike to states that differ in the life of the current track. -/
theorem started_alike (stale : Stale) (op : Op) (alike : Alike a b) (running : op ≠ .pause) (going : op ≠ .stop) :
    step stale a op = none ∧ step stale b op = none ∨ ∃ c, step stale a op = some c ∧ mode c = started ∧
      c.lifetime = a.lifetime.assigned ∧ step stale b op = some { c with lifetime := b.lifetime.assigned } := by
  obtain ⟨m, track, l, rfl⟩ := alike
  rw [step_with_mode running going]
  cases taken : step stale a op with
  | none => exact .inl ⟨rfl, rfl⟩
  | some c =>
    obtain ⟨u, played, -, -, same⟩ := played_of_step taken running going
    obtain ⟨i, path, -, -, rfl⟩ := play_eq_some_iff.mp played
    exact .inr ⟨_, rfl, rfl, congrArg Lifetime.assigned same, rfl⟩

/-- One action, delivered both ways to states that are alike. -/
theorem together_step (stale : Stale) (t : ActionType) {a b : State} (alike : Alike a b) :
    Together t a b (setEvent stale a t) (command stale b t) := by
  have starts (op : Op) (running : op ≠ .pause) (going : op ≠ .stop) (t : ActionType)
      (left : ∀ m, joystickMode m t = started) (right : ∀ m, messageMode m t = started)
      (leftLife : ∀ path l, joystickLife path l t = (l.1.assigned, path))
      (rightLife : ∀ path l, messageLife path l t = (l.1.assigned, path)) :
      Together t a b (step stale a op) (step stale b op) := by
    rcases started_alike stale op alike running going with ⟨none, none'⟩ | ⟨c, taken, same, life, taken'⟩
    · rw [none, none']
      trivial
    · rw [taken, taken']
      refine ⟨⟨mode c, c.currentTrack, _, rfl⟩, same.trans (left _).symm, same.trans (right _).symm, ?_, ?_⟩
      · rw [leftLife]
        exact congrArg (·, c.currentTrack) life
      · rw [rightLife]
        rfl
  cases t with
  | play => exact starts .play nofun nofun .play (fun _ => rfl) (fun _ => rfl) (fun _ _ => rfl) fun _ _ => rfl
  | next => exact starts .next nofun nofun .next (fun _ => rfl) (fun _ => rfl) (fun _ _ => rfl) fun _ _ => rfl
  | previous =>
    exact starts .previous nofun nofun .previous (fun _ => rfl) (fun _ => rfl) (fun _ _ => rfl) fun _ _ => rfl
  | playlistUp =>
    exact starts .playlistUp nofun nofun .playlistUp (fun _ => rfl) (fun _ => rfl) (fun _ _ => rfl) fun _ _ => rfl
  | playlistDown =>
    change Together _ _ _ ((playlistDown stale a).map stop) (playlistDown stale b)
    rcases started_alike stale .playlistDown alike nofun nofun with
      ⟨none, none'⟩ | ⟨c, taken, same, life, taken'⟩
    · rw [show playlistDown stale a = Option.none from none, show playlistDown stale b = Option.none from none']
      trivial
    · rw [show playlistDown stale a = some c from taken, show playlistDown stale b = some _ from taken']
      refine ⟨⟨mode c, c.currentTrack, _, rfl⟩, congrArg stopped same, same, ?_, rfl⟩
      simp only [Commands.life, joystickLife, halted, ← life]
      rfl
  | stop =>
    obtain ⟨m, track, l, rfl⟩ := alike
    exact ⟨⟨stopped m, [], _, rfl⟩, rfl, rfl, rfl, rfl⟩
  | pause =>
    obtain ⟨m, track, l, rfl⟩ := alike
    refine ⟨⟨toggled m, track, l, ?_⟩, rfl, ?_, rfl, ?_⟩ <;>
      cases already : m.isPaused <;>
        simp [pause, withMode, toggled, mode, messageMode, messageLife, Commands.life, already]
  | _ =>
    obtain ⟨m, track, l, rfl⟩ := alike
    exact ⟨⟨m, track, l, rfl⟩, rfl, rfl, rfl, rfl⟩

/-! ### Runs -/

/-- The sequence, delivered by name, ends in a `playlist_down` that starts a track with a path. -/
def Downs (stale : Stale) (s : State) (ts : List ActionType) : Prop :=
  ∃ before b, ts = before ++ [.playlistDown] ∧ (deliver stale).run s ts = some b ∧ b.currentTrack ≠ ""

/-- Such a `playlist_down` is followed by another start. -/
def Restarts (stale : Stale) (s : State) : List ActionType → Prop :=
  History.Since (Downs stale s) fun t => starts t = true

theorem downs_concat {ts : List ActionType} (reached : (deliver stale).run s (ts ++ [t]) = some b) :
    Downs stale s (ts ++ [t]) ↔ t = .playlistDown ∧ b.currentTrack ≠ "" := by
  constructor
  · rintro ⟨before, c, shape, reached', path⟩
    obtain ⟨-, last⟩ := List.append_inj' shape rfl
    cases reached'.symm.trans reached
    exact ⟨(List.cons.inj last).1, path⟩
  · rintro ⟨rfl, path⟩
    exact ⟨ts, b, rfl, reached, path⟩

/-- The life of the current track on the two ways: used after its end by the joystick where it is so by the
messages or where a `playlist_down` was followed by a start. -/
structure Lives (restarts downs : Prop) (x y : Lifetime × Text) : Prop where
  misused : x.1 = .misused ↔ y.1 = .misused ∨ restarts
  apart : x.1 ≠ .misused → x = y ∨ x.1 = .destroyed ∧ x.2 = "" ∧ y.1 = .alive ∧ downs
  ended : downs → x.1 ≠ .alive

namespace Lives

variable {restarts downs : Prop} {x y : Lifetime × Text}

theorem start (lives : Lives restarts downs x y) (path : Text) :
    Lives (restarts ∨ downs) downs (x.1.assigned, path) (y.1.assigned, path) := by
  obtain ⟨misused, apart, ended⟩ := lives
  obtain ⟨l, p⟩ := x
  obtain ⟨l', p'⟩ := y
  refine ⟨?_, ?_, ?_⟩ <;> cases l <;> cases l' <;> simp_all [Lifetime.assigned]

theorem down (lives : Lives restarts downs x y) (path : Text) :
    Lives (restarts ∨ downs) (downs ∨ path ≠ "") (halted (x.1.assigned, path)) (y.1.assigned, path) := by
  obtain ⟨misused, apart, ended⟩ := lives
  obtain ⟨l, p⟩ := x
  obtain ⟨l', p'⟩ := y
  by_cases empty : path = ""
  · subst empty
    refine ⟨?_, ?_, ?_⟩ <;> cases l <;> cases l' <;> simp_all [Lifetime.assigned, halted]
  · refine ⟨?_, ?_, ?_⟩ <;> cases l <;> cases l' <;> simp_all [Lifetime.assigned, Lifetime.ended, halted]

theorem stop (lives : Lives restarts downs x y) : Lives restarts downs (halted x) (halted y) := by
  obtain ⟨misused, apart, ended⟩ := lives
  obtain ⟨l, p⟩ := x
  obtain ⟨l', p'⟩ := y
  by_cases empty : p = "" <;> by_cases empty' : p' = "" <;>
    refine ⟨?_, ?_, ?_⟩ <;> cases l <;> cases l' <;> simp_all [Lifetime.ended, halted]

/-- What an action does to the two lives. -/
theorem step (lives : Lives restarts downs (life a) (life b)) {a' b' : State} (paired : Paired t a b a' b') :
    Lives (restarts ∨ downs ∧ starts t = true) (downs ∨ t = .playlistDown ∧ b'.currentTrack ≠ "")
      (life a') (life b') := by
  rw [paired.leftLife, paired.rightLife]
  cases t with
  | play | next | previous | playlistUp => simpa [starts, joystickLife, messageLife] using lives.start b'.currentTrack
  | playlistDown => simpa [starts, joystickLife, messageLife] using lives.down b'.currentTrack
  | stop => simpa [starts, joystickLife, messageLife] using lives.stop
  | _ => simpa [starts, joystickLife, messageLife] using lives

end Lives

/-- Where a sequence leaves the two states. -/
structure Leaves (stale : Stale) (s : State) (ts : List ActionType) (a b : State) : Prop where
  alike : Alike a b
  left : mode a = ts.foldl joystickMode (mode s)
  right : mode b = ts.foldl messageMode (mode s)
  lives : Lives (Restarts stale s ts) (History.Once (Downs stale s) ts) (life a) (life b)

theorem leaves_nil (stale : Stale) (s : State) : Leaves stale s [] s s := by
  have none : ¬ History.Once (Downs stale s) [] := by
    rw [History.once_nil]
    rintro ⟨before, c, shape, -⟩
    simp at shape
  refine ⟨⟨mode s, s.currentTrack, s.lifetime, rfl⟩, rfl, rfl, ?_, fun _ => .inl rfl, fun held => absurd held none⟩
  simp [Restarts, History.not_since_nil]

/-- Both ways are undefined together, or leave two states so. -/
theorem leaves_run (stale : Stale) (s : State) (ts : List ActionType) :
    ((setEvent stale).run s ts = none ∧ (deliver stale).run s ts = none) ∨
      ∃ a b, (setEvent stale).run s ts = some a ∧ (deliver stale).run s ts = some b ∧ Leaves stale s ts a b := by
  induction ts using List.reverseRecOn with
  | nil => exact .inr ⟨s, s, rfl, rfl, leaves_nil stale s⟩
  | append_singleton ts t ih =>
    rw [Steps.run_concat, Steps.run_concat]
    rcases ih with ⟨left, right⟩ | ⟨a, b, left, right, leaves⟩
    · rw [left, right]
      exact .inl ⟨rfl, rfl⟩
    · have both := together_step stale t leaves.alike
      have named : (deliver stale).run s (ts ++ [t]) = command stale b t := by
        rw [Steps.run_concat, right, Option.bind_some, deliver_eq_command]
      rw [left, right, Option.bind_some, Option.bind_some, deliver_eq_command]
      cases first : setEvent stale a t with
      | none =>
        cases second : command stale b t with
        | none => exact .inl ⟨rfl, rfl⟩
        | some b' => simp [first, second, Together] at both
      | some a' =>
        cases second : command stale b t with
        | none => simp [first, second, Together] at both
        | some b' =>
          rw [first, second] at both
          refine .inr ⟨a', b', rfl, rfl, both.alike, ?_, ?_, ?_⟩
          · rw [both.left, leaves.left, List.foldl_concat]
          · rw [both.right, leaves.right, List.foldl_concat]
          · rw [Restarts, History.since_concat, History.once_concat, downs_concat (named.trans second)]
            exact leaves.lives.step both

end Together

/-! ### When both leave the same mode -/

/-- The actions since playback was last started. -/
def tail (ts : List ActionType) : List ActionType := ts.rtakeWhile fun t => !starts t

/-- The last action that started playback. -/
def lead (ts : List ActionType) : Option ActionType := (ts.rdropWhile fun t => !starts t).getLast?

/-- The actions since the last `stop`. -/
def sinceStop (ts : List ActionType) : List ActionType := ts.rtakeWhile (· ≠ .stop)

theorem joystick_mode_tail (m : Mode) (ts : List ActionType) (quiet : ∀ t ∈ ts, starts t = false) :
    ts.foldl joystickMode m = if .stop ∈ ts then stopped m else m := by
  induction ts generalizing m with
  | nil => rfl
  | cons t ts ih =>
    have rest := fun n => ih n fun u member => quiet u (List.mem_cons_of_mem _ member)
    have first := quiet t List.mem_cons_self
    rw [List.foldl_cons, rest]
    cases t with
    | stop => by_cases later : ActionType.stop ∈ ts <;> simp [joystickMode, stopped, later]
    | _ => first
      | exact absurd first (by decide)
      | simp [joystickMode]

theorem since_stop_concat_stop (ts : List ActionType) : sinceStop (ts ++ [.stop]) = [] :=
  List.rtakeWhile_concat_neg _ _ _ (by decide)

theorem since_stop_concat {t : ActionType} (other : t ≠ .stop) (ts : List ActionType) :
    sinceStop (ts ++ [t]) = sinceStop ts ++ [t] :=
  List.rtakeWhile_concat_pos _ _ _ (by simpa using other)

private theorem odd_succ (n : Nat) : decide ((n + 1) % 2 = 1) = !decide (n % 2 = 1) := by
  rcases Nat.mod_two_eq_zero_or_one n with even | odd <;> simp [Nat.add_mod, *]

/-- Each `pause` toggles, and the last `stop` or `pause` decides about the pipeline. -/
theorem message_mode_tail (m : Mode) (ts : List ActionType) (quiet : ∀ t ∈ ts, starts t = false) :
    ts.foldl messageMode m =
      let isPaused := m.isPaused != decide (ts.count .pause % 2 = 1)
      { isPlaying := m.isPlaying && !decide (.stop ∈ ts)
        isPaused := isPaused
        pipeline :=
          if .pause ∈ sinceStop ts then if isPaused then .paused else .playing
          else if .stop ∈ ts then .null else m.pipeline } := by
  induction ts using List.reverseRecOn with
  | nil => simp [sinceStop]
  | append_singleton ts t ih =>
    have last := quiet t (List.mem_append_right _ List.mem_cons_self)
    rw [List.foldl_append, ih fun u member => quiet u (List.mem_append_left _ member)]
    cases t with
    | stop => simp [messageMode, stopped, since_stop_concat_stop]
    | pause =>
      rw [since_stop_concat (by decide), List.count_append]
      simp [messageMode, toggled, odd_succ]
    | _ => first
      | exact absurd last (by decide)
      | rw [since_stop_concat (by decide), List.count_append]; simp [messageMode]

theorem since_stop_of_not_mem {ts : List ActionType} (none : .stop ∉ ts) : sinceStop ts = ts :=
  List.rtakeWhile_eq_self_iff.mpr fun t member => by
    simpa using fun same : t = .stop => none (same ▸ member)

/-- Two modes that agree on the pause, after actions none of which starts playback. -/
theorem agree_tail {left right : Mode} (same : left.isPaused = right.isPaused) {ts : List ActionType}
    (quiet : ∀ t ∈ ts, starts t = false) :
    ts.foldl joystickMode left = ts.foldl messageMode right ↔
      ts.count .pause % 2 = 0 ∧
        if .stop ∈ ts then .pause ∉ sinceStop ts
        else left.isPlaying = right.isPlaying ∧ left.pipeline =
          if .pause ∈ ts then if right.isPaused then .paused else .playing else right.pipeline := by
  rw [joystick_mode_tail left ts quiet, message_mode_tail right ts quiet]
  obtain ⟨playing, paused, pipeline⟩ := left
  obtain ⟨playing', paused', pipeline'⟩ := right
  cases same
  have parity := Nat.mod_two_eq_zero_or_one (ts.count .pause)
  by_cases ended : ActionType.stop ∈ ts
  · rcases parity with even | odd
    · cases paused <;> by_cases again : ActionType.pause ∈ sinceStop ts <;>
        simp [ended, even, again, stopped]
    · simp [ended, odd, stopped]
  · rw [since_stop_of_not_mem ended]
    rcases parity with even | odd
    · simp [ended, even]
    · simp [ended, odd]

/-- The sequences after which both dispatchers leave the same mode. -/
def Agrees (s : State) (ts : List ActionType) : Prop :=
  (tail ts).count .pause % 2 = 0 ∧
    if .stop ∈ tail ts then .pause ∉ sinceStop (tail ts)
    else lead ts ≠ some .playlistDown ∧ (lead ts = none → .pause ∈ tail ts →
      s.pipeline = if s.isPaused then .paused else .playing)

instance (s : State) (ts : List ActionType) : Decidable (Agrees s ts) := by
  unfold Agrees
  infer_instance

theorem tail_quiet (ts : List ActionType) : ∀ t ∈ tail ts, starts t = false := by
  intro t member
  simpa using List.mem_rtakeWhile_imp member

theorem modes_agree_iff (s : State) (ts : List ActionType) :
    ts.foldl joystickMode (mode s) = ts.foldl messageMode (mode s) ↔ Agrees s ts := by
  have split : (ts.rdropWhile fun t => !starts t) ++ tail ts = ts := List.rdropWhile_append_rtakeWhile
  have parts (f : Mode → ActionType → Mode) : ts.foldl f (mode s) =
      (tail ts).foldl f ((ts.rdropWhile fun t => !starts t).foldl f (mode s)) := by
    rw [← List.foldl_append, split]
  rw [Agrees, lead, parts, parts]
  rcases List.eq_nil_or_concat' (ts.rdropWhile fun t => !starts t) with empty | ⟨init, last, shape⟩
  · rw [empty, List.foldl_nil, List.foldl_nil, agree_tail rfl (tail_quiet ts)]
    by_cases ended : ActionType.stop ∈ tail ts <;> by_cases again : ActionType.pause ∈ tail ts <;>
      cases paused : s.isPaused <;> simp [ended, again, paused, mode]
  · have starting : starts last = true := by
      have kept := List.rdropWhile_last_not (fun t => !starts t) ts (by simp [shape])
      simpa [shape] using kept
    rw [shape, List.foldl_append, List.foldl_append, List.getLast?_concat]
    cases last with
    | playlistDown =>
      change (tail ts).foldl joystickMode (stopped started) = (tail ts).foldl messageMode started ↔ _
      have paused : (stopped started).isPaused = started.isPaused := rfl
      rw [agree_tail paused (tail_quiet ts)]
      by_cases ended : ActionType.stop ∈ tail ts <;> simp [ended, stopped, started]
    | _ =>
      first
      | exact absurd starting (by decide)
      | change (tail ts).foldl joystickMode started = (tail ts).foldl messageMode started ↔ _
        rw [agree_tail rfl (tail_quiet ts)]
        by_cases ended : ActionType.stop ∈ tail ts <;> simp [ended, started]

/-- The part of the player a sequence of commands is compared on. -/
def observe (s : State) : Nat × Playlist × Iterator × Mode := (s.it, s.currentPlaylist, s.itTrack, mode s)

/-- What a listener can tell after a run; from a use of the current track after its end nothing is known. -/
def outcome (r : Option State) : Option (Nat × Playlist × Iterator × Mode) :=
  r.bind fun t => if t.Defined then some (observe t) else none

end Sws.Commands
