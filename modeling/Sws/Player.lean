import Sws.Text
import Sws.Transition

/-! The player: its selection, its place in the selected list and its pipeline. `it_track` is an
iterator into the list `current_playlist.tracks`; assigning another list to `tracks` invalidates it.
What an invalidated iterator denotes is the library's business, so it is a parameter of every
operation; using one that denotes no element is undefined, and the operation has no result. -/
namespace Sws.Player

structure Playlist where
  name : Text
  tracks : List Text
  deriving DecidableEq, Repr

inductive Pipeline
  | null
  | playing
  | paused
  deriving DecidableEq, Repr

/-- An iterator into the current list: the index it denotes, if it denotes any, and whether it was
obtained from the contents the list has now. -/
structure Iterator where
  position : Option Nat
  valid : Bool
  deriving DecidableEq, Repr

/-- What one `play` did: the list it read, the index it stored and the path it started. -/
structure Play where
  playlist : Playlist
  index : Nat
  path : Text
  valid : Bool
  deriving DecidableEq, Repr

/-- What may be done with `current_track`. Destroyed with a path in it, it has given its memory back; the
constructor of the player destroys an empty one, which holds none. -/
inductive Lifetime
  | alive
  | destroyed
  /-- Used after its end: what the program does from there on is undefined. -/
  | misused
  deriving DecidableEq, Repr

namespace Lifetime

/-- After the object is assigned to. -/
def assigned : Lifetime → Lifetime
  | alive => alive
  | destroyed | misused => misused

/-- After its destructor is called. -/
def ended : Lifetime → Lifetime
  | alive => destroyed
  | destroyed | misused => misused

end Lifetime

structure State where
  playlists : List Playlist
  playlistTables : List Text
  /-- The index `it` denotes in `playlist_tables`. -/
  it : Nat
  currentPlaylist : Playlist
  itTrack : Iterator
  /-- The path of `current_track`. -/
  currentTrack : Text
  lifetime : Lifetime
  isPlaying : Bool
  isPaused : Bool
  pipeline : Pipeline
  /-- The configured `current_playlist`. -/
  config : Text
  /-- The calls of `play` so far. -/
  plays : List Play
  deriving DecidableEq, Repr

/-- The program has not used `current_track` after its end. -/
def State.Defined (s : State) : Prop := s.lifetime ≠ .misused

instance (s : State) : Decidable s.Defined := inferInstanceAs (Decidable (_ ≠ _))

/-- What an iterator denotes after its list was assigned another one: the old list, the new list
and the old index. -/
abbrev Stale := List Text → List Text → Nat → Option Nat

/-- List assignment that reuses the nodes it can and frees the others. -/
def inPlace : Stale := fun _ new i => if i < new.length then some i else none

/-! ### Operations -/

/-- `player::named`: the first playlist of this name, else the first playlist. -/
def named (playlists : List Playlist) (s : Text) : Option Playlist :=
  (playlists.find? (·.name = s)).or playlists.head?

/-- The constructor from `it = playlist_tables.begin()` on. The two flags are not initialized. A
stored position that is negative becomes a huge unsigned number. -/
def construct (playlists : List Playlist) (tables : List Text) (config : Text)
    (getPlaylistCurrent : Text → Int) (isPlaying isPaused : Bool) : Option State := do
  let current ← named playlists config
  let adv := getPlaylistCurrent current.name
  return {
    playlists := playlists
    playlistTables := tables
    it := 0
    currentPlaylist := current
    itTrack := ⟨some (if 0 ≤ adv ∧ adv < current.tracks.length then adv.toNat else 0), true⟩
    currentTrack := ""
    lifetime := .alive
    isPlaying := isPlaying
    isPaused := isPaused
    pipeline := .null
    config := config
    plays := [] }

def play (s : State) : Option State := do
  let i ← s.itTrack.position
  let path ← s.currentPlaylist.tracks[i]?
  return { s with
    currentTrack := path
    lifetime := s.lifetime.assigned
    isPlaying := true
    isPaused := false
    pipeline := .playing
    plays := s.plays ++ [⟨s.currentPlaylist, i, path, s.itTrack.valid⟩] }

def next (s : State) : Option State := do
  let i ← s.itTrack.position
  if s.currentPlaylist.tracks.length ≤ i then none
  else
    let itTrack : Iterator :=
      if i + 1 = s.currentPlaylist.tracks.length then ⟨some 0, true⟩ else ⟨some (i + 1), s.itTrack.valid⟩
    play { s with itTrack := itTrack, isPlaying := false }

def previous (s : State) : Option State := do
  let i ← s.itTrack.position
  let itTrack : Iterator := if i = 0 then ⟨some s.currentPlaylist.tracks.length, true⟩ else s.itTrack
  match itTrack.position with
  | some (j + 1) => play { s with itTrack := ⟨some j, itTrack.valid⟩, isPlaying := false }
  | _ => none

def pause (s : State) : State :=
  if s.isPaused then { s with pipeline := .playing, isPaused := false }
  else { s with pipeline := .paused, isPaused := true }

/-- `stop` calls the destructor of a `current_track` that has a path; the destructor empties it first. -/
def stop (s : State) : State :=
  { s with
    pipeline := .null
    currentTrack := ""
    lifetime := if s.currentTrack = "" then s.lifetime else s.lifetime.ended
    isPlaying := false }

/-- `current_playlist = p`, through `playlist::operator=`. -/
def assign (stale : Stale) (s : State) (p : Playlist) : State :=
  { s with
    currentPlaylist := p
    itTrack := ⟨s.itTrack.position.bind (stale s.currentPlaylist.tracks p.tracks), false⟩ }

/-- What `playlist_up` and `playlist_down` do with the name `it` denotes. -/
def select (stale : Stale) (s : State) : Option State := do
  let name ← s.playlistTables[s.it]?
  let p ← named s.playlists name
  play { assign stale s p with config := p.name, isPlaying := false }

def playlistUp (stale : Stale) (s : State) : Option State :=
  match if s.it = 0 then s.playlistTables.length else s.it with
  | 0 => none
  | i + 1 => select stale { s with it := i }

def playlistDown (stale : Stale) (s : State) : Option State :=
  if s.playlistTables.length ≤ s.it then none
  else select stale { s with it := if s.it + 1 = s.playlistTables.length then 0 else s.it + 1 }

/-- Every playlist of this name is assigned in turn; the configuration stays as it is. -/
def setCurrentPlaylist (stale : Stale) (s : State) (name : Text) : Option State :=
  play { s.playlists.foldl (fun s p => if p.name = name then assign stale s p else s) s with
    isPlaying := false }

/-- `playlist::index_of`: the first index of the path, and `0` where there is none. -/
def indexOf (tracks : List Text) (path : Text) : Nat :=
  if path ∈ tracks then tracks.idxOf path else 0

/-- The path of `player::peak_next`. -/
def peakNext (s : State) : Option Text := do
  let i ← s.itTrack.position
  let path ← s.currentPlaylist.tracks[i]?
  let iter := indexOf s.currentPlaylist.tracks path + 1
  if iter = s.currentPlaylist.tracks.length then s.currentPlaylist.tracks.head?
  else s.currentPlaylist.tracks[iter]?

/-- The path of `player::peak_previous`. -/
def peakPrevious (s : State) : Option Text := do
  let i ← s.itTrack.position
  let path ← s.currentPlaylist.tracks[i]?
  match indexOf s.currentPlaylist.tracks path with
  | 0 => s.currentPlaylist.tracks.getLast?
  | iter + 1 => s.currentPlaylist.tracks[iter]?

/-- `player::json` reads the current track and its neighbours, and changes nothing. -/
def json (s : State) : Option State := do
  if s.lifetime ≠ .alive then none
  let _ ← peakNext s
  let _ ← peakPrevious s
  return s

inductive Op
  | next
  | previous
  | play
  | pause
  | stop
  | playlistUp
  | playlistDown
  | setCurrentPlaylist (name : Text)
  deriving DecidableEq, Repr

def step (stale : Stale) : Steps State Op
  | s, .next => next s
  | s, .previous => previous s
  | s, .play => play s
  | s, .pause => some (pause s)
  | s, .stop => some (stop s)
  | s, .playlistUp => playlistUp stale s
  | s, .playlistDown => playlistDown stale s
  | s, .setCurrentPlaylist name => setCurrentPlaylist stale s name

/-! ### What the operations do -/

/-- `play` says what it read and leaves the selection alone. -/
theorem play_eq_some_iff {s t : State} :
    play s = some t ↔ ∃ i path, s.itTrack.position = some i ∧
      s.currentPlaylist.tracks[i]? = some path ∧
      t = { s with
        currentTrack := path
        lifetime := s.lifetime.assigned
        isPlaying := true
        isPaused := false
        pipeline := .playing
        plays := s.plays ++ [⟨s.currentPlaylist, i, path, s.itTrack.valid⟩] } := by
  simp only [play, Option.bind_eq_bind, Option.bind_eq_some_iff, Option.pure_def, Option.some.injEq]
  constructor
  · rintro ⟨i, at_, path, held, rfl⟩
    exact ⟨i, path, at_, held, rfl⟩
  · rintro ⟨i, path, at_, held, rfl⟩
    exact ⟨i, at_, path, held, rfl⟩

theorem select_eq_some_iff {stale : Stale} {s t : State} :
    select stale s = some t ↔ ∃ name p, s.playlistTables[s.it]? = some name ∧
      named s.playlists name = some p ∧
      play { assign stale s p with config := p.name, isPlaying := false } = some t := by
  simp only [select, Option.bind_eq_bind, Option.bind_eq_some_iff]
  constructor
  · rintro ⟨name, at_, p, found, played⟩
    exact ⟨name, p, at_, found, played⟩
  · rintro ⟨name, p, at_, found, played⟩
    exact ⟨name, at_, p, found, played⟩

theorem named_of_mem {playlists : List Playlist} {name : Text} (held : ∃ p ∈ playlists, p.name = name) :
    ∃ p, named playlists name = some p ∧ p ∈ playlists ∧ p.name = name := by
  obtain ⟨q, member, same⟩ := held
  cases found : playlists.find? (·.name = name) with
  | none => exact absurd same (by simpa using List.find?_eq_none.mp found q member)
  | some p =>
    refine ⟨p, by rw [named, found]; rfl, List.mem_of_find?_eq_some found, ?_⟩
    simpa using List.find?_some found

theorem mem_of_named {playlists : List Playlist} {name : Text} {p : Playlist}
    (found : named playlists name = some p) : p ∈ playlists := by
  rw [named, Option.or_eq_some_iff] at found
  rcases found with first | ⟨-, head⟩
  · exact List.mem_of_find?_eq_some first
  · exact List.mem_of_mem_head? head

/-- Whether an operation assigns a list to `current_playlist`. -/
def Op.Selects (playlists : List Playlist) : Op → Prop
  | .playlistUp | .playlistDown => True
  | .setCurrentPlaylist name => ∃ p ∈ playlists, p.name = name
  | _ => False

/-- What every operation leaves alone: the playlists, and the record of earlier plays. -/
structure Continues (s t : State) : Prop where
  playlists : t.playlists = s.playlists
  plays : s.plays <+: t.plays

theorem continues_of_play {s u t : State} (played : play u = some t)
    (same : u.playlists = s.playlists) (earlier : u.plays = s.plays) : Continues s t := by
  obtain ⟨i, path, -, -, rfl⟩ := play_eq_some_iff.mp played
  exact ⟨same, by rw [earlier]; exact List.prefix_append _ _⟩

/-- A play with an invalid iterator is on record. -/
theorem invalid_of_play {u t : State} (invalid : u.itTrack.valid = false) (played : play u = some t) :
    ∃ x ∈ t.plays, x.valid = false := by
  obtain ⟨i, path, -, -, rfl⟩ := play_eq_some_iff.mp played
  exact ⟨_, List.mem_append_right _ List.mem_cons_self, invalid⟩

/-- The loop of `set_current_playlist`: everything but the selection stays, and one match is enough
to leave the iterator invalid. -/
theorem set_loop (stale : Stale) (name : Text) (playlists : List Playlist) (s : State) :
    let t := playlists.foldl (fun s p => if p.name = name then assign stale s p else s) s
    t.playlists = s.playlists ∧ t.plays = s.plays ∧ t.lifetime = s.lifetime ∧
      ((∃ p ∈ playlists, p.name = name) ∨ s.itTrack.valid = false → t.itTrack.valid = false) ∧
      ((¬ ∃ p ∈ playlists, p.name = name) → t = s) := by
  induction playlists generalizing s with
  | nil => simp
  | cons p playlists ih =>
    by_cases same : p.name = name
    · obtain ⟨lists, plays, life, invalid, -⟩ := ih (assign stale s p)
      simp only [List.foldl_cons, same, ↓reduceIte]
      exact ⟨lists, plays, life, fun _ => invalid (.inr rfl), fun none => absurd ⟨p, List.mem_cons_self, same⟩ none⟩
    · obtain ⟨lists, plays, life, invalid, quiet⟩ := ih s
      simp only [List.foldl_cons, same, ↓reduceIte, List.exists_mem_cons_iff, false_or]
      exact ⟨lists, plays, life, invalid, quiet⟩

/-- Every operation but `pause` and `stop` ends in a play. -/
theorem played_of_step {stale : Stale} {s t : State} {op : Op} (taken : step stale s op = some t)
    (running : op ≠ .pause) (going : op ≠ .stop) :
    ∃ u, play u = some t ∧ u.playlists = s.playlists ∧ u.plays = s.plays ∧ u.lifetime = s.lifetime := by
  cases op with
  | next =>
    simp only [step, next, Option.bind_eq_bind, Option.bind_eq_some_iff,
      Option.ite_none_left_eq_some] at taken
    obtain ⟨i, -, -, played⟩ := taken
    exact ⟨_, played, rfl, rfl, rfl⟩
  | previous =>
    simp only [step, previous, Option.bind_eq_bind, Option.bind_eq_some_iff] at taken
    obtain ⟨i, -, moved⟩ := taken
    split at moved
    · exact ⟨_, moved, rfl, rfl, rfl⟩
    · cases moved
  | play => exact ⟨s, taken, rfl, rfl, rfl⟩
  | pause => exact absurd rfl running
  | stop => exact absurd rfl going
  | playlistUp =>
    simp only [step, playlistUp] at taken
    split at taken
    · cases taken
    · obtain ⟨name, p, -, -, played⟩ := select_eq_some_iff.mp taken
      exact ⟨_, played, rfl, rfl, rfl⟩
  | playlistDown =>
    simp only [step, playlistDown, Option.ite_none_left_eq_some] at taken
    obtain ⟨name, p, -, -, played⟩ := select_eq_some_iff.mp taken.2
    exact ⟨_, played, rfl, rfl, rfl⟩
  | setCurrentPlaylist name =>
    obtain ⟨lists, plays, life, -, -⟩ := set_loop stale name s.playlists s
    exact ⟨_, taken, lists, plays, life⟩

theorem step_continues {stale : Stale} {s t : State} {op : Op} (taken : step stale s op = some t) :
    Continues s t := by
  by_cases paused : op = .pause
  · subst paused
    cases taken
    by_cases already : s.isPaused = true <;>
      exact ⟨by simp [pause, already], by simp [pause, already]⟩
  by_cases stopped : op = .stop
  · subst stopped
    cases taken
    exact ⟨rfl, List.prefix_refl _⟩
  obtain ⟨u, played, same, earlier, -⟩ := played_of_step taken paused stopped
  exact continues_of_play played same earlier

/-- A selecting operation plays with an iterator into the list it replaced. -/
theorem invalid_of_selects {stale : Stale} {s t : State} {op : Op} (selects : op.Selects s.playlists)
    (taken : step stale s op = some t) : ∃ x ∈ t.plays, x.valid = false := by
  cases op with
  | playlistUp =>
    simp only [step, playlistUp] at taken
    split at taken
    · cases taken
    · obtain ⟨name, p, -, -, played⟩ := select_eq_some_iff.mp taken
      exact invalid_of_play rfl played
  | playlistDown =>
    simp only [step, playlistDown, Option.ite_none_left_eq_some] at taken
    obtain ⟨name, p, -, -, played⟩ := select_eq_some_iff.mp taken.2
    exact invalid_of_play rfl played
  | setCurrentPlaylist name =>
    obtain ⟨-, -, -, invalid, -⟩ := set_loop stale name s.playlists s
    exact invalid_of_play (invalid (.inl selects)) taken
  | _ => cases selects

/-! ### The iterator -/

/-- What `play` read through the iterator is the element of that index in the list that
`current_playlist.tracks` held then. -/
def Play.Sound (x : Play) : Prop := x.valid = true ∧ x.playlist.tracks[x.index]? = some x.path

/-- The iterator denotes an element of the current list, and so it did at every play. -/
structure Placed (s : State) : Prop where
  valid : s.itTrack.valid = true
  within : ∃ i < s.currentPlaylist.tracks.length, s.itTrack.position = some i
  sound : ∀ x ∈ s.plays, x.Sound

theorem placed_play {s : State} (placed : Placed s) : ∃ t, play s = some t ∧ Placed t := by
  obtain ⟨i, inside, at_⟩ := placed.within
  refine ⟨_, play_eq_some_iff.mpr ⟨i, _, at_, List.getElem?_eq_getElem inside, rfl⟩, ?_⟩
  refine ⟨placed.valid, ⟨i, inside, at_⟩, fun x member => ?_⟩
  rcases List.mem_append.mp member with earlier | new
  · exact placed.sound x earlier
  · rw [List.mem_singleton.mp new]
    exact ⟨placed.valid, List.getElem?_eq_getElem inside⟩

/-- Every other operation keeps the iterator in its list. -/
theorem placed_step (stale : Stale) {s : State} {op : Op} (placed : Placed s)
    (keeps : ¬ op.Selects s.playlists) : ∃ t, step stale s op = some t ∧ Placed t := by
  obtain ⟨i, inside, at_⟩ := placed.within
  cases op with
  | next =>
    have run : step stale s .next = play
        { s with
          itTrack := if i + 1 = s.currentPlaylist.tracks.length then ⟨some 0, true⟩
            else ⟨some (i + 1), s.itTrack.valid⟩
          isPlaying := false } := by
      simp [step, next, at_, Nat.not_le.mpr inside]
    rw [run]
    refine placed_play ⟨?_, ?_, placed.sound⟩
    · by_cases last : i + 1 = s.currentPlaylist.tracks.length <;> simp [last, placed.valid]
    · by_cases last : i + 1 = s.currentPlaylist.tracks.length
      · exact ⟨0, Nat.zero_lt_of_lt inside, by simp [last]⟩
      · exact ⟨i + 1, Nat.lt_of_le_of_ne inside last, by simp [last]⟩
  | previous =>
    cases i with
    | zero =>
      obtain ⟨n, length⟩ := Nat.exists_eq_succ_of_ne_zero (Nat.ne_of_gt inside)
      have last : n < s.currentPlaylist.tracks.length := length ▸ Nat.lt_succ_self n
      have run : step stale s .previous = play { s with itTrack := ⟨some n, true⟩, isPlaying := false } := by
        simp [step, previous, at_, length]
      rw [run]
      exact placed_play ⟨rfl, ⟨n, last, rfl⟩, placed.sound⟩
    | succ j =>
      have run : step stale s .previous =
          play { s with itTrack := ⟨some j, s.itTrack.valid⟩, isPlaying := false } := by
        simp [step, previous, at_]
      rw [run]
      exact placed_play ⟨placed.valid, ⟨j, Nat.lt_of_succ_lt inside, rfl⟩, placed.sound⟩
  | play => exact placed_play placed
  | pause =>
    refine ⟨pause s, rfl, ?_⟩
    by_cases paused : s.isPaused = true <;>
      exact ⟨by simp [pause, paused, placed.valid], by simpa [pause, paused] using placed.within,
        by simpa [pause, paused] using placed.sound⟩
  | stop => exact ⟨stop s, rfl, placed.valid, placed.within, placed.sound⟩
  | setCurrentPlaylist name =>
    obtain ⟨-, -, -, -, quiet⟩ := set_loop stale name s.playlists s
    rw [step, setCurrentPlaylist, quiet keeps]
    exact placed_play ⟨placed.valid, placed.within, placed.sound⟩
  | playlistUp => exact absurd trivial keeps
  | playlistDown => exact absurd trivial keeps

/-- A run without selecting operations is defined throughout and reads the list it should. -/
theorem placed_run (stale : Stale) {ops : List Op} {s : State} (placed : Placed s)
    (keeps : ∀ op ∈ ops, ¬ op.Selects s.playlists) :
    ∃ t, (step stale).run s ops = some t ∧ Placed t := by
  induction ops generalizing s with
  | nil => exact ⟨s, rfl, placed⟩
  | cons op ops ih =>
    obtain ⟨u, taken, after⟩ := placed_step stale placed (keeps op List.mem_cons_self)
    obtain ⟨t, reached, done⟩ := ih after fun later member => by
      rw [(step_continues taken).playlists]
      exact keeps later (List.mem_cons_of_mem _ member)
    exact ⟨t, Steps.run_cons_iff.mpr ⟨u, taken, reached⟩, done⟩

theorem run_continues {stale : Stale} {ops : List Op} {s t : State}
    (reached : (step stale).run s ops = some t) : Continues s t := by
  refine Steps.preserved (fun u op v held taken => ?_) reached ⟨rfl, List.prefix_refl _⟩
  have more := step_continues taken
  exact ⟨more.playlists.trans held.playlists, held.plays.trans more.plays⟩

/-- A run with a selecting operation has a play through an invalid iterator on record. -/
theorem invalid_of_run {stale : Stale} {ops : List Op} {s t : State}
    (selects : ∃ op ∈ ops, op.Selects s.playlists) (reached : (step stale).run s ops = some t) :
    ∃ x ∈ t.plays, x.valid = false := by
  obtain ⟨op, member, selecting⟩ := selects
  obtain ⟨before, after, rfl⟩ := List.append_of_mem member
  obtain ⟨u, first, rest⟩ := Steps.run_append_iff.mp reached
  obtain ⟨v, taken, last⟩ := Steps.run_cons_iff.mp rest
  rw [← (run_continues first).playlists] at selecting
  obtain ⟨x, held, invalid⟩ := invalid_of_selects selecting taken
  exact ⟨x, (run_continues last).plays.subset held, invalid⟩

theorem placed_construct {playlists : List Playlist} {tables : List Text} {config : Text}
    {getPlaylistCurrent : Text → Int} {isPlaying isPaused : Bool} {s : State}
    (nonempty : ∀ p ∈ playlists, p.tracks ≠ [])
    (constructed : construct playlists tables config getPlaylistCurrent isPlaying isPaused = some s) :
    Placed s ∧ s.playlists = playlists := by
  simp only [construct, Option.bind_eq_bind, Option.bind_eq_some_iff, Option.pure_def,
    Option.some.injEq] at constructed
  obtain ⟨current, found, rfl⟩ := constructed
  have member : current ∈ playlists := by
    simp only [named, Option.or_eq_some_iff] at found
    rcases found with first | ⟨-, head⟩
    · exact List.mem_of_find?_eq_some first
    · exact List.mem_of_mem_head? head
  refine ⟨⟨rfl, ⟨_, ?_, rfl⟩, by simp⟩, rfl⟩
  have held := List.length_pos_of_ne_nil (nonempty current member)
  simp only
  split <;> omega

/-- **Selecting a playlist leaves the iterator behind.** From the constructed player, every play of
a sequence of operations reads an element of the current list, at the index it stores, exactly when
no operation of the sequence selects a playlist. -/
theorem plays_sound_iff (stale : Stale) {playlists : List Playlist} {tables : List Text} {config : Text}
    {getPlaylistCurrent : Text → Int} {isPlaying isPaused : Bool} {s : State}
    (nonempty : ∀ p ∈ playlists, p.tracks ≠ [])
    (constructed : construct playlists tables config getPlaylistCurrent isPlaying isPaused = some s)
    (ops : List Op) :
    (∃ t, (step stale).run s ops = some t ∧ ∀ x ∈ t.plays, x.Sound) ↔
      ∀ op ∈ ops, ¬ op.Selects playlists := by
  obtain ⟨placed, rfl⟩ := placed_construct nonempty constructed
  constructor
  · rintro ⟨t, reached, sound⟩ op member selects
    obtain ⟨x, held, invalid⟩ := invalid_of_run ⟨op, member, selects⟩ reached
    exact absurd (sound x held).1 (by simp [invalid])
  · intro keeps
    obtain ⟨t, reached, after⟩ := placed_run stale placed keeps
    exact ⟨t, reached, after.sound⟩

theorem plays_sound_within_catalog :
    ∃ s t, construct [⟨['d'], [['a'], ['b']]⟩] [['d']] ['d'] (fun _ => 1) false false = some s ∧
      (step inPlace).run s [.next, .previous, .pause] = some t ∧ ∀ x ∈ t.plays, x.Sound := by
  have constructed : construct [⟨['d'], [['a'], ['b']]⟩] [['d']] ['d'] (fun _ => 1) false false =
      some _ := rfl
  obtain ⟨t, reached, sound⟩ := (plays_sound_iff inPlace (by simp) constructed
    [.next, .previous, .pause]).mpr (by simp [Op.Selects])
  exact ⟨_, t, constructed, reached, sound⟩

/-- From the second track of one playlist down to a playlist of one track. -/
theorem playlist_down_reads_freed_track :
    ¬ ∀ (playlists : List Playlist) (s : State) (ops : List Op), (∀ p ∈ playlists, p.tracks ≠ []) →
      construct playlists (playlists.map (·.name)) ['l'] (fun _ => 0) false false = some s →
        ∃ t, (step inPlace).run s ops = some t ∧ ∀ x ∈ t.plays, x.Sound := by
  intro all
  have constructed : construct [⟨['l'], [['a'], ['b']]⟩, ⟨['s'], [['c']]⟩] [['l'], ['s']] ['l']
      (fun _ => 0) false false = some _ := rfl
  obtain ⟨t, reached, -⟩ := all _ _ [.next, .playlistDown] (by simp) constructed
  cases reached

end Sws.Player
