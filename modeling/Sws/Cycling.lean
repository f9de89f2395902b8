import Mathlib.Data.Int.ModEq
import Sws.Cyclic
import Sws.Player

/-! `next` and `previous` go around the current playlist, and the previews of `json` look at the track on
either side. The operations move an iterator; the previews find a place by its path. -/
namespace Sws.Player

open Cyclic

/-- The iterator denotes this element of the current list. -/
structure At (s : State) (i : Nat) : Prop where
  position : s.itTrack.position = some i
  within : i < s.currentPlaylist.tracks.length

/-- The operations that go around the list. -/
def Op.Turns : Op → Prop
  | .next | .previous => True
  | _ => False

/-- Where an operation leaves the index. -/
def Op.turn (n i : Nat) : Op → Nat
  | .next => after n i
  | .previous => before n i
  | _ => i

/-- The index after some operations: forward with each `next`, back with each `previous`. -/
def landing (n i : Nat) (ops : List Op) : Nat :=
  (((i : Int) + ops.count .next - ops.count .previous) % n).toNat

section Moves

variable {stale : Stale} {s t : State} {i n : Nat} {op : Op} {ops : List Op}

theorem turn_lt (inside : i < n) (op : Op) : op.turn n i < n := by
  cases op with
  | next => exact after_lt inside
  | previous => exact before_lt inside
  | _ => exact inside

theorem landing_nil (inside : i < n) : landing n i [] = i := by
  have same : ((i : Int) + 0 - 0) % n = i := by
    rw [Int.add_zero, Int.sub_zero, Int.emod_eq_of_lt (by omega) (by omega)]
  exact (congrArg Int.toNat same).trans (Int.toNat_natCast i)

/-- One operation, and then the others. -/
theorem landing_cons (inside : i < n) (turns : op.Turns) (ops : List Op) :
    landing n i (op :: ops) = landing n (op.turn n i) ops := by
  have shifted (j : Nat) (c : Int) (moved : (j : Int) % n = (i + c) % n) :
      ((j : Int) + ops.count .next - ops.count .previous) % n =
        ((i : Int) + c + ops.count .next - ops.count .previous) % n := by
    have same : (j : Int) ≡ i + c [ZMOD n] := moved
    exact (same.add_right _).sub_right _
  unfold landing
  cases op with
  | next =>
    have moved : ((after n i : Nat) : Int) % n = ((i : Int) + 1) % n := by
      rw [after_eq inside, Int.natCast_mod, Int.emod_emod_of_dvd _ dvd_rfl]
      rfl
    have counted : (List.count Op.next (.next :: ops) : Int) = ops.count .next + 1 := by simp
    have other : List.count Op.previous (.next :: ops) = ops.count .previous := by simp
    rw [Op.turn, shifted _ 1 moved, counted, other, Int.add_right_comm, Int.add_assoc]
  | previous =>
    have moved : ((before n i : Nat) : Int) % n = ((i : Int) + -1) % n := by
      have around : ((i + (n - 1) : Nat) : Int) = (i : Int) + -1 + n := by omega
      rw [before_eq inside, Int.natCast_mod, Int.emod_emod_of_dvd _ dvd_rfl, around, Int.add_emod_right]
    have counted : (List.count Op.previous (.previous :: ops) : Int) = ops.count .previous + 1 := by simp
    have other : List.count Op.next (.previous :: ops) = ops.count .next := by simp
    rw [Op.turn, shifted _ (-1) moved, counted, other]
    congr 2
    omega
  | _ => cases turns

/-- A call of `next` or `previous`: the index it leaves, and the play it ends in. -/
structure Turned (s : State) (i : Nat) (t : State) (x : Play) : Prop where
  at_ : At t i
  playlist : t.currentPlaylist = s.currentPlaylist
  plays : t.plays = s.plays ++ [x]
  list : x.playlist = s.currentPlaylist
  index : x.index = i
  path : s.currentPlaylist.tracks[i]? = some x.path
  started : t.currentTrack = x.path

theorem turned_of_play {u : State} {j : Nat} (position : u.itTrack.position = some j)
    (same : u.currentPlaylist = s.currentPlaylist) (earlier : u.plays = s.plays)
    (inside : j < s.currentPlaylist.tracks.length) : ∃ t x, play u = some t ∧ Turned s j t x := by
  obtain ⟨path, held⟩ : ∃ path, s.currentPlaylist.tracks[j]? = some path :=
    ⟨_, List.getElem?_eq_getElem inside⟩
  rw [← same] at held inside
  refine ⟨_, ⟨u.currentPlaylist, j, path, u.itTrack.valid⟩,
    play_eq_some_iff.mpr ⟨j, path, position, held, rfl⟩, ?_⟩
  rw [same] at held
  exact ⟨⟨position, inside⟩, same, congrArg (· ++ _) earlier, same, rfl, held, rfl⟩

/-- **One call.** -/
theorem step_turns (stale : Stale) (at_ : At s i) (turns : op.Turns) :
    ∃ t x, step stale s op = some t ∧ Turned s (op.turn s.currentPlaylist.tracks.length i) t x := by
  obtain ⟨position, inside⟩ := at_
  have within := turn_lt inside op
  cases op with
  | next =>
    have run : step stale s .next = play
        { s with
          itTrack := if i + 1 = s.currentPlaylist.tracks.length then ⟨some 0, true⟩
            else ⟨some (i + 1), s.itTrack.valid⟩
          isPlaying := false } := by
      simp [step, next, position, Nat.not_le.mpr inside]
    rw [run]
    refine turned_of_play ?_ rfl rfl within
    simp only [Op.turn, after]
    split_ifs <;> rfl
  | previous =>
    cases i with
    | zero =>
      obtain ⟨n, length⟩ := Nat.exists_eq_succ_of_ne_zero (Nat.ne_of_gt inside)
      have run : step stale s .previous = play { s with itTrack := ⟨some n, true⟩, isPlaying := false } := by
        simp [step, previous, position, length]
      rw [run]
      refine turned_of_play ?_ rfl rfl within
      simp [Op.turn, before, length]
    | succ j =>
      have run : step stale s .previous =
          play { s with itTrack := ⟨some j, s.itTrack.valid⟩, isPlaying := false } := by
        simp [step, previous, position]
      rw [run]
      exact turned_of_play rfl rfl rfl within
  | _ => cases turns

/-- **Runs.** Every call stores the index it reaches, and plays what stands there. -/
theorem run_turns (stale : Stale) (at_ : At s i) (turns : ∀ op ∈ ops, op.Turns) :
    ∃ t played, (step stale).run s ops = some t ∧ t.currentPlaylist = s.currentPlaylist ∧
      At t (landing s.currentPlaylist.tracks.length i ops) ∧ t.plays = s.plays ++ played ∧
      played.length = ops.length ∧ ∀ k x, played[k]? = some x →
        x.index = landing s.currentPlaylist.tracks.length i (ops.take (k + 1)) ∧
          s.currentPlaylist.tracks[x.index]? = some x.path := by
  induction ops generalizing s i with
  | nil =>
    refine ⟨s, [], rfl, rfl, ?_, (List.append_nil _).symm, rfl, nofun⟩
    rw [landing_nil at_.within]
    exact at_
  | cons op ops ih =>
    obtain ⟨first, others⟩ := List.forall_mem_cons.mp turns
    obtain ⟨u, y, taken, turned⟩ := step_turns stale at_ first
    obtain ⟨t, played, onwards, same, reached, plays, length, each⟩ := ih turned.at_ others
    rw [turned.playlist, ← landing_cons at_.within first] at reached
    refine ⟨t, y :: played, Steps.run_cons_iff.mpr ⟨u, taken, onwards⟩, same.trans turned.playlist, reached,
      ?_, congrArg (· + 1) length, fun k x held => ?_⟩
    · rw [plays, turned.plays, List.append_assoc]
      rfl
    · cases k with
      | zero =>
        cases held
        rw [List.take_succ_cons, List.take_zero, landing_cons at_.within first,
          landing_nil (turn_lt at_.within op), turned.index]
        exact ⟨rfl, turned.path⟩
      | succ k =>
        obtain ⟨index, path⟩ := each k x held
        rw [turned.playlist] at index path
        exact ⟨by rw [List.take_succ_cons, landing_cons at_.within first, index], path⟩

theorem replicate_turns (k : Nat) : ∀ op ∈ List.replicate k Op.next, op.Turns := by
  intro op member
  rw [List.eq_of_mem_replicate member]
  trivial

theorem landing_replicate (k : Nat) : landing n i (List.replicate k .next) = (i + k) % n := by
  have counted : (List.replicate k Op.next).count .next = k := List.count_replicate_self
  have none : (List.replicate k Op.next).count .previous = 0 := by
    simp [List.count_replicate]
  unfold landing
  rw [counted, none, Int.natCast_zero, Int.sub_zero, ← Int.natCast_add, ← Int.natCast_mod,
    Int.toNat_natCast]

/-- **Around the list.** After any calls of `next` and `previous` the index is the first one, moved
forward by the number of the one and back by the number of the other, modulo the number of tracks; every
call stores the index it reaches, which is that of a track; and then as many calls of `next` as there are
tracks start each of them once. -/
theorem next_previous_go_around (stale : Stale) (at_ : At s i) (turns : ∀ op ∈ ops, op.Turns) :
    let n := s.currentPlaylist.tracks.length
    (∃ t played, (step stale).run s ops = some t ∧ t.itTrack.position = some (landing n i ops) ∧
      t.plays = s.plays ++ played ∧ played.length = ops.length ∧
      ∀ k x, played[k]? = some x → x.index = landing n i (ops.take (k + 1)) ∧ x.index < n ∧
        s.currentPlaylist.tracks[x.index]? = some x.path) ∧
    ∃ t earlier played, (step stale).run s (ops ++ List.replicate n .next) = some t ∧
      t.plays = s.plays ++ earlier ++ played ∧ earlier.length = ops.length ∧
      (played.map (·.index)).Perm (List.range n) := by
  intro n
  obtain ⟨t, earlier, reached, same, there, plays, length, each⟩ := run_turns stale at_ turns
  refine ⟨⟨t, earlier, reached, there.position, plays, length, fun k x held => ?_⟩, ?_⟩
  · obtain ⟨index, path⟩ := each k x held
    exact ⟨index, (List.getElem?_eq_some_iff.mp path).1, path⟩
  · obtain ⟨u, played, onwards, -, -, plays', length', each'⟩ := run_turns stale there (replicate_turns n)
    refine ⟨u, earlier, played, Steps.run_append reached onwards, by rw [plays', plays], length, ?_⟩
    rw [same] at each'
    have indices : played.map (·.index) = (List.range n).rotate (landing n i ops + 1) := by
      refine List.ext_getElem (by simpa using length') fun k first second => ?_
      rw [List.length_map] at first
      have small : k < n := by
        rw [length', List.length_replicate] at first
        exact first
      obtain ⟨index, -⟩ := each' k _ (List.getElem?_eq_getElem first)
      rw [List.take_replicate, Nat.min_eq_left small, landing_replicate] at index
      rw [List.getElem_map, index, List.getElem_rotate, List.getElem_range, List.length_range]
      show (landing n i ops + (k + 1)) % n = (k + (landing n i ops + 1)) % n
      congr 1
      omega
    rw [indices]
    exact List.rotate_perm _ _

end Moves

/-- The player at the start of a playlist. -/
def opened (tracks : List Text) : State where
  playlists := [⟨"mix", tracks⟩]
  playlistTables := ["mix"]
  it := 0
  currentPlaylist := ⟨"mix", tracks⟩
  itTrack := ⟨some 0, true⟩
  currentTrack := ""
  lifetime := .alive
  isPlaying := false
  isPaused := false
  pipeline := .null
  config := "mix"
  plays := []

theorem at_opened {tracks : List Text} (some_ : tracks ≠ []) : At (opened tracks) 0 :=
  ⟨rfl, List.length_pos_iff.mpr some_⟩

/-- Back from the first track of three, and once around. -/
theorem back_and_around :
    ∃ t earlier played, (step inPlace).run (opened ["a", "b", "c"]) [.previous, .next, .next, .next] = some t ∧
      t.plays = earlier ++ played ∧ earlier.length = 1 ∧
      (played.map (·.index)).Perm (List.range 3) := by
  have turns : ∀ op ∈ [Op.previous], op.Turns := List.forall_mem_singleton.mpr trivial
  exact (next_previous_go_around inPlace (at_opened (by simp)) turns).2

/-! ### The previews -/

/-- The previews show what `next` and `previous` would start. -/
def Foresees (s : State) : Prop :=
  peakNext s = (next s).map (·.currentTrack) ∧ peakPrevious s = (previous s).map (·.currentTrack)

section Previews

variable {stale : Stale} {s t : State} {i : Nat} {path : Text}

theorem next_starts (at_ : At s i) : (next s).map (·.currentTrack) =
    s.currentPlaylist.tracks[after s.currentPlaylist.tracks.length i]? := by
  obtain ⟨t, x, taken, turned⟩ := step_turns inPlace at_ (show Op.Turns .next from trivial)
  have moved : next s = some t := taken
  rw [moved, Option.map_some, turned.started]
  exact turned.path.symm

theorem previous_starts (at_ : At s i) : (previous s).map (·.currentTrack) =
    s.currentPlaylist.tracks[before s.currentPlaylist.tracks.length i]? := by
  obtain ⟨t, x, taken, turned⟩ := step_turns inPlace at_ (show Op.Turns .previous from trivial)
  have moved : previous s = some t := taken
  rw [moved, Option.map_some, turned.started]
  exact turned.path.symm

theorem index_of_eq {tracks : List Text} (held : path ∈ tracks) : indexOf tracks path = tracks.idxOf path :=
  if_pos held

/-- The previews look around the first place of the path. -/
theorem peak_next_eq (at_ : At s i) (held : s.currentPlaylist.tracks[i]? = some path) : peakNext s =
    s.currentPlaylist.tracks[after s.currentPlaylist.tracks.length (s.currentPlaylist.tracks.idxOf path)]? := by
  simp only [peakNext, at_.position, Option.bind_eq_bind, Option.bind_some, held,
    index_of_eq (List.mem_of_getElem? held), after]
  split_ifs
  · exact List.head?_eq_getElem?
  · rfl

theorem peak_previous_eq (at_ : At s i) (held : s.currentPlaylist.tracks[i]? = some path) : peakPrevious s =
    s.currentPlaylist.tracks[before s.currentPlaylist.tracks.length (s.currentPlaylist.tracks.idxOf path)]? := by
  simp only [peakPrevious, at_.position, Option.bind_eq_bind, Option.bind_some, held,
    index_of_eq (List.mem_of_getElem? held), before]
  cases first : s.currentPlaylist.tracks.idxOf path with
  | zero =>
    rw [if_pos rfl]
    exact List.getLast?_eq_getElem?
  | succ j => rfl

theorem foresees_iff (at_ : At s i) (held : s.currentPlaylist.tracks[i]? = some path) :
    Foresees s ↔
      SameNeighbours s.currentPlaylist.tracks (s.currentPlaylist.tracks.idxOf path) i := by
  rw [Foresees, peak_next_eq at_ held, peak_previous_eq at_ held, next_starts at_, previous_starts at_]
  rfl

/-- Calls of `next` lead to every index. -/
theorem reaches_index (stale : Stale) (at_ : At s i) {j : Nat} (inside : j < s.currentPlaylist.tracks.length) :
    ∃ k t, (step stale).run s (List.replicate k .next) = some t ∧ At t j ∧
      t.currentPlaylist = s.currentPlaylist := by
  have within := at_.within
  let k := j + s.currentPlaylist.tracks.length - i
  obtain ⟨t, played, reached, same, there, -⟩ := run_turns stale at_ (replicate_turns k)
  have target : (i + k) % s.currentPlaylist.tracks.length = j := by
    have around : i + k = j + s.currentPlaylist.tracks.length := by omega
    rw [around, Nat.add_mod_right, Nat.mod_eq_of_lt inside]
  rw [landing_replicate, target] at there
  exact ⟨k, t, reached, there, same⟩

/-- **The previews.** They show what would be started exactly when the current path has, where it stands
first, the neighbours that it has at the current index. From there on they always do exactly when the
playlist is one list of distinct paths, over and over. -/
theorem previews_agree_iff (stale : Stale) (at_ : At s i) (held : s.currentPlaylist.tracks[i]? = some path) :
    (Foresees s ↔
      SameNeighbours s.currentPlaylist.tracks (s.currentPlaylist.tracks.idxOf path) i) ∧
    ((∀ ops t, (∀ op ∈ ops, op.Turns) → (step stale).run s ops = some t → Foresees t) ↔
      ∃ block k, block.Nodup ∧ s.currentPlaylist.tracks = (List.replicate k block).flatten) := by
  refine ⟨foresees_iff at_ held, ?_⟩
  rw [← same_neighbours_iff_repeated (List.ne_nil_of_mem (List.mem_of_getElem? held))]
  constructor
  · intro all j p there
    obtain ⟨k, t, reached, at_j, same⟩ :=
      reaches_index stale at_ (List.getElem?_eq_some_iff.mp there).1
    rw [← same] at there ⊢
    exact (foresees_iff at_j there).mp (all _ t (replicate_turns k) reached)
  · intro neighbours ops t turns reached
    obtain ⟨u, played, reached', same, there, -⟩ := run_turns stale at_ turns
    cases reached.symm.trans reached'
    obtain ⟨p, here⟩ : ∃ p, t.currentPlaylist.tracks[_]? = some p :=
      ⟨_, List.getElem?_eq_getElem there.within⟩
    apply (foresees_iff there here).mpr
    rw [same] at here ⊢
    exact neighbours _ p here

end Previews

/-- A path that stands once among others that stand twice. -/
theorem single_path_foreseen : Foresees { opened ["a", "b", "a", "c"] with itTrack := ⟨some 1, true⟩ } :=
  (previews_agree_iff inPlace (i := 1) ⟨rfl, by decide⟩ rfl).1.mpr (by decide)

/-- At the second place of a path the previews show the neighbours of the first. -/
theorem repeated_path_not_foreseen :
    ¬ ∀ (playlists : List Playlist) (tables : List Text) (config : Text) (s : State) (ops : List Op) (t : State),
      construct playlists tables config (fun _ => 0) false false = some s →
      (step inPlace).run s ops = some t → (∃ i, At t i) → Foresees t := by
  intro all
  have constructed : construct [⟨"mix", ["a", "b", "a", "c"]⟩] ["mix"] "mix" (fun _ => 0) false false =
      some (opened ["a", "b", "a", "c"]) := rfl
  have foresees := all _ _ _ _ [.next, .next] _ constructed rfl ⟨2, rfl, by decide⟩
  exact absurd foresees.1 (by decide)

end Sws.Player
