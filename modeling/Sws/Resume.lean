import Sws.Catalog
import Sws.Cycling
import Sws.Database.Draining
import Sws.Database.Playlists
import Sws.Sql.Cells

/-! Playing, and constructing the player again from what the database and the configuration then
hold: which playlist is selected, and where in it. -/
namespace Sws.Resume

open Database Sql
open Player (Playlist Op named named_of_mem mem_of_named)

structure State where
  player : Player.State
  db : Db
  /-- The statements pushed and not yet executed. -/
  queries : List Text

inductive Action
  /-- An operation of the player; if it plays, the track is constructed from the files. -/
  | operate (op : Op) (files : Files) (scan : Scan) (duration : Double)
  /-- A track constructed elsewhere, as `player::json` does. -/
  | track (files : Files) (scan : Scan) (duration : Double) (path : Text)
  /-- Whatever other threads push; a scan of the library also adds playlists. -/
  | others (texts : List Text) (added : List Playlist)
  /-- The monitor executes the next statement. -/
  | drain

/-- The database of `player::play`: the track is constructed, and then the position is stored. -/
def record (s : State) (player : Player.State) (files : Files) (scan : Scan) (duration : Double) :
    Option State := do
  let x ← player.plays.getLast?
  let (db, calls) ← files.track scan duration s.db x.path
  return {
    player := player
    db := db
    queries := s.queries ++ calls.flatMap Call.texts ++ [setPlaylistCurrent x.playlist.name x.index] }

def step (stale : Player.Stale) : Steps State Action
  | s, .operate op files scan duration => do
    let player ← Player.step stale s.player op
    match op with
    | .pause | .stop => return { s with player := player }
    | _ => record s player files scan duration
  | s, .track files scan duration path => do
    let (db, calls) ← files.track scan duration s.db path
    return { s with db := db, queries := s.queries ++ calls.flatMap Call.texts }
  | s, .others texts added => some
    { s with
      player := { s.player with playlists := s.player.playlists ++ added }
      queries := s.queries ++ texts }
  | s, .drain =>
    match s.queries with
    | [] => none
    | q :: rest => (exec s.db q).map fun (db, _) => { s with db := db, queries := rest }

/-! ### Constructing the player -/

/-- `player::populate_from_db`. -/
def populateFromDb (scan : Scan) (db : Db) (tables : List Text) : Option (List Playlist) :=
  tables.mapM fun name => (selectPlaylist scan db name).map (⟨name, ·⟩)

/-- `player::populate` over the entries of the library. -/
def populate (files : Files) (entries : List Text) (s : Catalog.State) : Option Catalog.State :=
  entries.foldlM (fun s path => (Catalog.entry files s path).map fun (t, calls) => Catalog.push t calls) s

/-- What the scan leaves where it comes to its end. -/
def visited (files : Files) (entries : List Text) (s : Catalog.State) : Catalog.State :=
  entries.foldl (fun s path => Catalog.push (Catalog.entered files s path).1 (Catalog.entered files s path).2) s

theorem populate_eq (files : Files) (entries : List Text) (s : Catalog.State) :
    populate files entries s = if files.Completes entries then some (visited files entries s) else none := by
  induction entries generalizing s with
  | nil => exact (if_pos (List.forall_mem_nil _)).symm
  | cons path entries ih =>
    have both : files.Completes (path :: entries) ↔ files.Answers path ∧ files.Completes entries :=
      List.forall_mem_cons
    rw [populate, List.foldlM_cons, Catalog.entry_eq]
    by_cases answers : files.Answers path
    · rw [if_pos answers, Option.map_some, Option.bind_eq_bind, Option.bind_some]
      simp only [both, answers, true_and]
      exact ih _
    · rw [if_neg answers, if_neg fun all => answers (both.mp all).1]
      rfl

/-- A scan into an empty catalog, executed to the end, and the playlists read once more. -/
def rescan (files : Files) (entries : List Text) (scan : Scan) (db : Db) (tables : List Text)
    (stored : List Playlist) (catalog : Playlist) : Option (Db × List Playlist) :=
  if catalog.tracks = [] then do
    let populated ← populate files entries
      { db := db, queries := [], catalog := catalog.tracks, playlists := stored }
    let db ← execAll db populated.queries
    return (db, ← populateFromDb scan db tables)
  else some (db, stored)

/-- The constructor of `player`. It waits until there are tables, and scans the library if the
catalog is empty. -/
def construct (files : Files) (entries : List Text) (scan : Scan) (db : Db) (config : Text)
    (isPlaying isPaused : Bool) : Option Player.State := do
  let tables ← tables scan db
  let stored ← populateFromDb scan db tables
  let catalog ← named stored "db_catalog"
  let (db, playlists) ← rescan files entries scan db tables stored catalog
  let current ← named playlists config
  let adv ← getPlaylistCurrent scan db current.name
  Player.construct playlists tables config (fun _ => adv) isPlaying isPaused

/-! ### The playlist -/

/-- The name of the playlist that the configuration selects. -/
def configured (s : Player.State) : Option Text := (named s.playlists s.config).map (·.name)

/-- The configuration selects the current playlist. -/
def Steered (s : Player.State) : Prop := configured s = some s.currentPlaylist.name

/-- The action makes the configured playlist the current one. -/
def Restores (s : State) : Action → Prop
  | .operate .playlistUp .. | .operate .playlistDown .. => True
  | .operate (.setCurrentPlaylist name) .. =>
    (∃ p ∈ s.player.playlists, p.name = name) ∧ configured s.player = some name
  | _ => False

/-- The action makes another playlist than the configured one the current one; or it brings the
configured playlist in while another is current. -/
def Diverts (s : State) : Action → Prop
  | .operate (.setCurrentPlaylist name) .. =>
    (∃ p ∈ s.player.playlists, p.name = name) ∧ configured s.player ≠ some name
  | .others _ added =>
    (∀ p ∈ s.player.playlists, p.name ≠ s.player.config) ∧ ∃ p ∈ added, p.name = s.player.config
  | _ => False

section Playlist

variable {stale : Player.Stale} {s t : Player.State} {op : Op}

/-- `play` leaves the selection and the configuration. -/
theorem selection_of_play (played : Player.play s = some t) :
    t.playlists = s.playlists ∧ t.currentPlaylist = s.currentPlaylist ∧ t.config = s.config := by
  obtain ⟨i, path, -, -, rfl⟩ := Player.play_eq_some_iff.mp played
  exact ⟨rfl, rfl, rfl⟩

/-- The loop of `set_current_playlist` ends with a playlist of that name, if there is one. -/
theorem selection_of_loop (stale : Player.Stale) (name : Text) (playlists : List Playlist)
    (s : Player.State) :
    let t := playlists.foldl (fun s p => if p.name = name then Player.assign stale s p else s) s
    t.config = s.config ∧ ((t.currentPlaylist = s.currentPlaylist ∧ ∀ p ∈ playlists, p.name ≠ name) ∨
      (t.currentPlaylist ∈ playlists ∧ t.currentPlaylist.name = name)) := by
  induction playlists generalizing s with
  | nil => simp
  | cons p playlists ih =>
    rw [List.foldl_cons]
    by_cases same : p.name = name
    · obtain ⟨config, none | found⟩ := ih (Player.assign stale s p)
      · rw [if_pos same]
        refine ⟨config, .inr ⟨?_, ?_⟩⟩
        · rw [none.1]
          exact List.mem_cons_self
        · rw [none.1]
          exact same
      · rw [if_pos same]
        exact ⟨config, .inr ⟨List.mem_cons_of_mem _ found.1, found.2⟩⟩
    · rw [if_neg same]
      obtain ⟨config, none | found⟩ := ih s
      · exact ⟨config, .inl ⟨none.1, List.forall_mem_cons.mpr ⟨same, none.2⟩⟩⟩
      · exact ⟨config, .inr ⟨List.mem_cons_of_mem _ found.1, found.2⟩⟩

/-- What an operation does to the selection and to the configuration. -/
def Selection (s t : Player.State) : Op → Prop
  | .playlistUp | .playlistDown => t.currentPlaylist ∈ s.playlists ∧ t.config = t.currentPlaylist.name
  | .setCurrentPlaylist name => t.config = s.config ∧
    ((t.currentPlaylist = s.currentPlaylist ∧ ∀ p ∈ s.playlists, p.name ≠ name) ∨
      (t.currentPlaylist ∈ s.playlists ∧ t.currentPlaylist.name = name))
  | _ => t.currentPlaylist = s.currentPlaylist ∧ t.config = s.config

theorem selection_of_select (selected : Player.select stale s = some t) :
    t.currentPlaylist ∈ s.playlists ∧ t.config = t.currentPlaylist.name := by
  obtain ⟨name, p, -, found, played⟩ := Player.select_eq_some_iff.mp selected
  obtain ⟨-, current, config⟩ := selection_of_play played
  rw [current, config]
  exact ⟨mem_of_named found, rfl⟩

theorem selection_of_step (taken : Player.step stale s op = some t) : Selection s t op := by
  cases op with
  | next =>
    simp only [Player.step, Player.next, Option.bind_eq_bind, Option.bind_eq_some_iff,
      Option.ite_none_left_eq_some] at taken
    obtain ⟨i, -, -, played⟩ := taken
    exact (selection_of_play played).2
  | previous =>
    simp only [Player.step, Player.previous, Option.bind_eq_bind, Option.bind_eq_some_iff] at taken
    obtain ⟨i, -, moved⟩ := taken
    split at moved
    · exact (selection_of_play moved).2
    · cases moved
  | play => exact (selection_of_play taken).2
  | pause =>
    cases taken
    by_cases already : s.isPaused = true <;>
      exact ⟨by simp [Player.pause, already], by simp [Player.pause, already]⟩
  | stop =>
    cases taken
    exact ⟨rfl, rfl⟩
  | playlistUp =>
    simp only [Player.step, Player.playlistUp] at taken
    split at taken
    · cases taken
    · have moved := selection_of_select taken
      exact moved
  | playlistDown =>
    simp only [Player.step, Player.playlistDown, Option.ite_none_left_eq_some] at taken
    have moved := selection_of_select taken.2
    exact moved
  | setCurrentPlaylist name =>
    obtain ⟨-, current, config⟩ := selection_of_play taken
    obtain ⟨same, selected⟩ := selection_of_loop stale name s.playlists s
    rw [Selection, current, config]
    exact ⟨same, selected⟩

/-- The current playlist is one of the player's. -/
def Selected (s : Player.State) : Prop := s.currentPlaylist ∈ s.playlists

theorem selected_of_step (selected : Selected s) (taken : Player.step stale s op = some t) :
    Selected t := by
  have same := (Player.step_continues taken).playlists
  have moved := selection_of_step taken
  rw [Selected, same]
  cases op with
  | playlistUp | playlistDown => exact moved.1
  | setCurrentPlaylist name =>
    rcases moved.2 with ⟨stays, -⟩ | ⟨held, -⟩
    · exact stays ▸ selected
    · exact held
  | _ => exact moved.1 ▸ selected

theorem configured_eq (playlists : t.playlists = s.playlists) (config : t.config = s.config) :
    configured t = configured s := by
  rw [configured, configured, playlists, config]

/-- A playlist of the configured name is the one configured. -/
theorem configured_of_mem (held : ∃ p ∈ s.playlists, p.name = s.config) :
    configured s = some s.config := by
  obtain ⟨p, found, -, same⟩ := named_of_mem held
  rw [configured, found, Option.map_some, same]

/-- Playlists added at the end are not configured, unless only they have the configured name. -/
theorem named_append {playlists added : List Playlist} {name : Text} (some_ : playlists ≠ [])
    (known : (∃ p ∈ playlists, p.name = name) ∨ ∀ p ∈ added, p.name ≠ name) :
    named (playlists ++ added) name = named playlists name := by
  have head : (playlists ++ added).head? = playlists.head? := by
    cases playlists with
    | nil => exact absurd rfl some_
    | cons p playlists => rfl
  rw [named, named, List.find?_append, head]
  cases found : playlists.find? (·.name = name) with
  | some p => rfl
  | none =>
    rcases known with ⟨p, held, same⟩ | unnamed
    · exact absurd same (by simpa using List.find?_eq_none.mp found p held)
    · have none : added.find? (·.name = name) = none := by simpa using unnamed
      rw [none]
      rfl

end Playlist

variable {stale : Player.Stale} {s t : State} {a : Action}

/-- What a step does to the player is what the operation does; other threads only add playlists. -/
theorem player_of_step (taken : step stale s a = some t) :
    match a with
    | .operate op .. => Player.step stale s.player op = some t.player
    | .others _ added => t.player = { s.player with playlists := s.player.playlists ++ added }
    | .track .. | .drain => t.player = s.player := by
  cases a with
  | operate op files scan duration =>
    simp only [step, Option.bind_eq_bind, Option.bind_eq_some_iff] at taken
    obtain ⟨player, ran, rest⟩ := taken
    have same : t.player = player := by
      split at rest
      · cases rest
        rfl
      · cases rest
        rfl
      · simp only [record, Option.bind_eq_bind, Option.bind_eq_some_iff] at rest
        obtain ⟨x, -, ⟨db, calls⟩, -, done⟩ := rest
        cases done
        rfl
    rw [same]
    exact ran
  | track files scan duration path =>
    simp only [step, Option.bind_eq_bind, Option.bind_eq_some_iff] at taken
    obtain ⟨⟨db, calls⟩, -, done⟩ := taken
    cases done
    rfl
  | others texts added =>
    cases taken
    rfl
  | drain =>
    simp only [step] at taken
    split at taken
    · cases taken
    · obtain ⟨r, -, done⟩ := Option.map_eq_some_iff.mp taken
      cases done
      rfl

theorem selected_step (selected : Selected s.player) (taken : step stale s a = some t) :
    Selected t.player := by
  have moved := player_of_step taken
  cases a with
  | operate op files scan duration => exact selected_of_step selected moved
  | others texts added =>
    rw [moved]
    exact List.mem_append_left _ selected
  | track | drain =>
    rw [show t.player = s.player from moved]
    exact selected

/-- An action makes the configuration select the current playlist, or another one, or neither. -/
theorem steered_step (selected : Selected s.player) (taken : step stale s a = some t) :
    Steered t.player ↔ ¬ Diverts s a ∧ (Restores s a ∨ Steered s.player) := by
  have moved := player_of_step taken
  cases a with
  | operate op files scan duration =>
    have same := (Player.step_continues moved).playlists
    have selection := selection_of_step moved
    cases op with
    | playlistUp | playlistDown =>
      have held : ∃ p ∈ t.player.playlists, p.name = t.player.config :=
        ⟨t.player.currentPlaylist, same ▸ selection.1, selection.2.symm⟩
      have steered : Steered t.player := by
        rw [Steered, configured_of_mem held, selection.2]
      simp [steered, Diverts, Restores]
    | setCurrentPlaylist name =>
      obtain ⟨config, ⟨current, unnamed⟩ | ⟨held, named⟩⟩ := selection
      · have none : ¬ ∃ p ∈ s.player.playlists, p.name = name := fun ⟨p, member, same⟩ =>
          unnamed p member same
        simp only [Steered, configured_eq same config, current, Diverts, Restores, none, false_and,
          not_false_eq_true, true_and, false_or]
      · have there : ∃ p ∈ s.player.playlists, p.name = name := ⟨_, held, named⟩
        rw [Steered, configured_eq same config, named]
        by_cases agrees : configured s.player = some name <;> simp [Diverts, Restores, there, agrees]
    | _ => simp only [Steered, configured_eq same selection.2, selection.1, Diverts, Restores,
        not_false_eq_true, true_and, false_or]
  | others texts added =>
    rw [moved]
    by_cases known : (∃ p ∈ s.player.playlists, p.name = s.player.config) ∨
        ∀ p ∈ added, p.name ≠ s.player.config
    · have calm : ¬ Diverts s (.others texts added) := by
        rintro ⟨unknown, p, held, same⟩
        rcases known with ⟨q, member, named⟩ | unnamed
        · exact unknown q member named
        · exact unnamed p held same
      have same := named_append (List.ne_nil_of_mem selected) known
      simp [Steered, configured, same, calm, Restores]
    · obtain ⟨unknown, p, held, same⟩ : (∀ p ∈ s.player.playlists, p.name ≠ s.player.config) ∧
          ∃ p ∈ added, p.name = s.player.config := by simpa using known
      have diverts : Diverts s (.others texts added) := ⟨unknown, p, held, same⟩
      have own : ∃ p ∈ s.player.playlists ++ added, p.name = s.player.config :=
        ⟨p, List.mem_append_right _ held, same⟩
      have other := unknown s.player.currentPlaylist selected
      have steers : configured { s.player with playlists := s.player.playlists ++ added } =
          some s.player.config := configured_of_mem own
      simp [Steered, steers, diverts, Ne.symm other]
  | track | drain =>
    rw [show t.player = s.player from moved]
    simp [Diverts, Restores]

/-! ### The position -/

/-- The last play, if its index denotes its path in the current playlist. -/
def Played (s : Player.State) (i : Nat) (path : Text) : Prop :=
  (∃ valid, s.plays.getLast? = some ⟨s.currentPlaylist, i, path, valid⟩) ∧
    s.currentPlaylist.tracks[i]? = some path

theorem played_of_step {s t : Player.State} {op : Op} (taken : Player.step stale s op = some t)
    (running : op ≠ .pause) (going : op ≠ .stop) : ∃ i path, Played t i path := by
  obtain ⟨u, played, -, -⟩ := Player.played_of_step taken running going
  obtain ⟨i, path, -, held, rfl⟩ := Player.play_eq_some_iff.mp played
  exact ⟨i, path, ⟨_, List.getLast?_concat⟩, held⟩

/-- An operation that plays is recorded. -/
theorem step_operate {op : Op} {player : Player.State} {files : Files} {scan : Scan} {duration : Double}
    (ran : Player.step stale s.player op = some player) (running : op ≠ .pause) (going : op ≠ .stop) :
    step stale s (.operate op files scan duration) = record s player files scan duration := by
  simp only [step, ran, Option.bind_eq_bind, Option.bind_some]

/-- Its last statement is the `UPDATE` of the position. -/
theorem queries_of_operate {op : Op} {files : Files} {scan : Scan} {duration : Double} {i : Nat}
    {path : Text} (taken : step stale s (.operate op files scan duration) = some t)
    (running : op ≠ .pause) (going : op ≠ .stop) (played : Played t.player i path) :
    ∃ queries, t.queries = queries ++ [setPlaylistCurrent t.player.currentPlaylist.name i] := by
  rw [step_operate (player_of_step taken) running going] at taken
  simp only [record, Option.bind_eq_bind, Option.bind_eq_some_iff] at taken
  obtain ⟨x, last, ⟨db, calls⟩, -, done⟩ := taken
  obtain ⟨valid, same⟩ := played.1
  have own : x = ⟨t.player.currentPlaylist, i, path, valid⟩ := Option.some.inj (last.symm.trans same)
  have queries := congrArg State.queries (Option.some.inj done)
  exact ⟨s.queries ++ calls.flatMap Call.texts, by rw [← queries, own]⟩

/-- An `UPDATE` statement. -/
def updates (q : Text) : Bool := (text "UPDATE").isPrefixOf q

/-- The construction of a track only inserts. -/
theorem updates_of_track {files : Files} {scan : Scan} {duration : Double} {db after : Db} {path : Text}
    {calls : List Call} (constructed : files.track scan duration db path = some (after, calls)) :
    (calls.flatMap Call.texts).filter updates = [] := by
  simp only [Files.track, Option.bind_eq_bind, Option.bind_eq_some_iff] at constructed
  obtain ⟨present, -, constructed⟩ := constructed
  split at constructed
  · simp only [Option.bind_eq_some_iff] at constructed
    obtain ⟨⟨middle, read⟩, -, mime, -, rest⟩ := constructed
    cases rest
    split_ifs <;> rfl
  · cases constructed
    rfl

/-- The operation of the action, where it is one. -/
def Action.operation : Action → Option Op
  | .operate op .. => some op
  | _ => none

/-- A call of `next` or `previous`. -/
def Action.Turns (a : Action) : Prop := ∃ op ∈ a.operation, op.Turns

/-- A call that goes around the list pushes the `UPDATE` of the index it reaches, and no other. -/
theorem updates_of_turn {op : Op} {files : Files} {scan : Scan} {duration : Double} {i : Nat}
    (at_ : Player.At s.player i) (turns : op.Turns) (taken : step stale s (.operate op files scan duration) = some t) :
    Player.At t.player (op.turn s.player.currentPlaylist.tracks.length i) ∧
      t.player.currentPlaylist = s.player.currentPlaylist ∧
      t.queries.filter updates = s.queries.filter updates ++
        [setPlaylistCurrent s.player.currentPlaylist.name (op.turn s.player.currentPlaylist.tracks.length i)] := by
  obtain ⟨player, x, ran, turned⟩ := Player.step_turns stale at_ turns
  have running : op ≠ .pause := by rintro rfl; cases turns
  have going : op ≠ .stop := by rintro rfl; cases turns
  rw [step_operate ran running going] at taken
  simp only [record, Option.bind_eq_bind, Option.bind_eq_some_iff] at taken
  obtain ⟨y, last, ⟨db, calls⟩, constructed, done⟩ := taken
  rw [turned.plays, List.getLast?_concat] at last
  cases last
  cases done
  refine ⟨turned.at_, turned.playlist, ?_⟩
  rw [List.filter_append, List.filter_append, updates_of_track constructed, List.append_nil, turned.list,
    turned.index]
  rfl

/-- **The positions stored.** However often `next` and `previous` are called, each call pushes one `UPDATE`: of
the position of the current playlist to the index that the calls so far have led to. -/
theorem updates_run {actions : List Action} {i : Nat} (at_ : Player.At s.player i)
    (turns : ∀ a ∈ actions, a.Turns) (reached : (step stale).run s actions = some t) :
    t.queries.filter updates = s.queries.filter updates ++ (List.range actions.length).map fun k =>
      setPlaylistCurrent s.player.currentPlaylist.name
        (Player.landing s.player.currentPlaylist.tracks.length i
          ((actions.filterMap Action.operation).take (k + 1))) := by
  induction actions generalizing s i with
  | nil =>
    cases reached
    exact (List.append_nil _).symm
  | cons a actions ih =>
    obtain ⟨⟨op, own, turn⟩, others⟩ := List.forall_mem_cons.mp turns
    obtain ⟨u, taken, onwards⟩ := Steps.run_cons_iff.mp reached
    cases a with
    | operate op' files scan duration =>
      cases own
      obtain ⟨there, same, pushed⟩ := updates_of_turn at_ turn taken
      have inside := at_.within
      have onwards := ih there others onwards
      rw [same] at onwards
      rw [onwards, pushed, List.append_assoc, List.length_cons, List.range_succ_eq_map, List.map_cons,
        List.map_map, List.singleton_append]
      congr 2
      · have one := Player.landing_cons inside turn []
        rw [Player.landing_nil (Player.turn_lt inside op)] at one
        exact congrArg (fun j : Nat => setPlaylistCurrent _ j) one.symm
      · refine List.map_congr_left fun k _ => congrArg (fun j : Nat => setPlaylistCurrent _ j) ?_
        exact (Player.landing_cons inside turn _).symm
    | _ => cases own

/-- The register has a position for the playlist, and a statement can name it. -/
def Registered (db : Db) (name : Text) : Prop :=
  nul ∉ name ∧ db.Has "_playlist" "current" [{ operand := .column "name", value := .text name }]

/-- The position read back right after it was stored: where the register has none for the playlist,
it is zero. -/
theorem position_read_back {scan : Scan} {db after : Db} {name : Text} {i adv : Int} {ok : Bool}
    (full : db.Full) (stored : exec db (setPlaylistCurrent name i) = some (after, ok))
    (read : getPlaylistCurrent scan after name = some adv) :
    (Registered after name ∧ adv = i) ∨ (¬ Registered after name ∧ adv = 0) := by
  rw [getPlaylistCurrent, (get_playlist_current_denotes name).query_eq] at read
  rw [(set_playlist_current_denotes name i).exec_eq] at stored
  by_cases cut : nul ∈ name
  · rw [if_pos (nul_mem_get_playlist_current_query.mpr cut)] at read
    cases read
    exact .inr ⟨fun registered => registered.1 cut, rfl⟩
  rw [if_neg (mt nul_mem_get_playlist_current_query.mp cut)] at read
  rw [if_neg (mt nul_mem_set_playlist_current.mp cut)] at stored
  have own : fold "_playlist" ≠ text "sqlite_master" := by decide
  unfold firstInt at read
  split at read
  next row rows answered =>
    have has := (has_iff_of_read own answered).mpr (List.cons_ne_nil _ _)
    obtain ⟨a, w, kept, rfl⟩ := read_of_update full own stored answered
    refine .inl ⟨⟨cut, has⟩, ?_⟩
    cases a <;> cases kept <;> cases read
    all_goals rfl
  next answered =>
    cases read
    exact .inr ⟨fun registered => absurd rfl ((has_iff_of_read own answered).mp registered.2), rfl⟩
  next answered =>
    cases read
    exact .inr ⟨fun registered => not_has_of_rejected own answered registered.2, rfl⟩
  next => cases read

/-! ### Resuming -/

/-- The actions of the monitor. -/
def Action.drains : Action → Prop
  | .drain => True
  | _ => False

theorem drain_front (drains : a.drains) (taken : step stale s a = some t) :
    ∃ q ok, s.queries = q :: t.queries ∧ exec s.db q = some (t.db, ok) := by
  cases a with
  | drain =>
    simp only [step] at taken
    split at taken
    · cases taken
    next q rest waiting =>
      obtain ⟨r, ran, done⟩ := Option.map_eq_some_iff.mp taken
      cases done
      exact ⟨q, r.2, waiting, ran⟩
  | _ => cases drains

theorem player_of_drained (drained : (step stale).Reaches Action.drains s t) : t.player = s.player := by
  have keeps : ∀ u a v, u.player = s.player → a.drains → step stale u a = some v → v.player = s.player := by
    intro u a v kept drains taken
    cases a with
    | drain => exact (player_of_step taken).trans kept
    | _ => cases drains
  have kept := drained.preserved keeps rfl
  exact kept

theorem full_step (full : s.db.Full) (taken : step stale s a = some t) : t.db.Full := by
  have constructed {files : Files} {scan : Scan} {duration : Double} {path : Text} {r : Db × List Call}
      (ran : files.track scan duration s.db path = some r) : r.1.Full := by
    rcases Files.track_db ran with same | ⟨ok, created⟩
    · exact same ▸ full
    · exact exec_full full created
  cases a with
  | operate op files scan duration =>
    simp only [step, Option.bind_eq_bind, Option.bind_eq_some_iff] at taken
    obtain ⟨player, -, rest⟩ := taken
    split at rest
    · cases rest
      exact full
    · cases rest
      exact full
    · simp only [record, Option.bind_eq_bind, Option.bind_eq_some_iff] at rest
      obtain ⟨x, -, r, ran, done⟩ := rest
      cases done
      exact constructed ran
  | track files scan duration path =>
    simp only [step, Option.bind_eq_bind, Option.bind_eq_some_iff] at taken
    obtain ⟨r, ran, done⟩ := taken
    cases done
    exact constructed ran
  | others texts added =>
    cases taken
    exact full
  | drain =>
    obtain ⟨q, ok, -, ran⟩ := drain_front (a := .drain) trivial taken
    exact exec_full full ran

/-- The playlists of the database are those the player has, and the catalog is not empty, so that
constructing the player does not scan the library. -/
def Unchanged (scan : Scan) (s : State) : Prop :=
  (∃ names, tables scan s.db = some names ∧ populateFromDb scan s.db names = some s.player.playlists) ∧
    ∀ p, named s.player.playlists "db_catalog" = some p → p.tracks ≠ []

/-- The player has the same current playlist, and in it the place of the path played last. -/
def Resumes (s : State) (u : Player.State) : Prop :=
  u.currentPlaylist = s.player.currentPlaylist ∧
    ∃ x j, s.player.plays.getLast? = some x ∧ u.itTrack.position = some j ∧
      u.currentPlaylist.tracks[j]? = some x.path

/-- Playlists read from the database have the names of its tables. -/
theorem names_of_populate {scan : Scan} {db : Db} {names : List Text} {playlists : List Playlist}
    (read : populateFromDb scan db names = some playlists) : playlists.map (·.name) = names := by
  rw [populateFromDb] at read
  induction names generalizing playlists with
  | nil =>
    cases read
    rfl
  | cons name names ih =>
    simp only [List.mapM_cons, Option.bind_eq_bind, Option.bind_eq_some_iff, Option.map_eq_some_iff] at read
    obtain ⟨p, ⟨paths, -, rfl⟩, rest, others, done⟩ := read
    cases done
    rw [List.map_cons, ih others]

/-- They have names of their own. -/
theorem nodup_names {scan : Scan} (unchanged : Unchanged scan s) :
    (s.player.playlists.map (·.name)).Nodup := by
  obtain ⟨names, all, read⟩ := unchanged.1
  obtain ⟨names', all', perm⟩ := tables_perm scan s.db
  cases all.symm.trans all'
  rw [names_of_populate read]
  exact perm.nodup_iff.mpr (nodup_shown_tables s.db)

/-- What the constructor selects, when the playlists are unchanged. -/
theorem construct_unchanged {files : Files} {entries : List Text} {scan : Scan} {isPlaying isPaused : Bool}
    {u : Player.State} (unchanged : Unchanged scan s)
    (again : construct files entries scan s.db s.player.config isPlaying isPaused = some u) :
    named s.player.playlists s.player.config = some u.currentPlaylist ∧
      ∃ adv, getPlaylistCurrent scan s.db u.currentPlaylist.name = some adv ∧
        u.itTrack.position =
          some (if 0 ≤ adv ∧ adv < u.currentPlaylist.tracks.length then adv.toNat else 0) := by
  obtain ⟨names, all, read⟩ := unchanged.1
  simp only [construct, all, read, Option.bind_eq_bind, Option.bind_some, Option.bind_eq_some_iff] at again
  obtain ⟨catalog, found, ⟨db, playlists⟩, scanned, current, selected, adv, position, built⟩ := again
  rw [rescan, if_neg (unchanged.2 catalog found)] at scanned
  cases scanned
  simp only [Player.construct, selected, Option.bind_eq_bind, Option.bind_some, Option.pure_def,
    Option.some.injEq] at built
  subst built
  exact ⟨selected, adv, position, rfl⟩

theorem selected_of_construct {playlists : List Playlist} {tables : List Text} {config : Text}
    {position : Text → Int} {isPlaying isPaused : Bool} {s : Player.State}
    (initially : Player.construct playlists tables config position isPlaying isPaused = some s) :
    Selected s ∧ Steered s := by
  simp only [Player.construct, Option.bind_eq_bind, Option.bind_eq_some_iff, Option.pure_def,
    Option.some.injEq] at initially
  obtain ⟨current, found, rfl⟩ := initially
  exact ⟨mem_of_named found, by rw [Steered, configured, found]; rfl⟩

theorem exec_all_full {db after : Db} {queue : List Text} (full : db.Full)
    (ran : execAll db queue = some after) : after.Full :=
  exec_all_preserves (P := Db.Full) (fun _ _ _ _ _ executed held => exec_full held executed) ran full

/-- After the queue is drained, the position stored for the last play is the one read back, if the
register has any for the playlist. -/
theorem position_of_drained {middle : State} {op : Op} {files : Files} {scan scan' : Scan}
    {duration : Double} {i : Nat} {path : Text} {adv : Int} (full : s.db.Full)
    (taken : step stale s (.operate op files scan duration) = some middle) (running : op ≠ .pause)
    (going : op ≠ .stop) (played : Played middle.player i path)
    (drained : (step stale).Reaches Action.drains middle t) (empty : t.queries = [])
    (read : getPlaylistCurrent scan' t.db middle.player.currentPlaylist.name = some adv) :
    (Registered t.db middle.player.currentPlaylist.name ∧ adv = i) ∨
      (¬ Registered t.db middle.player.currentPlaylist.name ∧ adv = 0) := by
  obtain ⟨queue, queued⟩ := queries_of_operate taken running going played
  obtain ⟨done, all, ran⟩ := exec_all_of_drained (fun _ _ _ => drain_front) drained
  rw [empty, List.append_nil] at all
  rw [← all, queued, exec_all_append] at ran
  obtain ⟨db, front, last⟩ := Option.bind_eq_some_iff.mp ran
  obtain ⟨⟨after, ok⟩, stored, same⟩ := Option.bind_eq_some_iff.mp last
  cases same
  exact position_read_back (exec_all_full (full_step full taken) front) stored read

/-- Files that all exist, and whose hashes are those in the database. -/
def library : Files where
  present := fun _ => some true
  regular := fun _ => some true
  lines := fun _ => []
  mime := fun _ => some "audio/mpeg"
  hash := fun _ => "0"

/-- A database with two tracks and no playlist. -/
def catalog : Table :=
  { emptyCatalog with
    rows := [{ path := "a.mp3", md5 := "0" : Song }.values, { path := "b.mp3", md5 := "0" : Song }.values] }

def register : Table :=
  { name := "_playlist", columns := Shape.register.columns, key := Shape.register.key }

def stored : Db := (Db.empty.create catalog).create register

def listed : List Playlist := [⟨"db_catalog", ["a.mp3", "b.mp3"]⟩]

/-- The player just constructed. -/
def fresh : Player.State where
  playlists := listed
  playlistTables := ["db_catalog"]
  it := 0
  currentPlaylist := ⟨"db_catalog", ["a.mp3", "b.mp3"]⟩
  itTrack := ⟨some 0, true⟩
  currentTrack := ""
  lifetime := .alive
  isPlaying := false
  isPaused := false
  pipeline := .null
  config := "db_catalog"
  plays := []

/-- The same after `next`. -/
def forward : Player.State :=
  { fresh with
    itTrack := ⟨some 1, true⟩
    currentTrack := "b.mp3"
    isPlaying := true
    pipeline := .playing
    plays := [⟨⟨"db_catalog", ["a.mp3", "b.mp3"]⟩, 1, "b.mp3", true⟩] }

theorem lookup_catalog : stored.lookup "db_catalog" = some catalog := rfl

theorem lookup_register : stored.lookup "_playlist" = some register := rfl

theorem declared_catalog : Declared .catalog catalog := ⟨rfl, rfl⟩

theorem declared_register : Declared .register register := ⟨rfl, rfl⟩

/-- The track of `b.mp3` is in the database as it is in the files. -/
theorem track_stored : library.track .stored ⟨0⟩ stored "b.mp3" = some (stored, []) := by
  have created : exec stored createCatalog = some (stored, true) := by
    rw [exec_create_catalog, lookup_catalog]
    rfl
  have clean : nul ∉ selectTrackQuery "b.mp3" := mt nul_mem_select_track_query.mp (by decide)
  have found : query .stored stored (selectTrackQuery "b.mp3") =
      .ok [[.text "", .int 0, .text "", .int 0, .text "", .int 0, .text "", .text "0"]] := by
    rw [(select_track_denotes _).query_eq, if_neg clean, select_track_eq .stored lookup_catalog declared_catalog]
    exact congrArg Except.ok (by decide)
  have selected : selectTrack .stored ⟨0⟩ stored "b.mp3" =
      some (stored, { path := "b.mp3", md5 := "0", found := true }) := by
    rw [selectTrack, created]
    simp only [Option.bind_eq_bind, Option.bind_some, found]
    rfl
  have there : library.present "b.mp3" = some true := rfl
  have kind : library.mime "b.mp3" = some "audio/mpeg" := rfl
  simp only [Files.track, there, kind, selected, Option.bind_eq_bind, Option.bind_some, if_true]
  rfl

theorem moved_next (stale : Player.Stale) : Player.step stale fresh .next = some forward := rfl

theorem last_next : forward.plays.getLast? = some ⟨⟨"db_catalog", ["a.mp3", "b.mp3"]⟩, 1, "b.mp3", true⟩ := rfl

theorem record_next : record ⟨fresh, stored, []⟩ forward library .stored ⟨0⟩ =
    some ⟨forward, stored, [setPlaylistCurrent "db_catalog" 1]⟩ := by
  rw [record, last_next, Option.bind_eq_bind, Option.bind_some]
  dsimp only
  rw [track_stored]
  rfl

theorem step_next (stale : Player.Stale) : step stale ⟨fresh, stored, []⟩ (.operate .next library .stored ⟨0⟩) =
    some ⟨forward, stored, [setPlaylistCurrent "db_catalog" 1]⟩ :=
  (step_operate (s := ⟨fresh, stored, []⟩) (moved_next stale) Op.noConfusion Op.noConfusion).trans record_next

/-- No row of the register is updated. -/
theorem exec_stored : exec stored (setPlaylistCurrent "db_catalog" 1) = some (stored, true) := by
  have clean : nul ∉ setPlaylistCurrent "db_catalog" 1 := mt nul_mem_set_playlist_current.mp (by decide)
  have ran := set_playlist_current_eq lookup_register declared_register "db_catalog" 1
  have same : stored.put register = stored := Db.put_of_lookup lookup_register
  rw [(set_playlist_current_denotes _ _).exec_eq, if_neg clean]
  exact congrArg (outcome stored) (ran.trans (congrArg Except.ok same))

theorem tables_stored : tables .stored stored = some [text "db_catalog"] := by
  obtain ⟨names, all, perm⟩ := tables_perm .stored stored
  have shown : shownTables stored = [text "db_catalog"] := by decide
  rw [shown, List.perm_singleton] at perm
  rw [all, perm]

theorem populate_stored : populateFromDb .stored stored [text "db_catalog"] = some listed := by
  have read : selectPlaylist .stored stored "db_catalog" = some [text "a.mp3", text "b.mp3"] := by
    rw [select_playlist_eq .stored lookup_catalog rfl (by decide) (by decide) (by decide)]
    decide
  rw [populateFromDb, List.mapM_cons, read]
  rfl

theorem position_stored : getPlaylistCurrent .stored stored "db_catalog" = some 0 := by
  have clean : nul ∉ getPlaylistCurrentQuery "db_catalog" :=
    mt nul_mem_get_playlist_current_query.mp (by decide)
  have answered : query .stored stored (getPlaylistCurrentQuery "db_catalog") = .ok [] := by
    rw [(get_playlist_current_denotes _).query_eq, if_neg clean,
      select_eq .stored ((source_eq (by decide)).trans lookup_register) rfl rfl]
    rfl
  rw [getPlaylistCurrent, answered]
  rfl

theorem construct_stored : construct library [] .stored stored "db_catalog" false false = some fresh := by
  have found : named listed "db_catalog" = some ⟨"db_catalog", ["a.mp3", "b.mp3"]⟩ := rfl
  have kept : rescan library [] .stored stored [text "db_catalog"] listed ⟨"db_catalog", ["a.mp3", "b.mp3"]⟩ =
      some (stored, listed) := rfl
  simp only [construct, tables_stored, populate_stored, Option.bind_eq_bind, Option.bind_some, found, kept,
    position_stored]
  rfl

theorem drain_next (stale : Player.Stale) :
    (step stale).Reaches Action.drains ⟨forward, stored, [setPlaylistCurrent "db_catalog" 1]⟩
      ⟨forward, stored, []⟩ := by
  refine Steps.Reaches.single (show Action.drains .drain from trivial) ?_
  simp only [step, exec_stored, Option.map_some]

theorem full_stored : stored.Full := by
  change ∀ t ∈ stored.tables, ∀ r ∈ t.rows, r.length = t.columns.length
  decide

theorem unchanged_stored : Unchanged .stored ⟨forward, stored, []⟩ := by
  refine ⟨⟨_, tables_stored, populate_stored⟩, fun p found => ?_⟩
  cases found
  exact List.cons_ne_nil _ _

theorem construct_fresh :
    Player.construct listed ["db_catalog"] "db_catalog" (fun _ => 0) false false = some fresh := rfl

theorem run_next (stale : Player.Stale) :
    (step stale).run ⟨fresh, stored, []⟩ ([] ++ [.operate .next library .stored ⟨0⟩]) =
      some ⟨forward, stored, [setPlaylistCurrent "db_catalog" 1]⟩ :=
  Steps.run_cons_iff.mpr ⟨_, step_next stale, rfl⟩

end Sws.Resume
