import Sws.Database.Stock
import Sws.Files
import Sws.Transition

/-! The writers of `db_catalog`: library scans, constructions of tracks, and the two insertions
themselves, with the statement queue drained one statement at a time at any point. The declared
type `TEXT PRIMARY_KEY` gives the table no key, so nothing but the writers' own checks keeps a path
from standing in two rows. -/
namespace Sws.Catalog

open Database Sql

structure State where
  db : Db
  /-- The statements pushed and not yet executed. -/
  queries : List Text
  /-- `player::db_catalog.tracks`. -/
  catalog : List Text
  playlists : List Player.Playlist

/-- A thread that another one interrupts in the construction of a track selects and then inserts;
these insertions are the actions of that name. -/
inductive Action
  /-- One iteration of the loop of `player::populate`. -/
  | entry (files : Files) (path : Text)
  /-- The constructor of `track`. -/
  | track (files : Files) (scan : Scan) (duration : Double) (path : Text)
  | insertPath (path : Text)
  | insertTrack (s : Song)
  /-- What the worker for durations pushes after a construction. -/
  | updateDuration (path : Text) (duration : Double)
  /-- The monitor executes the next statement. -/
  | drain

/-- `player::populate` on one directory entry. A playlist that is there already is filled again. -/
def entry (files : Files) (s : State) (path : Text) : Option (State × List Call) := do
  let regular ← files.regular path
  if regular then
    if Files.isPlaylistFile path then
      let (pl, calls) ← files.playlist path
      if s.playlists.any fun p => p.name = pl.name then
        return (s, calls ++ [.addToPlaylist pl.name pl.tracks])
      else return ({ s with playlists := s.playlists ++ [pl] }, calls)
    else
      let audio ← files.isAudioFile path
      if audio ∧ path ∉ s.catalog then
        return ({ s with catalog := s.catalog ++ [path] }, [.insertPath path])
      else return (s, [])
  else return (s, [])

/-- What an action changes by itself, and the calls it makes. -/
def act (s : State) : Action → Option (State × List Call)
  | .entry files path => entry files s path
  | .track files scan duration path =>
    (files.track scan duration s.db path).map fun (db, calls) => ({ s with db := db }, calls)
  | .insertPath path => some (s, [.insertPath path])
  | .insertTrack song => some (s, [.insertTrack song])
  | .updateDuration path duration => some (s, [.updateDuration path duration])
  | .drain =>
    match s.queries with
    | [] => none
    | q :: rest => (exec s.db q).map fun (db, _) => ({ s with db := db, queries := rest }, [])

def push (s : State) (calls : List Call) : State :=
  { s with queries := s.queries ++ calls.flatMap Call.texts }

def step : Steps State Action := fun s a => (act s a).map fun (t, calls) => push t calls

/-- An empty database, just opened. -/
def initial (catalog : List Text) (playlists : List Player.Playlist) : State :=
  { db := .empty, queries := opening, catalog := catalog, playlists := playlists }

/-! ### Paths -/

def paths (t : Table) : List Value := t.rows.map fun r => t.cell r "path"

/-- The paths of the rows of `db_catalog`. -/
def catalogPaths (db : Db) : List Value := (db.lookup "db_catalog").elim [] paths

/-- The path a statement inserts into the catalog. -/
def insertedBy : Stmt → Option Text
  | .insert false table _ [.text path :: _] => if fold table = text "db_catalog" then some path else none
  | _ => none

/-- The same for a text; one that SQLite rejects inserts nothing. -/
def inserted (q : Text) : Option Text := (single? q).bind insertedBy

/-- The paths with a statement waiting to insert them. -/
def pending (queries : List Text) : List Text := queries.filterMap inserted

/-- The paths of the rows, and of the rows to come. -/
def account (s : State) : List Value := catalogPaths s.db ++ (pending s.queries).map Value.text

/-- What the action gives the program to put into a text as it is needs no quoting: the name of a playlist
file that has tracks, and the two texts of a song that `song::escape` leaves alone. -/
def Action.Plain : Action → Prop
  | .entry files path => files.regular path = some true → Files.isPlaylistFile path = true →
      files.tracks path ≠ [] → ']' ∉ Files.stem path
  | .insertTrack song => quote ∉ song.spotifyId ∧ quote ∉ song.md5
  | .track .. | .insertPath _ | .updateDuration _ _ | .drain => True

/-- What an entry does when everything asked of it is answered. -/
def entered (files : Files) (s : State) (path : Text) : State × List Call :=
  if files.regular path = some true then
    if Files.isPlaylistFile path then
      let (pl, calls) := files.playlistOf path
      if s.playlists.any fun p => p.name = pl.name then
        (s, calls ++ [.addToPlaylist pl.name pl.tracks])
      else ({ s with playlists := s.playlists ++ [pl] }, calls)
    else if files.isAudioFile path = some true ∧ path ∉ s.catalog then
      ({ s with catalog := s.catalog ++ [path] }, [.insertPath path])
    else (s, [])
  else (s, [])

theorem entry_eq (files : Files) (s : State) (path : Text) :
    entry files s path = if files.Answers path then some (entered files s path) else none := by
  have answers : files.Answers path ↔ (files.regular path).isSome ∧ (files.regular path = some true →
      if Files.isPlaylistFile path then files.Loads path else (files.mime path).isSome) := Iff.rfl
  simp only [answers, entry, entered]
  cases files.regular path with
  | none => simp
  | some regular =>
    cases regular with
    | false => simp
    | true =>
      by_cases kind : Files.isPlaylistFile path = true
      · rw [Option.bind_eq_bind, Option.bind_some, if_pos rfl, if_pos kind, Files.playlist_eq]
        by_cases loads : files.Loads path
        · simp only [kind, loads, if_true, Option.bind_eq_bind, Option.bind_some, Option.isSome_some,
            true_and, implies_true]
          split_ifs <;> rfl
        · simp [kind, loads]
      · cases mime : files.mime path with
        | none => simp [kind, Files.isAudioFile, mime]
        | some type =>
          simp only [kind, Files.isAudioFile, mime, Option.map_some, Option.bind_eq_bind, Option.bind_some]
          by_cases new : Files.audioType type = true ∧ path ∉ s.catalog <;> simp [new]

/-- The path has neither a row nor a statement waiting to insert one. -/
def Novel (s : State) (path : Text) : Prop := .text path ∉ catalogPaths s.db ∧ path ∉ pending s.queries

/-- The state and the files leave the action nothing to insert but a novel path: an entry is an audio file that
is not novel only where the player knows it; the row that a construction meets first is current, or the file has
no tags to read. A text with a NUL inserts nothing. -/
def Fresh (s : State) : Action → Prop
  | .entry files path => files.regular path = some true → Files.isPlaylistFile path = false →
      files.isAudioFile path = some true → path ∉ s.catalog → nul ∉ path → Novel s path
  | .track files scan _ path => files.present path = some true → nul ∉ path →
      ∃ e, Finds scan s.db path e ∧ (e.hash = files.hash path ∨ files.isAudioFile path = some false)
  | .insertPath path => nul ∉ path → Novel s path
  | .insertTrack song => song.Clean → Novel s song.path
  | .updateDuration _ _ | .drain => True

section Tables

variable {db after : Db} {t : Table} {stmt : Stmt} {q : Text}

theorem cell_path (declared : Declared .catalog t) (r : Row) : t.cell r "path" = r[0]?.getD .null := by
  obtain ⟨name, columns, key, rows⟩ := t
  cases declared.columns
  rfl

theorem catalog_paths_of_lookup (found : db.lookup "db_catalog" = some t) : catalogPaths db = paths t := by
  rw [catalogPaths, found]
  rfl

theorem inserted_eq (denotes : Denotes q stmt) :
    inserted q = if nul ∈ q then none else insertedBy stmt := by
  rw [inserted, denotes.single_eq]
  split <;> rfl

/-- The catalog is there, with these paths. -/
def Holds (db : Db) (held : List Value) : Prop :=
  ∃ t, db.lookup "db_catalog" = some t ∧ Declared .catalog t ∧ paths t = held

theorem catalog_paths_of_holds {held : List Value} (holds : Holds db held) : catalogPaths db = held := by
  obtain ⟨t, found, -, rfl⟩ := holds
  exact catalog_paths_of_lookup found

/-- A row more in the catalog. -/
theorem holds_insert (found : db.lookup "db_catalog" = some t) (declared : Declared .catalog t)
    {r : Row} {path : Text} (first : r[0]? = some (.text path)) :
    Holds (db.put { t with rows := t.rows ++ [r] }) (paths t ++ [.text path]) := by
  have same : Declared .catalog { t with rows := t.rows ++ [r] } := ⟨declared.columns, declared.key⟩
  have name : fold t.name = fold (text "db_catalog") := Db.fold_name_of_lookup found
  refine ⟨_, Db.lookup_put_self found name, same, ?_⟩
  simp [paths, cell_path same, cell_path declared, first]

/-! ### Statements -/

/-- A statement that succeeds adds to the paths the one it inserts. -/
theorem known_adds (known : Known stmt) (found : db.lookup "db_catalog" = some t)
    (declared : Declared .catalog t) (ran : execute db stmt = .ok after) :
    Holds after (paths t ++ (insertedBy stmt).toList.map Value.text) := by
  obtain ⟨path, rfl, rfl⟩ | ⟨s, rfl, rfl⟩ | ⟨path, millionths, rfl, rfl⟩ | ⟨quiet, same⟩ :=
    known_catalog known found declared ran
  · exact holds_insert found declared (r := pathRow path) rfl
  · exact holds_insert found declared (r := s.values) rfl
  · have name : fold t.name = fold (text "db_catalog") := Db.fold_name_of_lookup found
    refine ⟨_, Db.lookup_put_self found name, ⟨declared.columns, declared.key⟩, ?_⟩
    have same {rows : List Row} : Declared .catalog { t with rows := rows } :=
      ⟨declared.columns, declared.key⟩
    have none : (insertedBy (.update "db_catalog" [("duration", .real millionths)]
        [{ operand := .column "path", value := .text path }])).toList = [] := rfl
    simp only [none, List.map_nil, List.append_nil, paths, List.map_map, cell_path same]
    refine List.map_congr_left fun r _ => ?_
    simp only [Function.comp_apply]
    split
    · rw [List.getElem?_set_ne (by decide)]
    · rfl
  · have none : insertedBy stmt = none := by
      unfold insertedBy
      split
      next _ table columns path values => exact absurd rfl (quiet table columns _)
      next => rfl
    exact ⟨t, same, declared, by simp [none]⟩

/-- No insertion into the catalog is ever rejected: it has no key to conflict with. -/
theorem known_rejected (known : Known stmt) (found : db.lookup "db_catalog" = some t)
    (declared : Declared .catalog t) (refused : execute db stmt = .error .rejected) :
    insertedBy stmt = none := by
  cases known with
  | insertPath path => cases (insert_path_eq found declared path).symm.trans refused
  | insertTrack s => cases (insert_track_eq found declared s).symm.trans refused
  | _ => rfl

/-- Every known text can be executed, and adds the path it inserts. -/
theorem exec_adds (denotes : Denotes q stmt) (known : Known stmt) (shaped : Shaped db)
    (found : db.lookup "db_catalog" = some t) (declared : Declared .catalog t) :
    ∃ after ok, exec db q = some (after, ok) ∧ Shaped after ∧
      Holds after (paths t ++ (inserted q).toList.map Value.text) := by
  rw [denotes.exec_eq, inserted_eq denotes]
  by_cases cut : nul ∈ q
  · rw [if_pos cut, if_pos cut]
    exact ⟨db, false, rfl, shaped, t, found, declared, by simp⟩
  · rw [if_neg cut, if_neg cut]
    cases result : execute db stmt with
    | ok after =>
      exact ⟨after, true, rfl, known_shaped known shaped result, known_adds known found declared result⟩
    | error fault =>
      cases fault with
      | rejected =>
        have none := known_rejected known found declared result
        exact ⟨db, false, rfl, shaped, t, found, declared, by simp [none]⟩
      | unmodelled =>
        have catalog : ∀ u, db.lookup "db_catalog" = some u → Declared .catalog u := by
          rintro u there
          cases found.symm.trans there
          exact declared
        exact absurd result (known_modelled known shaped catalog)

/-- `CREATE TABLE`, pushed or executed by `select_track`: the catalog is there afterwards. -/
theorem catalog_created (shaped : Shaped db)
    (shape : ∀ t, db.lookup "db_catalog" = some t → Declared .catalog t) :
    ∃ after, exec db createCatalog = some (after, true) ∧ Shaped after ∧ Holds after (catalogPaths db) := by
  refine ⟨_, exec_create_catalog db, ?_⟩
  cases found : db.lookup "db_catalog" with
  | some t => exact ⟨shaped, t, found, shape t found, (catalog_paths_of_lookup found).symm⟩
  | none =>
    refine ⟨fun u held => ?_, emptyCatalog, Db.lookup_create_self found rfl, declared_empty_catalog, ?_⟩
    · rcases Db.mem_create held with rfl | old
      · exact ⟨.catalog, declared_empty_catalog⟩
      · exact shaped u old
    · rw [catalogPaths, found]
      rfl

end Tables

/-! ### Runs -/

/-- Only known statements wait, and the catalog, if it is there, is the declared table; until then
its declaration comes first. -/
structure Ready (s : State) : Prop where
  known : ∀ q ∈ s.queries, ∃ stmt, Denotes q stmt ∧ Known stmt
  shaped : Shaped s.db
  declared : ∀ t, s.db.lookup "db_catalog" = some t → Declared .catalog t
  opening : s.db.lookup "db_catalog" = none → s.queries.head? = some createCatalog

variable {s t : State} {a : Action}

theorem ready_of_holds {db : Db} {queries catalog : List Text} {playlists : List Player.Playlist}
    {held : List Value} (known : ∀ q ∈ queries, ∃ stmt, Denotes q stmt ∧ Known stmt) (shaped : Shaped db)
    (holds : Holds db held) : Ready ⟨db, queries, catalog, playlists⟩ := by
  obtain ⟨t, found, declared, -⟩ := holds
  refine ⟨known, shaped, fun u there => ?_, fun absent => ?_⟩
  · cases found.symm.trans there
    exact declared
  · cases found.symm.trans absent

/-- Whatever waits can be executed, and takes its path from those waiting to those with a row. -/
theorem ready_drain {q : Text} {rest : List Text} (ready : Ready s) (queued : s.queries = q :: rest) :
    ∃ after, act s .drain = some ({ s with db := after, queries := rest }, []) ∧
      Ready { s with db := after, queries := rest } ∧
      account { s with db := after, queries := rest } = account s := by
  obtain ⟨stmt, denotes, known⟩ := ready.known q (by rw [queued]; exact List.mem_cons_self)
  have others : ∀ r ∈ rest, ∃ stmt, Denotes r stmt ∧ Known stmt := fun r member =>
    ready.known r (by rw [queued]; exact List.mem_cons_of_mem _ member)
  have runs : ∃ after ok, exec s.db q = some (after, ok) ∧ Shaped after ∧
      Holds after (catalogPaths s.db ++ (inserted q).toList.map Value.text) := by
    cases found : s.db.lookup "db_catalog" with
    | none =>
      have first := ready.opening found
      rw [queued] at first
      obtain rfl : q = createCatalog := Option.some.inj first
      obtain ⟨after, ran, shaped, holds⟩ := catalog_created ready.shaped ready.declared
      have quiet : inserted createCatalog = none := by
        rw [inserted_eq create_catalog_denotes, if_neg clean_create_catalog]
        rfl
      exact ⟨after, true, ran, shaped, by simpa [quiet] using holds⟩
    | some t =>
      rw [catalog_paths_of_lookup found]
      exact exec_adds denotes known ready.shaped found (ready.declared t found)
  obtain ⟨after, ok, ran, shaped, holds⟩ := runs
  refine ⟨after, ?_, ready_of_holds others shaped holds, ?_⟩
  · simp [act, queued, ran]
  · have counted : pending (q :: rest) = (inserted q).toList ++ pending rest := by
      cases read : inserted q <;> simp [pending, read]
    simp only [account, queued, catalog_paths_of_holds holds, counted, List.map_append,
      List.append_assoc]

theorem entered_same (files : Files) (s : State) (path : Text) :
    (entered files s path).1.db = s.db ∧ (entered files s path).1.queries = s.queries := by
  dsimp only [entered]
  split_ifs <;> exact ⟨rfl, rfl⟩

theorem entered_of_entry {files : Files} {path : Text} {calls : List Call}
    (acted : entry files s path = some (t, calls)) : files.Answers path ∧ entered files s path = (t, calls) := by
  rw [entry_eq] at acted
  split at acted
  next answers => exact ⟨answers, Option.some.inj acted⟩
  next => cases acted

/-- By itself an action neither adds a path nor loses one. -/
theorem ready_act {calls : List Call} (ready : Ready s) (acted : act s a = some (t, calls)) :
    Ready t ∧ account t = account s := by
  cases a with
  | entry files path =>
    obtain ⟨db, queries⟩ := entered_same files s path
    obtain rfl : (entered files s path).1 = t := congrArg Prod.fst (entered_of_entry acted).2
    refine ⟨⟨?_, ?_, ?_, ?_⟩, ?_⟩
    · rw [queries]
      exact ready.known
    · rw [db]
      exact ready.shaped
    · rw [db]
      exact ready.declared
    · rw [db, queries]
      exact ready.opening
    · rw [account, db, queries, account]
  | track files scan duration path =>
    obtain ⟨⟨db, pushed⟩, constructed, same⟩ := Option.map_eq_some_iff.mp acted
    cases same
    rcases Files.track_db constructed with rfl | ⟨ok, ran⟩
    · exact ⟨ready, rfl⟩
    · obtain ⟨after, created, shaped, holds⟩ := catalog_created ready.shaped ready.declared
      cases created.symm.trans ran
      refine ⟨ready_of_holds ready.known shaped holds, ?_⟩
      rw [account, catalog_paths_of_holds holds, account]
  | drain =>
    cases queued : s.queries with
    | nil => simp [act, queued] at acted
    | cons q rest =>
      obtain ⟨after, drained, readied, same⟩ := ready_drain ready queued
      cases drained.symm.trans acted
      exact ⟨readied, same⟩
  | insertPath | insertTrack | updateDuration =>
    cases acted
    exact ⟨ready, rfl⟩

theorem ready_push {calls : List Call} (ready : Ready s) (plain : ∀ c ∈ calls, c.Plain) :
    Ready (push s calls) ∧
      account (push s calls) = account s ++ (pending (calls.flatMap Call.texts)).map Value.text := by
  refine ⟨⟨fun q member => ?_, ready.shaped, ready.declared, fun absent => ?_⟩, ?_⟩
  · rcases List.mem_append.mp member with old | new
    · exact ready.known q old
    · exact known_texts plain q new
  · have first := ready.opening absent
    simp [push, List.head?_append, first]
  · simp [account, push, pending]

theorem text_mem_account {p : Text} :
    .text p ∈ account s ↔ .text p ∈ catalogPaths s.db ∨ p ∈ pending s.queries := by
  simp [account]

/-! ### Rows -/

/-- The catalog, if it is there, has rows of the declared types without a NUL. -/
def Typed (s : State) : Prop := (s.db.lookup "db_catalog").isSome → ∃ entries, Stocked s.db entries

theorem stocked_of_create {db after : Db} {ok : Bool}
    (typed : (db.lookup "db_catalog").isSome → ∃ entries, Stocked db entries)
    (created : exec db createCatalog = some (after, ok)) : ∃ entries, Stocked after entries := by
  cases found : db.lookup "db_catalog" with
  | none =>
    obtain ⟨ran, stocked⟩ := stocked_created found
    cases ran.symm.trans created
    exact ⟨[], stocked⟩
  | some t =>
    have same : after = db := by
      rw [exec_create_catalog, found] at created
      cases created
      rfl
    rw [same]
    exact typed (by rw [found]; rfl)

theorem typed_act {calls : List Call} (ready : Ready s) (typed : Typed s) (acted : act s a = some (t, calls)) :
    Typed t := by
  cases a with
  | entry files path =>
    obtain rfl : (entered files s path).1 = t := congrArg Prod.fst (entered_of_entry acted).2
    rw [Typed, (entered_same files s path).1]
    exact typed
  | track files scan duration path =>
    obtain ⟨⟨db, pushed⟩, constructed, same⟩ := Option.map_eq_some_iff.mp acted
    cases same
    rcases Files.track_db constructed with rfl | ⟨ok, ran⟩
    · exact typed
    · exact fun _ => stocked_of_create typed ran
  | drain =>
    cases queued : s.queries with
    | nil => simp [act, queued] at acted
    | cons q rest =>
      simp only [act, queued, Option.map_eq_some_iff] at acted
      obtain ⟨⟨after, ok⟩, ran, same⟩ := acted
      cases same
      intro _
      cases found : s.db.lookup "db_catalog" with
      | none =>
        have first := ready.opening found
        rw [queued] at first
        obtain rfl : q = createCatalog := Option.some.inj first
        exact stocked_of_create typed ran
      | some u =>
        obtain ⟨entries, stocked⟩ := typed (by rw [found]; rfl)
        obtain ⟨stmt, denotes, known⟩ := ready.known q (by rw [queued]; exact List.mem_cons_self)
        exact stocked_exec stocked denotes known ran
  | insertPath | insertTrack | updateDuration =>
    cases acted
    exact typed

/-! ### Texts without quotes -/

/-- The last two columns, which a construction puts back into a text as they are, have no quote. -/
def Bare (r : Row) : Prop := ∀ v, .text v ∈ r.drop 8 → quote ∉ v

/-- Neither a row nor a row to come has a quote there. -/
structure Unquoted (s : State) : Prop where
  rows : ∀ t, s.db.lookup "db_catalog" = some t → ∀ r ∈ t.rows, Bare r
  waiting : ∀ q ∈ s.queries, ∀ song : Song,
    single? q = some (.insert false "db_catalog" none [song.values]) → Bare song.values

theorem bare_song_iff {song : Song} : Bare song.values ↔ quote ∉ song.spotifyId ∧ quote ∉ song.md5 := by
  simp [Bare, Song.values]

theorem bare_path_row (path : Text) : Bare (pathRow path) := by
  intro v held
  have texts : v = text "" ∨ v = text "-1" := by simpa [pathRow] using held
  rcases texts with rfl | rfl <;> decide

/-- A statement that succeeds leaves no quote in the rows if it brings none. -/
theorem bare_rows {db after : Db} {t u : Table} {stmt : Stmt} (known : Known stmt)
    (found : db.lookup "db_catalog" = some t) (declared : Declared .catalog t) (bare : ∀ r ∈ t.rows, Bare r)
    (brought : ∀ song : Song, stmt = .insert false "db_catalog" none [song.values] → Bare song.values)
    (ran : execute db stmt = .ok after) (there : after.lookup "db_catalog" = some u) : ∀ r ∈ u.rows, Bare r := by
  have name : fold t.name = fold (text "db_catalog") := Db.fold_name_of_lookup found
  have replaced {rows : List Row} (kept : ∀ r ∈ rows, Bare r)
      (there : (db.put { t with rows := rows }).lookup "db_catalog" = some u) : ∀ r ∈ u.rows, Bare r := by
    have put : (db.put { t with rows := rows }).lookup "db_catalog" = some { t with rows := rows } :=
      Db.lookup_put_self found name
    cases put.symm.trans there
    exact kept
  obtain ⟨path, rfl, rfl⟩ | ⟨song, rfl, rfl⟩ | ⟨path, millionths, rfl, rfl⟩ | ⟨-, same⟩ :=
    known_catalog known found declared ran
  · exact replaced (List.forall_mem_append.mpr ⟨bare, List.forall_mem_singleton.mpr (bare_path_row path)⟩) there
  · exact replaced (List.forall_mem_append.mpr ⟨bare, List.forall_mem_singleton.mpr (brought song rfl)⟩) there
  · refine replaced (List.forall_mem_map.mpr fun r held => ?_) there
    split
    · rw [Bare, List.drop_set_of_lt (by decide)]
      exact bare r held
    · exact bare r held
  · cases same.symm.trans there
    exact bare

theorem bare_rows_of_create {db after : Db} {u : Table} {ok : Bool}
    (bare : ∀ t, db.lookup "db_catalog" = some t → ∀ r ∈ t.rows, Bare r)
    (created : exec db createCatalog = some (after, ok)) (there : after.lookup "db_catalog" = some u) :
    ∀ r ∈ u.rows, Bare r := by
  rw [exec_create_catalog] at created
  split_ifs at created with held <;> cases created
  · exact bare u there
  · have absent : db.lookup "db_catalog" = none := by simpa using held
    cases (Db.lookup_create_self absent rfl).symm.trans there
    exact List.forall_mem_nil _

theorem unquoted_drain {q : Text} {rest : List Text} {after : Db} {ok : Bool} (ready : Ready s)
    (unquoted : Unquoted s) (queued : s.queries = q :: rest) (ran : exec s.db q = some (after, ok)) :
    Unquoted { s with db := after, queries := rest } := by
  have waits : q ∈ s.queries := by rw [queued]; exact List.mem_cons_self
  refine ⟨fun u there => ?_, fun r held => unquoted.waiting r (by rw [queued]; exact List.mem_cons_of_mem _ held)⟩
  cases found : s.db.lookup "db_catalog" with
  | none =>
    have first := ready.opening found
    rw [queued] at first
    obtain rfl : q = createCatalog := Option.some.inj first
    exact bare_rows_of_create unquoted.rows ran there
  | some t =>
    obtain ⟨stmt, denotes, known⟩ := ready.known q waits
    rcases denotes.exec_cases ran with rfl | ⟨whole, done⟩
    · exact unquoted.rows u there
    · refine bare_rows known found (ready.declared t found) (unquoted.rows t found) (fun song own => ?_) done there
      exact unquoted.waiting q waits song (own ▸ denotes.whole whole)

theorem unquoted_act {calls : List Call} (ready : Ready s) (unquoted : Unquoted s)
    (acted : act s a = some (t, calls)) : Unquoted t := by
  cases a with
  | entry files path =>
    obtain ⟨db, queries⟩ := entered_same files s path
    obtain rfl : (entered files s path).1 = t := congrArg Prod.fst (entered_of_entry acted).2
    exact ⟨by rw [db]; exact unquoted.rows, by rw [queries]; exact unquoted.waiting⟩
  | track files scan duration path =>
    obtain ⟨⟨db, pushed⟩, constructed, same⟩ := Option.map_eq_some_iff.mp acted
    cases same
    rcases Files.track_db constructed with rfl | ⟨ok, ran⟩
    · exact unquoted
    · exact ⟨fun u => bare_rows_of_create unquoted.rows ran, unquoted.waiting⟩
  | drain =>
    cases queued : s.queries with
    | nil => simp [act, queued] at acted
    | cons q rest =>
      simp only [act, queued, Option.map_eq_some_iff] at acted
      obtain ⟨⟨after, ok⟩, ran, same⟩ := acted
      cases same
      exact unquoted_drain ready unquoted queued ran
  | insertPath | insertTrack | updateDuration =>
    cases acted
    exact unquoted

/-- Plain calls bring no quote. -/
theorem unquoted_push {calls : List Call} (unquoted : Unquoted s) (plain : ∀ c ∈ calls, c.Plain) :
    Unquoted (push s calls) := by
  refine ⟨unquoted.rows, fun q member song read => ?_⟩
  rcases List.mem_append.mp member with old | new
  · exact unquoted.waiting q old song read
  · obtain ⟨c, held, inside⟩ := List.mem_flatMap.mp new
    obtain ⟨stmt, listed, denotes⟩ := Call.text_denotes (plain c held) q inside
    rw [denotes.single_eq] at read
    split_ifs at read
    obtain rfl : stmt = .insert false "db_catalog" none [song.values] := Option.some.inj read
    cases c with
    | insertTrack own =>
      have same : song.values = own.values := by simpa [Call.stmts] using listed
      rw [same]
      exact bare_song_iff.mpr (plain _ held)
    | addToPlaylist name paths => cases paths <;> simp [Call.stmts] at listed
    | _ => simp [Call.stmts] at listed

/-! ### What an action inserts -/

theorem pending_insert_path (path : Text) : pending [insertPath path] = if nul ∈ path then [] else [path] := by
  have read := inserted_eq (insert_path_denotes path)
  by_cases cut : nul ∈ path
  · rw [if_pos (nul_mem_insert_path.mpr cut)] at read
    simp [pending, read, cut]
  · rw [if_neg (mt nul_mem_insert_path.mp cut)] at read
    rw [if_neg cut]
    have own : insertedBy (.insert false "db_catalog" (some ["path"]) [[.text path]]) = some path := rfl
    simp [pending, read, own]

theorem pending_insert_track {song : Song} (plain : (Call.insertTrack song).Plain) :
    pending [insertTrack song] = if nul ∈ insertTrack song then [] else [song.path] := by
  have read := inserted_eq (insert_track_denotes plain.1 plain.2)
  by_cases cut : nul ∈ insertTrack song
  · rw [if_pos cut] at read ⊢
    simp [pending, read]
  · rw [if_neg cut] at read ⊢
    have own : insertedBy (.insert false "db_catalog" none [song.values]) = some song.path := rfl
    simp [pending, read, own]

/-- The texts of other calls insert no path. -/
theorem pending_quiet {calls : List Call} (plain : ∀ c ∈ calls, c.Plain)
    (quiet : ∀ c ∈ calls, ∀ stmt ∈ c.stmts, insertedBy stmt = none) :
    pending (calls.flatMap Call.texts) = [] := by
  refine List.filterMap_eq_nil_iff.mpr fun q member => ?_
  obtain ⟨c, held, inside⟩ := List.mem_flatMap.mp member
  obtain ⟨stmt, listed, denotes⟩ := Call.text_denotes (plain c held) q inside
  rw [inserted_eq denotes, quiet c held stmt listed]
  exact ite_self _

theorem quiet_add_to_playlist (name : Text) (tracks : List Text) :
    ∀ stmt ∈ (Call.addToPlaylist name tracks).stmts, insertedBy stmt = none := by
  cases tracks with
  | nil => exact List.forall_mem_nil _
  | cons first rest => exact List.forall_mem_cons.mpr ⟨rfl, List.forall_mem_singleton.mpr rfl⟩

/-- The construction of a playlist inserts no path. -/
theorem quiet_playlist (files : Files) (path : Text) :
    ∀ c ∈ (files.playlistOf path).2, ∀ stmt ∈ c.stmts, insertedBy stmt = none := by
  rw [Files.playlistOf]
  split
  · exact List.forall_mem_cons.mpr ⟨quiet_add_to_playlist _ _, List.forall_mem_singleton.mpr
      (List.forall_mem_singleton.mpr rfl)⟩
  · exact List.forall_mem_nil _

/-- The paths are distinct, and neither have a row nor wait for one. -/
def Apart (s : State) (new : List Text) : Prop := new.Nodup ∧ ∀ p ∈ new, .text p ∉ account s

theorem apart_nil : Apart s [] := ⟨List.nodup_nil, List.forall_mem_nil _⟩

theorem apart_singleton_iff {path : Text} : Apart s [path] ↔ Novel s path := by
  simp [Apart, Novel, text_mem_account]

theorem apart_insert_path_iff {path : Text} :
    Apart s (pending [insertPath path]) ↔ (nul ∉ path → Novel s path) := by
  rw [pending_insert_path]
  by_cases cut : nul ∈ path
  · simp [cut, apart_nil]
  · rw [if_neg cut, apart_singleton_iff]
    simp [cut]

theorem apart_insert_track_iff {song : Song} (plain : (Call.insertTrack song).Plain) :
    Apart s (pending [insertTrack song]) ↔ (song.Clean → Novel s song.path) := by
  rw [pending_insert_track plain]
  by_cases cut : nul ∈ insertTrack song
  · have unclean : ¬ song.Clean := fun clean => clean_insert_track clean cut
    simp [cut, apart_nil, unclean]
  · have clean : song.Clean := clean_of_clean_insert cut
    rw [if_neg cut, apart_singleton_iff]
    simp [clean]

/-! ### Constructions -/

/-- The query of `select_track` finds nothing where no row has the path. -/
theorem query_unseen {db : Db} {t : Table} {path : Text} (scan : Scan)
    (found : db.lookup "db_catalog" = some t) (declared : Declared .catalog t)
    (unseen : .text path ∉ paths t) (clean : nul ∉ path) :
    query scan db (selectTrackQuery path) = .ok [] := by
  have whole : nul ∉ selectTrackQuery path := mt nul_mem_select_track_query.mp clean
  rw [(select_track_denotes path).query_eq, if_neg whole, select_track_eq scan found declared]
  refine congrArg Except.ok (List.map_eq_nil_iff.mpr (List.filter_eq_nil_iff.mpr fun r held => ?_))
  have other : t.cell r "path" ≠ .text path := fun same =>
    unseen (List.mem_map.mpr ⟨r, Scan.mem_rows.mp held, same⟩)
  simp [Table.selects, Table.holds, other]

/-- What `select_track` reads: nothing where the query is cut or no row has the path, and else the row it meets
first. -/
theorem select_cases {db after : Db} {read : Song} {scan : Scan} {duration : Double} {path : Text}
    (shaped : Shaped db) (shape : ∀ t, db.lookup "db_catalog" = some t → Declared .catalog t)
    (typed : (db.lookup "db_catalog").isSome → ∃ entries, Stocked db entries)
    (selected : selectTrack scan duration db path = some (after, read)) :
    (read.found = false ∧ (nul ∉ path → ¬ ∃ e, Finds scan db path e)) ∨
      ∃ e, nul ∉ path ∧ Finds scan db path e ∧ e.Clean ∧ read = e.song duration := by
  obtain ⟨made, created, -, u, found, declared, same⟩ := catalog_created shaped shape
  by_cases cut : nul ∈ path
  · refine .inl ⟨?_, fun clean => absurd cut clean⟩
    have refused : query scan made (selectTrackQuery path) = .error .rejected := by
      rw [(select_track_denotes path).query_eq, if_pos (nul_mem_select_track_query.mpr cut)]
    simp only [selectTrack, created, Option.bind_eq_bind, Option.bind_some, refused] at selected
    cases selected
    rfl
  by_cases seen : .text path ∈ catalogPaths db
  · right
    obtain ⟨t, there⟩ : ∃ t, db.lookup "db_catalog" = some t := by
      cases absent : db.lookup "db_catalog" with
      | none => simp [catalogPaths, absent] at seen
      | some t => exact ⟨t, rfl⟩
    obtain ⟨entries, t', there', declared', stored, clean⟩ := typed (by rw [there]; rfl)
    cases there.symm.trans there'
    rw [catalog_paths_of_lookup there] at seen
    obtain ⟨r, held, own⟩ := List.mem_map.mp seen
    have met : r ∈ metRows scan t path := mem_met_rows.mpr ⟨held, own⟩
    obtain ⟨first, rest, order⟩ := List.exists_cons_of_ne_nil (List.ne_nil_of_mem met)
    have among : first ∈ t.rows := by
      have member : first ∈ metRows scan t path := order ▸ List.mem_cons_self
      exact (mem_met_rows.mp member).1
    rw [stored] at among
    obtain ⟨e, listed, rfl⟩ := List.mem_map.mp among
    have finds : Finds scan db path e := ⟨t, there, declared', by rw [order]; rfl⟩
    cases (select_of_finds finds cut duration).symm.trans selected
    exact ⟨e, cut, finds, clean e listed, rfl⟩
  · left
    have unseen : .text path ∉ paths u := same.symm ▸ seen
    have none := query_unseen scan found declared unseen cut
    simp only [selectTrack, created, Option.bind_eq_bind, Option.bind_some, none] at selected
    cases selected
    refine ⟨rfl, fun _ held => seen ?_⟩
    obtain ⟨e, t, there, declared', first⟩ := held
    rw [catalog_paths_of_lookup there]
    have met := mem_met_rows.mp (List.mem_of_mem_head? first)
    exact List.mem_map.mpr ⟨e.row, met⟩

/-- A construction inserts a song again only as a row has it. -/
theorem plain_track {files : Files} {scan : Scan} {duration : Double} {path : Text} {after : Db}
    {calls : List Call} (ready : Ready s) (typed : Typed s) (unquoted : Unquoted s)
    (constructed : files.track scan duration s.db path = some (after, calls)) : ∀ c ∈ calls, c.Plain := by
  simp only [Files.track, Option.bind_eq_bind, Option.bind_eq_some_iff] at constructed
  obtain ⟨present, -, constructed⟩ := constructed
  split at constructed
  next =>
    simp only [Option.bind_eq_some_iff] at constructed
    obtain ⟨⟨db, read⟩, selected, mime, -, pushed⟩ := constructed
    cases pushed
    have own : read.found = true → (Call.insertTrack read).Plain := by
      intro there
      rcases select_cases ready.shaped ready.declared typed selected with ⟨missing, -⟩ | ⟨e, -, finds, -, rfl⟩
      · cases missing.symm.trans there
      · obtain ⟨t, found, -, first⟩ := finds
        have held := (mem_met_rows.mp (List.mem_of_mem_head? first)).1
        exact bare_song_iff.mp (unquoted.rows t found e.row held)
    by_cases there : read.found = true
    · simp only [there, if_true, not_true_eq_false, if_false, List.nil_append]
      split_ifs
      · exact List.forall_mem_singleton.mpr (own there)
      · exact List.forall_mem_nil _
    · simp [there, Call.Plain]
  next =>
    cases constructed
    exact List.forall_mem_nil _

theorem plain_entry {files : Files} {path : Text} {calls : List Call} (plain : (Action.entry files path).Plain)
    (acted : entry files s path = some (t, calls)) : ∀ c ∈ calls, c.Plain := by
  obtain ⟨-, done⟩ := entered_of_entry acted
  simp only [entered] at done
  by_cases regular : files.regular path = some true
  case neg =>
    rw [if_neg regular] at done
    cases done
    exact List.forall_mem_nil _
  rw [if_pos regular] at done
  by_cases kind : Files.isPlaylistFile path = true
  · rw [if_pos kind] at done
    have both : (∀ c ∈ (files.playlistOf path).2, c.Plain) ∧
        (Call.addToPlaylist (files.playlistOf path).1.name (files.playlistOf path).1.tracks).Plain := by
      have filled : (Call.addToPlaylist (Files.stem path) (files.tracks path)).Plain := plain regular kind
      rw [Files.playlistOf]
      split
      · exact ⟨List.forall_mem_cons.mpr ⟨filled, List.forall_mem_singleton.mpr trivial⟩, filled⟩
      · exact ⟨List.forall_mem_nil _, fun held => absurd rfl held⟩
    split at done <;> cases done
    · exact List.forall_mem_append.mpr ⟨both.1, List.forall_mem_singleton.mpr both.2⟩
    · exact both.1
  · rw [if_neg kind] at done
    split at done <;> cases done
    · exact List.forall_mem_singleton.mpr trivial
    · exact List.forall_mem_nil _

/-- The calls of a plain action are plain. -/
theorem plain_act {calls : List Call} (ready : Ready s) (typed : Typed s) (unquoted : Unquoted s)
    (plain : a.Plain) (acted : act s a = some (t, calls)) : ∀ c ∈ calls, c.Plain := by
  cases a with
  | entry files path => exact plain_entry plain acted
  | track files scan duration path =>
    obtain ⟨⟨db, pushed⟩, constructed, same⟩ := Option.map_eq_some_iff.mp acted
    cases same
    exact plain_track ready typed unquoted constructed
  | insertTrack song =>
    cases acted
    exact List.forall_mem_singleton.mpr plain
  | insertPath | updateDuration =>
    cases acted
    exact List.forall_mem_singleton.mpr trivial
  | drain =>
    cases queued : s.queries with
    | nil => simp [act, queued] at acted
    | cons q rest =>
      obtain ⟨after, drained, -⟩ := ready_drain ready queued
      cases drained.symm.trans acted
      exact List.forall_mem_nil _

/-- A construction inserts nothing but a path that has no row, twice, or one that has. -/
theorem fresh_track_iff {files : Files} {scan : Scan} {duration : Double} {path : Text} {after : Db}
    {calls : List Call} (ready : Ready s) (typed : Typed s)
    (constructed : files.track scan duration s.db path = some (after, calls))
    (plain : ∀ c ∈ calls, c.Plain) :
    Apart s (pending (calls.flatMap Call.texts)) ↔ Fresh s (.track files scan duration path) := by
  simp only [Files.track, Option.bind_eq_bind, Option.bind_eq_some_iff] at constructed
  obtain ⟨present, there, constructed⟩ := constructed
  cases present with
  | false =>
    cases constructed
    exact iff_of_true apart_nil fun present => by simp [there] at present
  | true =>
    simp only [if_true, Option.bind_eq_some_iff] at constructed
    obtain ⟨⟨db, read⟩, selected, mime, type, pushed⟩ := constructed
    cases pushed
    rcases select_cases ready.shaped ready.declared typed selected with ⟨missing, none⟩ | ⟨e, clean, finds, whole, rfl⟩
    · have twice : (if read.found then [] else [Call.insertPath path]) ++
          (if ¬ read.found then [Call.insertPath path]
            else if read.md5 ≠ files.hash path ∧ Files.audioType mime then [.insertTrack read] else []) =
          [.insertPath path, .insertPath path] := by simp [missing]
      rw [twice]
      have texts : pending ([Call.insertPath path, .insertPath path].flatMap Call.texts) =
          pending [insertPath path] ++ pending [insertPath path] := List.filterMap_append
      rw [texts, pending_insert_path]
      by_cases cut : nul ∈ path
      · rw [if_pos cut]
        exact iff_of_true apart_nil fun _ clean => absurd cut clean
      · rw [if_neg cut]
        refine iff_of_false (fun apart => by simpa using apart.1) fun fresh => ?_
        obtain ⟨e, finds, -⟩ := fresh there cut
        exact none cut ⟨e, finds⟩
    · have audio : files.isAudioFile path = some (Files.audioType mime) := by
        rw [Files.isAudioFile, type, Option.map_some]
      have seen : ¬ Novel s path := by
        obtain ⟨t, found, -, first⟩ := finds
        refine fun novel => novel.1 ?_
        rw [catalog_paths_of_lookup found]
        exact List.mem_map.mpr ⟨e.row, mem_met_rows.mp (List.mem_of_mem_head? first)⟩
      have met : Fresh s (.track files scan duration path) ↔
          e.hash = files.hash path ∨ Files.audioType mime = false := by
        constructor
        · intro fresh
          obtain ⟨e', finds', current⟩ := fresh there clean
          cases finds_unique finds finds'
          simpa [audio] using current
        · exact fun current _ _ => ⟨e, finds, by simpa [audio] using current⟩
      rw [met]
      by_cases current : e.hash = files.hash path ∨ Files.audioType mime = false
      · have quiet : (if (e.song duration).found then [] else [Call.insertPath path]) ++
            (if ¬ (e.song duration).found then [Call.insertPath path]
              else if (e.song duration).md5 ≠ files.hash path ∧ Files.audioType mime then
                [.insertTrack (e.song duration)] else []) = [] := by
          rcases current with same | other <;> simp [Entry.song, *]
        rw [quiet]
        exact iff_of_true apart_nil current
      · obtain ⟨differs, sound⟩ := not_or.mp current
        have again : (if (e.song duration).found then [] else [Call.insertPath path]) ++
            (if ¬ (e.song duration).found then [Call.insertPath path]
              else if (e.song duration).md5 ≠ files.hash path ∧ Files.audioType mime then
                [.insertTrack (e.song duration)] else []) = [.insertTrack (e.song duration)] := by
          simp [Entry.song, differs, sound]
        rw [again] at plain ⊢
        refine iff_of_false (fun apart => seen ?_) current
        have own : (e.song duration).Clean :=
          ⟨whole.path, whole.title, whole.album, whole.artist, whole.spotifyId, whole.hash⟩
        have novel := (apart_insert_track_iff (plain _ List.mem_cons_self)).mp apart own
        rwa [show (e.song duration).path = path from path_of_finds finds] at novel

/-- An entry inserts the path of an audio file that the player does not know. -/
theorem fresh_entry_iff {files : Files} {path : Text} {calls : List Call}
    (acted : entry files s path = some (t, calls)) (plain : ∀ c ∈ calls, c.Plain) :
    Apart s (pending (calls.flatMap Call.texts)) ↔ Fresh s (.entry files path) := by
  obtain ⟨-, done⟩ := entered_of_entry acted
  rw [entered] at done
  by_cases regular : files.regular path = some true
  case neg =>
    rw [if_neg regular] at done
    cases done
    exact iff_of_true apart_nil fun held => absurd held regular
  rw [if_pos regular] at done
  by_cases kind : Files.isPlaylistFile path = true
  · rw [if_pos kind] at done
    refine iff_of_true ?_ fun _ other => by simp [kind] at other
    have quiet : ∀ c ∈ calls, ∀ stmt ∈ c.stmts, insertedBy stmt = none := by
      have made := quiet_playlist files path
      generalize files.playlistOf path = constructed at done made
      obtain ⟨pl, pushed⟩ := constructed
      dsimp only at done
      split at done <;> cases done
      · exact List.forall_mem_append.mpr ⟨made, List.forall_mem_singleton.mpr (quiet_add_to_playlist _ _)⟩
      · exact made
    rw [pending_quiet plain quiet]
    exact apart_nil
  · rw [if_neg kind] at done
    by_cases new : files.isAudioFile path = some true ∧ path ∉ s.catalog
    · rw [if_pos new] at done
      cases done
      have same : Fresh s (.entry files path) ↔ (nul ∉ path → Novel s path) :=
        ⟨fun fresh => fresh regular (Bool.eq_false_iff.mpr kind) new.1 new.2, fun novel _ _ _ _ => novel⟩
      rw [same]
      exact apart_insert_path_iff
    · rw [if_neg new] at done
      cases done
      exact iff_of_true apart_nil fun _ _ audio unknown => absurd ⟨audio, unknown⟩ new

theorem fresh_iff {calls : List Call} (ready : Ready s) (typed : Typed s) (each : ∀ c ∈ calls, c.Plain)
    (acted : act s a = some (t, calls)) : Apart s (pending (calls.flatMap Call.texts)) ↔ Fresh s a := by
  cases a with
  | entry files path => exact fresh_entry_iff acted each
  | track files scan duration path =>
    obtain ⟨⟨db, pushed⟩, constructed, same⟩ := Option.map_eq_some_iff.mp acted
    cases same
    exact fresh_track_iff ready typed constructed each
  | insertPath path =>
    cases acted
    exact apart_insert_path_iff
  | insertTrack song =>
    cases acted
    exact apart_insert_track_iff (each _ List.mem_cons_self)
  | updateDuration path duration =>
    cases acted
    have quiet : ∀ c ∈ [Call.updateDuration path duration], ∀ stmt ∈ c.stmts, insertedBy stmt = none := by
      simp [Call.stmts, insertedBy]
    rw [pending_quiet each quiet]
    exact iff_of_true apart_nil trivial
  | drain =>
    cases queued : s.queries with
    | nil => simp [act, queued] at acted
    | cons q rest =>
      obtain ⟨after, drained, -⟩ := ready_drain ready queued
      cases drained.symm.trans acted
      exact iff_of_true apart_nil trivial

/-- What every state of a plain run from an empty database has. -/
structure Sound (s : State) : Prop where
  ready : Ready s
  typed : Typed s
  unquoted : Unquoted s

/-- One step: fresh paths, and only those, keep all paths apart. -/
theorem nodup_step (sound : Sound s) (plain : a.Plain) (taken : step s a = some t) :
    Sound t ∧ ((account t).Nodup ↔ (account s).Nodup ∧ Fresh s a) := by
  obtain ⟨ready, typed, unquoted⟩ := sound
  obtain ⟨⟨middle, calls⟩, acted, pushed⟩ := Option.map_eq_some_iff.mp taken
  have each := plain_act ready typed unquoted plain acted
  obtain ⟨readied, same⟩ := ready_act ready acted
  obtain ⟨after, grown⟩ := ready_push readied each
  have typed' := typed_act ready typed acted
  have unquoted' := unquoted_push (unquoted_act ready unquoted acted) each
  cases pushed
  refine ⟨⟨after, typed', unquoted'⟩, ?_⟩
  have texts (new : List Text) : (new.map Value.text).Nodup ↔ new.Nodup :=
    List.nodup_map_iff fun _ _ same => Value.text.inj same
  rw [grown, ← fresh_iff ready typed each acted, same, List.nodup_append', texts, List.disjoint_right, Apart]
  simp only [List.forall_mem_map]

/-- A whole run: its account is of distinct paths exactly when every step was fresh. -/
theorem nodup_run {actions : List Action} (sound : Sound s) (plain : ∀ a ∈ actions, a.Plain)
    (reached : step.run s actions = some t) :
    Ready t ∧ ((account t).Nodup ↔ (account s).Nodup ∧ step.Along Fresh s actions) := by
  induction actions generalizing s with
  | nil =>
    cases reached
    exact ⟨sound.ready, by simp [Steps.Along]⟩
  | cons a actions ih =>
    obtain ⟨middle, taken, rest⟩ := Steps.run_cons_iff.mp reached
    obtain ⟨now, onwards⟩ := List.forall_mem_cons.mp plain
    obtain ⟨sound', first⟩ := nodup_step sound now taken
    obtain ⟨settled, later⟩ := ih sound' onwards rest
    refine ⟨settled, ?_⟩
    rw [later, first, Steps.Along, taken, Option.elim_some, and_assoc]

/-! ### Draining -/

/-- The monitor's own steps. -/
def Action.drains : Action → Prop
  | .drain => True
  | _ => False

theorem step_drain {q : Text} {rest : List Text} (ready : Ready s) (queued : s.queries = q :: rest) :
    ∃ t, step s .drain = some t ∧ t.queries = rest ∧ Ready t ∧ account t = account s := by
  obtain ⟨after, drained, readied, same⟩ := ready_drain ready queued
  refine ⟨{ s with db := after, queries := rest }, ?_, rfl, readied, same⟩
  simp [step, drained, push]

theorem account_drained (ready : Ready s) (reached : step.Reaches Action.drains s t) :
    account t = account s := by
  have keeps : ∀ u a v, Ready u ∧ account u = account s → a.drains → step u a = some v →
      Ready v ∧ account v = account s := by
    rintro u a v ⟨readied, same⟩ drains taken
    cases a with
    | drain =>
      cases queued : u.queries with
      | nil => simp [step, act, queued] at taken
      | cons q rest =>
        obtain ⟨w, drained, -, after, kept⟩ := step_drain readied queued
        cases drained.symm.trans taken
        exact ⟨after, kept.trans same⟩
    | _ => cases drains
  exact (reached.preserved keeps ⟨ready, rfl⟩).2

/-- The queue can always be drained; then the rows are all the paths there are. -/
theorem reaches_drained (ready : Ready s) :
    ∃ t, step.Reaches Action.drains s t ∧ catalogPaths t.db = account s := by
  obtain ⟨t, reached, ⟨-, same⟩, empty⟩ := Steps.reaches_goal step Action.drains
    (fun u => Ready u ∧ account u = account s) (fun u => u.queries = []) (fun u => u.queries.length)
    (fun u held waiting => by
      obtain ⟨q, rest, queued⟩ := List.exists_cons_of_ne_nil waiting
      obtain ⟨v, drained, shorter, readied, same⟩ := step_drain held.1 queued
      exact ⟨.drain, v, trivial, drained, ⟨readied, same.trans held.2⟩, by simp [queued, shorter]⟩)
    ⟨ready, rfl⟩
  refine ⟨t, reached, ?_⟩
  rw [← same, account, empty]
  simp [pending]

theorem ready_initial (catalog : List Text) (playlists : List Player.Playlist) :
    Ready (initial catalog playlists) where
  known := by
    simp only [initial, opening, List.forall_mem_cons]
    exact ⟨⟨_, create_catalog_denotes, .create "db_catalog" .catalog⟩,
      ⟨_, create_influences_denotes, .create "_influences" .influences⟩,
      ⟨_, create_playlists_denotes, .create "_playlist" .register⟩, by simp⟩
  shaped := fun t held => by cases held
  declared := fun t found => by cases found
  opening := fun _ => rfl

theorem quiet_opening : ∀ q ∈ opening, inserted q = none := by
  have quiet {q : Text} {name : Text} (shape : Shape)
      (denotes : Denotes q (.createTable true name shape.columns shape.key)) : inserted q = none := by
    rw [inserted_eq denotes]
    split <;> rfl
  simp only [opening, List.forall_mem_cons]
  exact ⟨quiet .catalog create_catalog_denotes, quiet .influences create_influences_denotes,
    quiet .register create_playlists_denotes, List.forall_mem_nil _⟩

theorem account_initial (catalog : List Text) (playlists : List Player.Playlist) :
    account (initial catalog playlists) = [] := by
  have none : pending opening = [] := List.filterMap_eq_nil_iff.mpr quiet_opening
  rw [account, initial, none]
  rfl

/-! ### The catalog over runs -/

theorem sound_initial (catalog : List Text) (playlists : List Player.Playlist) :
    Sound (initial catalog playlists) where
  ready := ready_initial catalog playlists
  typed := fun there => by cases there
  unquoted := by
    refine ⟨fun t found => ?_, fun q held song read => ?_⟩
    · cases found
    · have inserts : inserted q = some song.path := by
        rw [inserted, read]
        rfl
      cases (quiet_opening q held).symm.trans inserts

/-- **Nothing but the writers keeps a path in one row.** In a run from an empty database whose texts
need no escaping, every database the queue can be drained to holds at most one row for each path
exactly when every step found nothing to insert but a path that neither had a row nor waited for one. -/
theorem one_row_for_each_path_iff {catalog : List Text} {playlists : List Player.Playlist}
    {actions : List Action} (plain : ∀ a ∈ actions, a.Plain)
    (reached : step.run (initial catalog playlists) actions = some s) :
    (∀ t, step.Reaches Action.drains s t → (catalogPaths t.db).Nodup) ↔
      step.Along Fresh (initial catalog playlists) actions := by
  obtain ⟨ready, whole⟩ := nodup_run (sound_initial catalog playlists) plain reached
  have fresh : (account s).Nodup ↔ step.Along Fresh (initial catalog playlists) actions := by
    rw [whole, account_initial]
    simp
  rw [← fresh]
  constructor
  · intro rows
    obtain ⟨t, drained, all⟩ := reaches_drained ready
    rw [← all]
    exact rows t drained
  · intro apart t drained
    rw [← account_drained ready drained, account] at apart
    exact apart.of_append_left

theorem novel_initial (catalog : List Text) (playlists : List Player.Playlist) (path : Text) :
    Novel (initial catalog playlists) path := by
  have none := List.not_mem_nil (a := Value.text path)
  rw [← account_initial catalog playlists, text_mem_account, not_or] at none
  exact none

theorem path_inserted_once :
    ∃ s, step.run (initial [] []) [.insertPath "a.mp3"] = some s ∧
      ∀ t, step.Reaches Action.drains s t → (catalogPaths t.db).Nodup := by
  have plain : ∀ a ∈ [Action.insertPath "a.mp3"], a.Plain := List.forall_mem_singleton.mpr trivial
  have reached : step.run (initial [] []) [.insertPath "a.mp3"] =
      some (push (initial [] []) [.insertPath "a.mp3"]) := rfl
  exact ⟨_, reached, (one_row_for_each_path_iff plain reached).mpr ⟨fun _ => novel_initial [] [] "a.mp3", trivial⟩⟩

/-- A new file, and the construction of its track. -/
theorem new_file_in_two_rows :
    ¬ ∀ (catalog : List Text) (playlists : List Player.Playlist) (actions : List Action) (s : State),
      step.run (initial catalog playlists) actions = some s → (catalogPaths s.db).Nodup := by
  intro all
  let files : Files :=
    { present := fun _ => some true, regular := fun _ => some true, lines := fun _ => []
      mime := fun _ => some "audio/mpeg", hash := fun _ => "0" }
  let construct : Action := .track files .stored ⟨0⟩ "a.mp3"
  have selected : selectTrack .stored ⟨0⟩ Db.empty "a.mp3" = some (Db.empty.create emptyCatalog,
      { path := "", trackNo := -1, duration := ⟨0⟩, md5 := "-1", found := false }) := by
    have found : (Db.empty.create emptyCatalog).lookup "db_catalog" = some emptyCatalog :=
      Db.lookup_create_self rfl rfl
    have none : query .stored (Db.empty.create emptyCatalog) (selectTrackQuery "a.mp3") = .ok [] :=
      query_unseen .stored found declared_empty_catalog (by simp [paths, emptyCatalog]) (by decide)
    have created : exec Db.empty createCatalog = some (Db.empty.create emptyCatalog, true) :=
      exec_create_catalog Db.empty
    simp only [selectTrack, created, Option.bind_eq_bind, Option.bind_some, none]
    rfl
  have acted : act (initial [] []) construct =
      some ({ initial [] [] with db := Db.empty.create emptyCatalog }, [.insertPath "a.mp3", .insertPath "a.mp3"]) := by
    simp [act, construct, Files.track, files, initial, selected]
  have taken : step (initial [] []) construct = some (push { initial [] [] with db := Db.empty.create emptyCatalog }
      [.insertPath "a.mp3", .insertPath "a.mp3"]) := by rw [step, acted]; rfl
  obtain ⟨sound, whole⟩ := nodup_step (sound_initial [] []) (a := construct) trivial taken
  obtain ⟨u, ⟨drains, -, drained⟩, rows⟩ := reaches_drained sound.ready
  have apart := all [] [] (construct :: drains) u (Steps.run_cons_iff.mpr ⟨_, taken, drained⟩)
  rw [rows] at apart
  obtain ⟨e, ⟨t, found, -⟩, -⟩ := (whole.mp apart).2 rfl (by decide)
  cases found

end Sws.Catalog
