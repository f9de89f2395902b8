import Sws.Answers
import Sws.Coverage
import Sws.Database.Idle

/-! The constructor of the player beside the thread of `db::monitor`: it pushes the statements that create
the tables, waits until there are tables, reads the playlists, scans the library where the catalog is
empty, and waits for the empty queue before it reads again. Every read is of the file as it is then. -/
namespace Sws.Startup

open Database Sql
open Player (Playlist named)
open Resume (populateFromDb populate rescan)

/-- What the program is started on. -/
structure Launch where
  /-- The file as the last session left it. -/
  db : Db
  scan : Scan
  files : Files
  /-- What the traversal of the library lists. -/
  entries : List Text
  config : Text
  isPlaying : Bool
  isPaused : Bool

/-- Where the thread is in the constructor, outside `db::push`. -/
inductive PlayerAt
  /-- In `db::db`, with statements still to push. -/
  | opening (rest : List Text)
  /-- Before `db::tables`. -/
  | asking
  /-- In `populate_from_db`, for the first time or again, with tables still to read. -/
  | reading (again : Bool) (rest : List Text)
  /-- Before the catalog is chosen. -/
  | choosing
  /-- In `populate`, with entries still to visit and statements of the last one still to push. -/
  | scanning (entries texts : List Text)
  /-- Before `empty_queue`. -/
  | waiting
  /-- Before the current playlist is chosen. -/
  | selecting
  /-- Before `advance`, whose argument is read once more. -/
  | positioning (adv : Int)
  | constructed (player : Player.State)

structure State where
  queue : Monitor.State Unit Text
  place : PlayerAt
  playlistTables : List Text
  playlists : List Playlist
  dbCatalog : Playlist

def initial : State where
  queue := Monitor.initial
  place := .opening opening
  playlistTables := []
  playlists := []
  dbCatalog := ⟨"", []⟩

/-- The file after what has been executed. -/
def Launch.file (w : Launch) (s : State) : Option Db := execAll w.db (s.queue.executed.map Prod.fst)

/-- The position is one in the playlist. -/
def Within (p : Playlist) (position : Int) : Prop := 0 ≤ position ∧ position < p.tracks.length

instance (p : Playlist) (position : Int) : Decidable (Within p position) := inferInstanceAs (Decidable (_ ∧ _))

/-- The argument of `advance`, where the position read before is one in the playlist. -/
def readAgain (w : Launch) (s : State) (current : Playlist) (adv : Int) : Option Int :=
  if Within current adv then do
    let position ← getPlaylistCurrent w.scan (← w.file s) current.name
    -- Past the end, the iterator denotes nothing.
    if Within current position then some position else none
  else some adv

/-- The constructor's part of a `push`: its critical section. -/
def push (fails : Nat → Text → Bool) (s : State) (q : Text) (place : PlayerAt) : Option State :=
  (Monitor.step fails s.queue (.push () q)).map fun queue => { s with queue := queue, place := place }

/-- The next statement of the constructor. Between two reads the monitor may execute anything. -/
def advance (w : Launch) (fails : Nat → Text → Bool) (s : State) : Option State :=
  match s.place with
  | .opening [] => some { s with place := .asking }
  | .opening (q :: rest) => push fails s q (.opening rest)
  | .asking => do
    let names ← tables w.scan (← w.file s)
    return { s with
      playlistTables := names
      playlists := []
      place := if names = [] then .asking else .reading false names }
  | .reading again [] => some { s with place := if again then .selecting else .choosing }
  | .reading again (name :: rest) => do
    let paths ← selectPlaylist w.scan (← w.file s) name
    return { s with playlists := s.playlists ++ [⟨name, paths⟩], place := .reading again rest }
  | .choosing => do
    let catalog ← named s.playlists "db_catalog"
    return { s with
      dbCatalog := catalog
      place := if catalog.tracks = [] then .scanning w.entries [] else .selecting }
  | .scanning [] [] => some { s with place := .waiting }
  | .scanning (path :: rest) [] => do
    let (t, calls) ← Catalog.entry w.files
      { db := w.db, queries := [], catalog := s.dbCatalog.tracks, playlists := s.playlists } path
    return { s with
      playlists := t.playlists
      dbCatalog := { s.dbCatalog with tracks := t.catalog }
      place := .scanning rest (calls.flatMap Call.texts) }
  | .scanning entries (q :: texts) => push fails s q (.scanning entries texts)
  | .waiting =>
    some (if s.queue.queueEmpty then { s with playlists := [], place := .reading true s.playlistTables } else s)
  | .selecting => do
    let current ← named s.playlists w.config
    return { s with place := .positioning (← getPlaylistCurrent w.scan (← w.file s) current.name) }
  | .positioning adv => do
    let current ← named s.playlists w.config
    let position ← readAgain w s current adv
    let player ← Player.construct s.playlists s.playlistTables w.config (fun _ => position) w.isPlaying w.isPaused
    return { s with place := .constructed player }
  | .constructed _ => none

inductive Action
  | player
  /-- What is left of a `push` after its critical section, and what the monitor does. -/
  | queue (a : Monitor.Action Unit Text)

def step (w : Launch) (fails : Nat → Text → Bool) : Steps State Action
  | s, .player => if s.queue.producers () = .outside then advance w fails s else none
  | s, .queue a =>
    if a.arrivals = [] then (Monitor.step fails s.queue a).map fun queue => { s with queue := queue } else none

/-- Where the constructor finds the flag raised, nothing is left to execute. -/
def Trusted (s : State) : Action → Prop
  | .player => s.place = .waiting → s.queue.queueEmpty = true → s.queue.Drained
  | .queue _ => True

/-- Where the monitor raises the flag, the queue is empty, or a `push` will write the flag again. -/
def Careful (s : State) : Action → Prop
  | .player => True
  | .queue a => Monitor.Careful s.queue a

section Reads

variable {w : Launch} {fails : Nat → Text → Bool} {s : State} {db : Db}

theorem step_asking {names : List Text} (outside : s.queue.producers () = .outside) (asks : s.place = .asking)
    (file : w.file s = some db) (listed : tables w.scan db = some names) (some_ : names ≠ []) :
    step w fails s .player =
      some { s with playlistTables := names, playlists := [], place := .reading false names } := by
  simp only [step, if_pos outside, advance, asks, file, listed, Option.bind_eq_bind, Option.bind_some, if_neg some_,
    Option.pure_def]

theorem step_reading {again : Bool} {name : Text} {rest paths : List Text}
    (outside : s.queue.producers () = .outside) (here : s.place = .reading again (name :: rest))
    (file : w.file s = some db) (read : selectPlaylist w.scan db name = some paths) :
    step w fails s .player =
      some { s with playlists := s.playlists ++ [⟨name, paths⟩], place := .reading again rest } := by
  simp only [step, if_pos outside, advance, here, file, read, Option.bind_eq_bind, Option.bind_some, Option.pure_def]

theorem step_selecting {current : Playlist} {adv : Int} (outside : s.queue.producers () = .outside)
    (here : s.place = .selecting) (chosen : named s.playlists w.config = some current) (file : w.file s = some db)
    (read : getPlaylistCurrent w.scan db current.name = some adv) :
    step w fails s .player = some { s with place := .positioning adv } := by
  simp only [step, if_pos outside, advance, here, chosen, file, read, Option.bind_eq_bind, Option.bind_some,
    Option.pure_def]

theorem step_positioning {current : Playlist} {adv position : Int} {player : Player.State}
    (outside : s.queue.producers () = .outside) (here : s.place = .positioning adv)
    (chosen : named s.playlists w.config = some current) (read : readAgain w s current adv = some position)
    (made : Player.construct s.playlists s.playlistTables w.config (fun _ => position) w.isPlaying w.isPaused =
      some player) : step w fails s .player = some { s with place := .constructed player } := by
  simp only [step, if_pos outside, advance, here, chosen, read, made, Option.bind_eq_bind, Option.bind_some,
    Option.pure_def]

end Reads

/-! ### What the sequential constructor makes from here -/

/-- The end of the constructor. -/
def finish (w : Launch) (db : Db) (tables : List Text) (playlists : List Playlist) : Option Player.State := do
  let current ← named playlists w.config
  let adv ← getPlaylistCurrent w.scan db current.name
  Player.construct playlists tables w.config (fun _ => adv) w.isPlaying w.isPaused

/-- The constructor after the playlists have been read for the first time. -/
def choose (w : Launch) (db : Db) (tables : List Text) (stored : List Playlist) : Option Player.State := do
  let catalog ← named stored "db_catalog"
  let (db, playlists) ← rescan w.files w.entries w.scan db tables stored catalog
  finish w db tables playlists

/-- The constructor after its last `push`, with these statements executed. -/
def reread (w : Launch) (tables : List Text) (texts : List Text) : Option Player.State := do
  let db ← execAll w.db texts
  finish w db tables (← populateFromDb w.scan db tables)

/-- The sequential constructor, on a file with the tables created. -/
def sequential (w : Launch) (db : Db) : Option Player.State :=
  Resume.construct w.files w.entries w.scan db w.config w.isPlaying w.isPaused

def remaining (w : Launch) (after : Db) (s : State) : Option Player.State :=
  match s.place with
  | .opening _ | .asking => sequential w after
  | .reading false rest => do
    choose w after s.playlistTables (s.playlists ++ (← populateFromDb w.scan after rest))
  | .choosing => choose w after s.playlistTables s.playlists
  | .scanning entries texts => do
    let populated ← populate w.files entries
      { db := after
        queries := s.queue.order.drop opening.length ++ texts
        catalog := s.dbCatalog.tracks
        playlists := s.playlists }
    reread w s.playlistTables (opening ++ populated.queries)
  | .waiting => reread w s.playlistTables s.queue.order
  | .reading true rest => do
    let db ← execAll w.db s.queue.order
    finish w db s.playlistTables (s.playlists ++ (← populateFromDb w.scan db rest))
  | .selecting => do finish w (← execAll w.db s.queue.order) s.playlistTables s.playlists
  | .positioning adv => Player.construct s.playlists s.playlistTables w.config (fun _ => adv) w.isPlaying w.isPaused
  | .constructed player => some player

/-! ### Files that are steady -/

/-- The file after so many statements of the constructor of `db`. -/
def Launch.opened (w : Launch) (k : Nat) : Option Db := execAll w.db (opening.take k)

/-- As soon as there are tables, what is read is what is read when every table is created; and where not
every table was there before, the catalog is empty. -/
structure Steady (w : Launch) (after : Db) : Prop where
  opened : execAll w.db opening = some after
  shown : ∃ names, tables w.scan after = some names ∧ names ≠ []
  tables : ∀ j names, (w.opened j).bind (tables w.scan) = some names → names ≠ [] →
    tables w.scan after = some names
  reads : ∀ j names, (w.opened j).bind (Database.tables w.scan) = some names → names ≠ [] → ∀ k, j ≤ k →
    ∀ n ∈ names, (w.opened k).bind (selectPlaylist w.scan · n) = selectPlaylist w.scan after n
  known : (∀ k, w.opened k = some after) ∨ ∀ names stored catalog, Database.tables w.scan after = some names →
    populateFromDb w.scan after names = some stored → named stored "db_catalog" = some catalog →
    catalog.tracks = []

section Launches

variable {w : Launch} {db : Db} {l : Library} {m : Nat}

/-- Where the library is, every table is. -/
theorem create_own {t : Table} (holds : Represents db l) (own : t ∈ ownTables) : db.create t = db := by
  obtain ⟨c, -, catalog, -⟩ := holds.catalog
  obtain ⟨i, -, influences, -⟩ := holds.influences
  obtain ⟨r, register, -⟩ := holds.register
  refine dif_neg (Option.isSome_iff_ne_none.mp ?_)
  simp only [ownTables, List.mem_cons, List.not_mem_nil, or_false] at own
  rcases own with rfl | rfl | rfl
  · exact Option.isSome_of_eq_some catalog
  · exact Option.isSome_of_eq_some influences
  · exact Option.isSome_of_eq_some register

theorem opened_of_represents (holds : Represents w.db l) (k : Nat) : w.opened k = some w.db := by
  have unchanged (ts : List Table) (own : ts ⊆ ownTables) : ts.foldl Db.create w.db = w.db := by
    induction ts with
    | nil => rfl
    | cons t ts ih =>
      obtain ⟨first, rest⟩ := List.cons_subset.mp own
      rw [List.foldl_cons, create_own holds first]
      exact ih rest
  rw [Launch.opened, exec_opening, unchanged _ (List.take_subset k ownTables)]

theorem opened_of_created (early : m < 3) (began : w.db = created m) (k : Nat) :
    w.opened k = some (created (max m (min k 3))) := by
  have length : ownTables.length = 3 := rfl
  rw [Launch.opened, exec_opening, began, List.take_eq_take_min, length, created_again m (by omega) _ (by omega)]

theorem steady_of_represents (holds : Represents w.db l) : Steady w w.db := by
  have same := opened_of_represents holds
  have opened : execAll w.db opening = some w.db := same 3
  obtain ⟨names, listed, -, members⟩ := tables_answer w.scan holds
  refine ⟨opened, ⟨names, listed, ?_⟩, ?_, ?_, .inl same⟩
  · exact List.ne_nil_of_mem ((members "db_catalog").mpr (.inl rfl))
  · intro j names read _
    rwa [same, Option.bind_some] at read
  · intro j names _ _ k _ n _
    rw [same, Option.bind_some]

/-- The catalog, created and empty. -/
theorem created_cases (n : Nat) (some_ : 0 < n) (few : n < 4) :
    shownTables (created n) = [text "db_catalog"] ∧ (created n).lookup "db_catalog" = some emptyCatalog := by
  interval_cases n <;> decide

theorem tables_created (scan : Scan) (n : Nat) (some_ : 0 < n) (few : n < 4) :
    tables scan (created n) = some [text "db_catalog"] := by
  obtain ⟨names, listed, perm⟩ := tables_perm scan (created n)
  rw [(created_cases n some_ few).1] at perm
  rw [listed, List.perm_singleton.mp perm]

theorem select_created (scan : Scan) (n : Nat) (some_ : 0 < n) (few : n < 4) :
    selectPlaylist scan (created n) "db_catalog" = some [] := by
  have empty (stmt : Stmt) : scan.rows stmt emptyCatalog = [] := (scan.perm stmt emptyCatalog).eq_nil
  rw [select_playlist_eq scan (created_cases n some_ few).2 rfl (by decide) (by decide) (by decide), empty]
  rfl

theorem steady_of_created (early : m < 3) (began : w.db = created m) : Steady w (created 3) := by
  have opened := opened_of_created early began
  have listed (j : Nat) (names : List Text) (read : (w.opened j).bind (tables w.scan) = some names)
      (some_ : names ≠ []) : 0 < max m (min j 3) ∧ names = [text "db_catalog"] := by
    rw [opened, Option.bind_some] at read
    have there : 0 < max m (min j 3) := by
      by_contra none_
      obtain ⟨names', listed, perm⟩ := tables_perm w.scan (created 0)
      rw [Nat.eq_zero_of_not_pos none_, listed] at read
      cases read
      exact some_ perm.eq_nil
    exact ⟨there, (Option.some.inj ((tables_created w.scan _ there (by omega)).symm.trans read)).symm⟩
  have last : tables w.scan (created 3) = some [text "db_catalog"] := tables_created w.scan 3 (by omega) (by omega)
  have empty : selectPlaylist w.scan (created 3) "db_catalog" = some [] :=
    select_created w.scan 3 (by omega) (by omega)
  refine ⟨?_, ⟨_, last, List.cons_ne_nil _ _⟩, ?_, ?_, .inr ?_⟩
  · have all := opened 3
    rwa [Nat.min_self, Nat.max_eq_right early.le] at all
  · intro j names read some_
    rw [last, (listed j names read some_).2]
  · intro j names read some_ k later n member
    obtain ⟨there, rfl⟩ := listed j names read some_
    obtain rfl := List.mem_singleton.mp member
    rw [opened, Option.bind_some]
    exact (select_created w.scan _ (by omega) (by omega)).trans empty.symm
  · intro names stored catalog read populated chosen
    cases last.symm.trans read
    have same : populateFromDb w.scan (created 3) [text "db_catalog"] = some [⟨text "db_catalog", []⟩] := by
      rw [populateFromDb, List.mapM_cons, empty]
      rfl
    cases same.symm.trans populated
    cases chosen
    rfl

/-- Whatever sessions came before, the file they left is steady. -/
theorem steady_of_lifetime {sessions : List Session} (plain : ∀ s ∈ sessions, ∀ r ∈ s.requests, r.Plain)
    (ran : execAll .empty (sessions.flatMap Session.texts) = some w.db) : ∃ after, Steady w after := by
  obtain ⟨db, same, left⟩ := lifetime_cases plain
  cases same.symm.trans ran
  rcases left with holds | ⟨-, ⟨m, early, began⟩, -⟩
  · exact ⟨w.db, steady_of_represents holds⟩
  · exact ⟨created 3, steady_of_created early began⟩

end Launches

/-! ### Two levels -/

/-- What is still to be executed leaves the file as it is. -/
def Quiet (w : Launch) (s : State) : Prop :=
  ∀ k, s.queue.executed.length ≤ k → execAll w.db (s.queue.order.take k) = execAll w.db s.queue.order

/-- What has been pushed and what has been read, at each place of the constructor. -/
def Stage (w : Launch) (after : Db) (s : State) : Prop :=
  match s.place with
  | .opening rest => s.queue.order ++ rest = opening
  | .asking => s.queue.order = opening
  | .reading false rest => s.queue.order = opening ∧ tables w.scan after = some s.playlistTables ∧
      (∃ read, read ++ rest = s.playlistTables ∧ populateFromDb w.scan after read = some s.playlists) ∧
      ∀ k, s.queue.executed.length ≤ k → ∀ n ∈ rest,
        (w.opened k).bind (selectPlaylist w.scan · n) = selectPlaylist w.scan after n
  | .choosing => s.queue.order = opening ∧ tables w.scan after = some s.playlistTables ∧
      populateFromDb w.scan after s.playlistTables = some s.playlists
  | .scanning _ _ => opening <+: s.queue.order
  | .waiting | .constructed _ => True
  | .reading true _ | .selecting => Quiet w s
  | .positioning adv => Quiet w s ∧ ∃ current db, named s.playlists w.config = some current ∧
      execAll w.db s.queue.order = some db ∧ getPlaylistCurrent w.scan db current.name = some adv

structure Sound (w : Launch) (after : Db) (s : State) : Prop where
  ordered : Monitor.Ordered s.queue
  stage : Stage w after s
  follows : remaining w after s = sequential w after

section Simulation

variable {w : Launch} {after : Db} {fails : Nat → Text → Bool} {s t : State} {queue : Monitor.State Unit Text}
  {a : Monitor.Action Unit Text}

theorem file_eq (ordered : Monitor.Ordered s.queue) :
    w.file s = execAll w.db (s.queue.order.take s.queue.executed.length) := by
  rw [Launch.file, Monitor.executed_eq_take ordered]

/-- Without a `push`, the order stays and no statement is taken back. -/
theorem queue_kept (without : a.arrivals = []) (taken : Monitor.step fails s.queue a = some queue) :
    queue.order = s.queue.order ∧ s.queue.executed.length ≤ queue.executed.length := by
  obtain ⟨move, order⟩ := Monitor.step_moves taken
  rw [without, List.append_nil] at order
  have longer := move.done_prefix.length_le
  simp only [Monitor.State.account, List.length_map] at longer
  exact ⟨order, longer⟩

theorem push_eq {q : Text} {place : PlayerAt} (taken : push fails s q place = some t) :
    t = { s with queue := t.queue, place := place } ∧ t.queue.order = s.queue.order ++ [q] ∧
      Monitor.step fails s.queue (.push () q) = some t.queue := by
  obtain ⟨queue, pushed, rfl⟩ := Option.map_eq_some_iff.mp taken
  exact ⟨rfl, (Monitor.step_moves pushed).2, pushed⟩

theorem quiet_kept (quiet : Quiet w s) (order : queue.order = s.queue.order)
    (longer : s.queue.executed.length ≤ queue.executed.length) : Quiet w { s with queue := queue } := by
  intro k later
  have same : execAll w.db (s.queue.order.take k) = execAll w.db s.queue.order := quiet k (longer.trans later)
  rw [← order] at same
  exact same

/-- The queue by itself changes nothing for the constructor. -/
theorem sound_queue (sound : Sound w after s) (without : a.arrivals = [])
    (taken : Monitor.step fails s.queue a = some queue) : Sound w after { s with queue := queue } := by
  obtain ⟨order, longer⟩ := queue_kept without taken
  have stage := sound.stage
  have follows := sound.follows
  refine ⟨Monitor.ordered_step s.queue a queue sound.ordered taken, ?_, ?_⟩
  · have quiet (held : Quiet w s) := quiet_kept held order longer
    obtain ⟨q, place, names, playlists, catalog⟩ := s
    cases place with
    | reading again rest =>
      cases again with
      | false =>
        obtain ⟨pushed, listed, read, reads⟩ := stage
        exact ⟨order.trans pushed, listed, read, fun k later => reads k (longer.trans later)⟩
      | true => exact quiet stage
    | selecting => exact quiet stage
    | positioning adv =>
      obtain ⟨held, current, db, chosen, ran, read⟩ := stage
      exact ⟨quiet held, current, db, chosen, by rw [order]; exact ran, read⟩
    | waiting | constructed => trivial
    | opening rest => exact (congrArg (· ++ rest) order).trans stage
    | asking => exact order.trans stage
    | choosing => exact ⟨order.trans stage.1, stage.2⟩
    | scanning entries texts =>
      obtain ⟨more, split⟩ := stage
      exact ⟨more, split.trans order.symm⟩
  · rw [← follows]
    obtain ⟨q, place, names, playlists, catalog⟩ := s
    cases place with
    | reading again rest => cases again <;> simp only [remaining, order]
    | _ => simp only [remaining, order]

/-- With its tables known, the sequential constructor reads them and chooses. -/
theorem sequential_eq {names : List Text} (listed : tables w.scan after = some names) :
    sequential w after = (populateFromDb w.scan after names).bind (choose w after names) := by
  rw [sequential, Resume.construct, listed]
  rfl

theorem populate_from_db_cons {names : List Text} {name : Text} {paths : List Text} {db : Db}
    (read : selectPlaylist w.scan db name = some paths) :
    populateFromDb w.scan db (name :: names) = (populateFromDb w.scan db names).map (⟨name, paths⟩ :: ·) := by
  rw [populateFromDb, List.mapM_cons, read, ← populateFromDb]
  cases populateFromDb w.scan db names <;> rfl

theorem populate_from_db_concat {names : List Text} {name : Text} {paths : List Text} {db : Db} {read : List Playlist}
    (before : populateFromDb w.scan db names = some read) (own : selectPlaylist w.scan db name = some paths) :
    populateFromDb w.scan db (names ++ [name]) = some (read ++ [⟨name, paths⟩]) := by
  rw [populateFromDb, List.mapM_append, ← populateFromDb, before, ← populateFromDb, populate_from_db_cons own]
  rfl

/-- An entry of the library is handled without the database. -/
theorem entered_apart (files : Files) (db : Db) (queries : List Text) (s : Catalog.State) (path : Text) :
    Catalog.entered files { s with db := db, queries := queries } path =
      ({ (Catalog.entered files s path).1 with db := db, queries := queries }, (Catalog.entered files s path).2) := by
  dsimp only [Catalog.entered]
  split_ifs <;> rfl

theorem entry_apart {files : Files} {s t : Catalog.State} {path : Text} {calls : List Call} (db : Db)
    (queries : List Text) (entered : Catalog.entry files s path = some (t, calls)) :
    Catalog.entry files { s with db := db, queries := queries } path =
      some ({ t with db := db, queries := queries }, calls) := by
  rw [Catalog.entry_eq] at entered ⊢
  obtain ⟨answers, same⟩ := Option.ite_none_right_eq_some.mp entered
  rw [if_pos answers, entered_apart, Option.some.inj same]

theorem sound_opening {q : Text} {rest : List Text} (sound : Sound w after s) (here : s.place = .opening (q :: rest))
    (taken : push fails s q (.opening rest) = some t) : Sound w after t := by
  obtain ⟨same, order, pushed⟩ := push_eq taken
  have stage := sound.stage
  have follows := sound.follows
  rw [Stage, here] at stage
  rw [remaining, here] at follows
  rw [same]
  refine ⟨Monitor.ordered_step _ _ _ sound.ordered pushed, ?_, follows⟩
  show t.queue.order ++ rest = opening
  rw [order, List.append_assoc]
  exact stage

theorem sound_scanning {q : Text} {entries texts : List Text} (sound : Sound w after s)
    (here : s.place = .scanning entries (q :: texts)) (taken : push fails s q (.scanning entries texts) = some t) :
    Sound w after t := by
  obtain ⟨same, order, pushed⟩ := push_eq taken
  have stage := sound.stage
  have follows := sound.follows
  rw [Stage, here] at stage
  rw [remaining, here] at follows
  rw [same]
  refine ⟨Monitor.ordered_step _ _ _ sound.ordered pushed, ?_, ?_⟩
  · show opening <+: t.queue.order
    rw [order]
    exact stage.trans (List.prefix_append _ _)
  · rw [← follows]
    simp only [remaining]
    rw [order, List.drop_append_of_le_length stage.length_le, List.append_assoc]
    rfl

/-- A read in `populate_from_db` is what the sequential constructor reads. -/
theorem sound_reading {again : Bool} {name : Text} {rest paths : List Text} {db : Db} (sound : Sound w after s)
    (here : s.place = .reading again (name :: rest)) (file : w.file s = some db)
    (read : selectPlaylist w.scan db name = some paths) :
    Sound w after { s with playlists := s.playlists ++ [⟨name, paths⟩], place := .reading again rest } := by
  have stage := sound.stage
  have follows := sound.follows
  have opened := file_eq (w := w) sound.ordered
  rw [file] at opened
  rw [Stage, here] at stage
  rw [remaining, here] at follows
  refine ⟨sound.ordered, ?_, ?_⟩
  · cases again with
    | false =>
      obtain ⟨order, listed, ⟨before, split, populated⟩, reads⟩ := stage
      have own := reads _ le_rfl name List.mem_cons_self
      rw [Launch.opened, ← order, ← opened, Option.bind_some, read] at own
      refine ⟨order, listed, ⟨before ++ [name], ?_, populate_from_db_concat populated own.symm⟩,
        fun k later n member => reads k later n (List.mem_cons_of_mem _ member)⟩
      rw [← split, List.append_assoc]
      rfl
    | true => exact stage
  · rw [← follows]
    cases again with
    | false =>
      obtain ⟨order, listed, -, reads⟩ := stage
      have own := reads _ le_rfl name List.mem_cons_self
      rw [Launch.opened, ← order, ← opened, Option.bind_some, read] at own
      simp only [remaining, populate_from_db_cons own.symm]
      cases populateFromDb w.scan after rest <;> simp
    | true =>
      have last : execAll w.db s.queue.order = some db := by
        rw [← stage _ le_rfl, ← opened]
      simp only [remaining, last, Option.bind_eq_bind, Option.bind_some, populate_from_db_cons read]
      cases populateFromDb w.scan db rest <;> simp

theorem sound_asking {names : List Text} {db : Db} (steady : Steady w after) (sound : Sound w after s)
    (here : s.place = .asking) (file : w.file s = some db) (read : tables w.scan db = some names) :
    Sound w after { s with
      playlistTables := names
      playlists := []
      place := if names = [] then .asking else .reading false names } := by
  have stage := sound.stage
  have follows := sound.follows
  have opened := file_eq (w := w) sound.ordered
  rw [Stage, here] at stage
  rw [file, stage] at opened
  refine ⟨sound.ordered, ?_, ?_⟩
  · by_cases none_ : names = []
    · simp only [Stage, if_pos none_]
      exact stage
    · have now : (w.opened s.queue.executed.length).bind (tables w.scan) = some names := by
        rw [Launch.opened, ← opened, Option.bind_some, read]
      simp only [Stage, if_neg none_]
      exact ⟨stage, steady.tables _ _ now none_, ⟨[], rfl, rfl⟩, steady.reads _ _ now none_⟩
  · by_cases none_ : names = []
    · simp only [remaining, if_pos none_]
    · have now : (w.opened s.queue.executed.length).bind (tables w.scan) = some names := by
        rw [Launch.opened, ← opened, Option.bind_some, read]
      simp only [remaining, if_neg none_, List.nil_append]
      exact (sequential_eq (steady.tables _ _ now none_)).symm

theorem sound_choosing {catalog : Playlist} (steady : Steady w after) (sound : Sound w after s)
    (here : s.place = .choosing) (chosen : named s.playlists "db_catalog" = some catalog) :
    Sound w after { s with
      dbCatalog := catalog
      place := if catalog.tracks = [] then .scanning w.entries [] else .selecting } := by
  have stage := sound.stage
  have follows := sound.follows
  rw [Stage, here] at stage
  rw [remaining, here] at follows
  obtain ⟨order, listed, populated⟩ := stage
  refine ⟨sound.ordered, ?_, ?_⟩
  · by_cases empty : catalog.tracks = []
    · simp only [Stage, if_pos empty, order, List.prefix_rfl]
    · rcases steady.known with same | blank
      · simp only [Stage, if_neg empty]
        intro k later
        show execAll w.db (s.queue.order.take k) = execAll w.db s.queue.order
        rw [order, steady.opened]
        exact same k
      · exact absurd (blank _ _ _ listed populated chosen) empty
  · rw [← follows]
    by_cases empty : catalog.tracks = []
    · simp only [remaining, if_pos empty, choose, chosen, rescan, reread, order, List.drop_length, List.append_nil,
        exec_all_append, steady.opened, Option.bind_eq_bind, Option.bind_some, Option.bind_assoc, Option.pure_def]
    · simp only [remaining, if_neg empty, choose, chosen, rescan, order, steady.opened, Option.bind_eq_bind,
        Option.bind_some]

/-- One entry of the library, with the statements it pushes. -/
theorem sound_entry {path : Text} {rest : List Text} {c : Catalog.State} {calls : List Call} (sound : Sound w after s)
    (here : s.place = .scanning (path :: rest) [])
    (entered : Catalog.entry w.files
      { db := w.db, queries := [], catalog := s.dbCatalog.tracks, playlists := s.playlists } path = some (c, calls)) :
    Sound w after { s with
      playlists := c.playlists
      dbCatalog := { s.dbCatalog with tracks := c.catalog }
      place := .scanning rest (calls.flatMap Call.texts) } := by
  have stage := sound.stage
  have follows := sound.follows
  rw [Stage, here] at stage
  rw [remaining, here] at follows
  refine ⟨sound.ordered, stage, ?_⟩
  rw [← follows]
  have same := entry_apart after (s.queue.order.drop opening.length) entered
  simp only [remaining, List.append_nil, populate, List.foldlM_cons, same, Option.map_some, Option.bind_eq_bind,
    Option.bind_some, Catalog.push]

theorem sound_waiting (sound : Sound w after s) (here : s.place = .waiting) (drained : s.queue.Drained) :
    Sound w after { s with playlists := [], place := .reading true s.playlistTables } := by
  have follows := sound.follows
  rw [remaining, here] at follows
  have all : s.queue.executed.map Prod.fst = s.queue.order :=
    (Fifo.contents_of_idle (f := s.queue.account) drained.2 drained.1).symm.trans sound.ordered
  have length : s.queue.executed.length = s.queue.order.length := by rw [← all, List.length_map]
  refine ⟨sound.ordered, ?_, ?_⟩
  · intro k later
    show execAll w.db (s.queue.order.take k) = execAll w.db s.queue.order
    rw [List.take_of_length_le (length ▸ later)]
  · rw [← follows]
    simp only [remaining, reread, List.nil_append]

theorem sound_selecting {current : Playlist} {db : Db} {adv : Int} (sound : Sound w after s)
    (here : s.place = .selecting) (chosen : named s.playlists w.config = some current) (file : w.file s = some db)
    (read : getPlaylistCurrent w.scan db current.name = some adv) :
    Sound w after { s with place := .positioning adv } := by
  have quiet := sound.stage
  have follows := sound.follows
  rw [Stage, here] at quiet
  rw [remaining, here] at follows
  have last : execAll w.db s.queue.order = some db := by
    rw [← quiet _ le_rfl, ← file_eq sound.ordered, file]
  refine ⟨sound.ordered, ⟨quiet, current, db, chosen, last, read⟩, ?_⟩
  rw [← follows, last]
  simp only [remaining, finish, chosen, read, Option.bind_eq_bind, Option.bind_some]

/-- The two reads of the position agree. -/
theorem sound_positioning {current : Playlist} {adv position : Int} {player : Player.State} (sound : Sound w after s)
    (here : s.place = .positioning adv) (chosen : named s.playlists w.config = some current)
    (read : readAgain w s current adv = some position)
    (built : Player.construct s.playlists s.playlistTables w.config (fun _ => position) w.isPlaying w.isPaused =
      some player) : Sound w after { s with place := .constructed player } := by
  have stage := sound.stage
  have follows := sound.follows
  rw [Stage, here] at stage
  rw [remaining, here] at follows
  obtain ⟨quiet, current', db, chosen', last, first⟩ := stage
  cases chosen.symm.trans chosen'
  have file : w.file s = some db := by
    rw [file_eq sound.ordered, quiet _ le_rfl, last]
  have same : position = adv := by
    unfold readAgain at read
    by_cases inside : Within current adv
    · simp only [if_pos inside, file, first, Option.bind_eq_bind, Option.bind_some, Option.some.injEq] at read
      exact read.symm
    · rw [if_neg inside] at read
      exact (Option.some.inj read).symm
  refine ⟨sound.ordered, trivial, ?_⟩
  rw [← follows, ← same]
  exact built.symm

/-- The constructor's statements. -/
theorem sound_player (steady : Steady w after) (sound : Sound w after s) (trusted : Trusted s .player)
    (taken : advance w fails s = some t) : Sound w after t := by
  have stage := sound.stage
  have follows := sound.follows
  cases here : s.place with
  | opening rest =>
    rw [advance, here] at taken
    rw [Stage, here] at stage
    rw [remaining, here] at follows
    cases rest with
    | nil =>
      cases taken
      exact ⟨sound.ordered, (List.append_nil _).symm.trans stage, follows⟩
    | cons q rest => exact sound_opening sound here taken
  | asking =>
    simp only [advance, here, Option.bind_eq_bind, Option.bind_eq_some_iff] at taken
    obtain ⟨db, file, names, read, made⟩ := taken
    cases made
    exact sound_asking steady sound here file read
  | reading again rest =>
    cases rest with
    | nil =>
      simp only [advance, here] at taken
      cases taken
      rw [Stage, here] at stage
      rw [remaining, here] at follows
      cases again with
      | false =>
        obtain ⟨order, listed, ⟨read, split, populated⟩, -⟩ := stage
        rw [List.append_nil] at split
        refine ⟨sound.ordered, ⟨order, listed, split ▸ populated⟩, ?_⟩
        rw [← follows]
        simp [remaining, populateFromDb]
      | true =>
        refine ⟨sound.ordered, stage, ?_⟩
        rw [← follows]
        simp [remaining, populateFromDb]
    | cons name rest =>
      simp only [advance, here, Option.bind_eq_bind, Option.bind_eq_some_iff] at taken
      obtain ⟨db, file, paths, read, made⟩ := taken
      cases made
      exact sound_reading sound here file read
  | choosing =>
    simp only [advance, here, Option.bind_eq_bind, Option.bind_eq_some_iff] at taken
    obtain ⟨catalog, chosen, made⟩ := taken
    cases made
    exact sound_choosing steady sound here chosen
  | scanning entries texts =>
    cases texts with
    | nil =>
      cases entries with
      | nil =>
        simp only [advance, here] at taken
        cases taken
        rw [Stage, here] at stage
        rw [remaining, here] at follows
        refine ⟨sound.ordered, trivial, ?_⟩
        rw [← follows]
        obtain ⟨more, split⟩ := stage
        simp only [remaining, populate, List.foldlM_nil, ← split, List.drop_left, List.append_nil,
          Option.pure_def, Option.bind_eq_bind, Option.bind_some]
      | cons path rest =>
        simp only [advance, here, Option.bind_eq_bind, Option.bind_eq_some_iff] at taken
        obtain ⟨⟨c, calls⟩, entered, made⟩ := taken
        cases made
        exact sound_entry sound here entered
    | cons q texts =>
      simp only [advance, here] at taken
      exact sound_scanning sound here taken
  | waiting =>
    simp only [advance, here] at taken
    cases taken
    by_cases raised : s.queue.queueEmpty = true
    · rw [if_pos raised]
      exact sound_waiting sound here (trusted here raised)
    · rw [if_neg raised]
      exact sound
  | selecting =>
    simp only [advance, here, Option.bind_eq_bind, Option.bind_eq_some_iff] at taken
    obtain ⟨current, chosen, db, file, adv, read, made⟩ := taken
    cases made
    exact sound_selecting sound here chosen file read
  | positioning adv =>
    simp only [advance, here, Option.bind_eq_bind, Option.bind_eq_some_iff] at taken
    obtain ⟨current, chosen, position, read, player, built, made⟩ := taken
    cases made
    exact sound_positioning sound here chosen read built
  | constructed player =>
    rw [advance, here] at taken
    cases taken

theorem sound_step (steady : Steady w after) (s : State) (a : Action) (t : State) (sound : Sound w after s)
    (trusted : Trusted s a) (taken : step w fails s a = some t) : Sound w after t := by
  cases a with
  | player =>
    obtain ⟨-, taken⟩ := Option.ite_none_right_eq_some.mp taken
    exact sound_player steady sound trusted taken
  | queue a =>
    obtain ⟨without, taken⟩ := Option.ite_none_right_eq_some.mp taken
    obtain ⟨queue, moved, rfl⟩ := Option.map_eq_some_iff.mp taken
    exact sound_queue sound without moved

theorem sound_initial (w : Launch) (after : Db) : Sound w after initial where
  ordered := rfl
  stage := rfl
  follows := rfl

/-- **The constructor among the threads.** On a file that any sessions left, and however the monitor runs
beside it: where it trusts the flag only over an empty queue, the player it makes is the one the sequential
constructor makes of the file with the tables created. -/
theorem startup_refines {sessions : List Session} {actions : List Action} {player : Player.State}
    (plain : ∀ s ∈ sessions, ∀ r ∈ s.requests, r.Plain)
    (ran : execAll .empty (sessions.flatMap Session.texts) = some w.db)
    (reached : (step w fails).run initial actions = some s) (trusted : (step w fails).Along Trusted initial actions)
    (finished : s.place = .constructed player) :
    ∃ after, execAll w.db opening = some after ∧
      Resume.construct w.files w.entries w.scan after w.config w.isPlaying w.isPaused = some player := by
  obtain ⟨after, steady⟩ := steady_of_lifetime plain ran
  have follows := (Steps.preserved_along (sound_step steady) trusted reached (sound_initial w after)).follows
  rw [remaining, finished] at follows
  exact ⟨after, steady.opened, follows.symm⟩

end Simulation

/-- A run along which the flag can be trusted. -/
def Goes (w : Launch) (fails : Nat → Text → Bool) (s t : State) : Prop :=
  ∃ actions, (step w fails).Along Trusted s actions ∧ (step w fails).run s actions = some t

section Runs

variable {w : Launch} {fails : Nat → Text → Bool} {s t u : State} {a : Action}

theorem Goes.trans (first : Goes w fails s t) (second : Goes w fails t u) : Goes w fails s u := by
  obtain ⟨actions, trusted, reached⟩ := first
  obtain ⟨more, trusted', reached'⟩ := second
  exact ⟨actions ++ more, Steps.along_append trusted reached trusted', Steps.run_append reached reached'⟩

theorem Goes.single (trusted : Trusted s a) (taken : step w fails s a = some t) : Goes w fails s t :=
  ⟨[a], Steps.along_cons trusted taken trivial, Steps.run_cons_iff.mpr ⟨t, taken, rfl⟩⟩

/-- A step of the constructor outside the wait for the empty queue. -/
theorem Goes.moves (taken : step w fails s .player = some t) (elsewhere : s.place ≠ .waiting) : Goes w fails s t :=
  .single (a := .player) (fun waits => absurd waits elsewhere) taken

/-- The tables are read one after another. -/
theorem reads_goes {db : Db} {again : Bool} {names : List Text} {content : Text → List Text}
    (outside : s.queue.producers () = .outside) (here : s.place = .reading again names) (file : w.file s = some db)
    (each : ∀ n ∈ names, selectPlaylist w.scan db n = some (content n)) :
    Goes w fails s { s with
      playlists := s.playlists ++ names.map fun n => ⟨n, content n⟩
      place := .reading again [] } := by
  induction names generalizing s with
  | nil =>
    refine ⟨[], trivial, congrArg some ?_⟩
    obtain ⟨queue, place, tables, playlists, catalog⟩ := s
    cases here
    simp
  | cons n names ih =>
    obtain ⟨first, others⟩ := List.forall_mem_cons.mp each
    have taken : step w fails s .player = _ := step_reading outside here file first
    have elsewhere : s.place ≠ .waiting := by rw [here]; nofun
    have onwards := ih (s := { s with playlists := s.playlists ++ [⟨n, content n⟩], place := .reading again names })
      outside rfl file others
    have whole := (Goes.moves taken elsewhere).trans onwards
    simpa using whole

end Runs

/-- One statement pushed. -/
def onePush : List Action := [.player, .queue (.unempty ()), .queue (.notify ())]

def executes (n : Nat) : List Action := List.replicate (9 * n) (.queue .advance)

/-- The statements that create the tables are executed, and the last one then writes the flag or has written it. -/
def opens (late : Bool) : List Action :=
  onePush ++ onePush ++
    cond late ([.player] ++ executes 3 ++ [.queue (.unempty ()), .queue (.notify ())]) (onePush ++ executes 3) ++
    [.player]

/-- With the tables created, these statements executed after them, and the flag so. -/
def atRest (flag : Bool) (pushed : List Text) (place : PlayerAt) (tables : List Text) (playlists : List Playlist)
    (catalog : Playlist) : State where
  queue :=
    { producers := fun _ => .outside, monitor := .top, queries := [], queueEmpty := flag, order := opening ++ pushed
      executed := (opening ++ pushed).map fun q => (q, true) }
  place := place
  playlistTables := tables
  playlists := playlists
  dbCatalog := catalog

theorem opens_run (w : Launch) (late : Bool) : (step w fun _ _ => false).run initial (opens late) =
    some (atRest (!late) [] .asking [] [] ⟨"", []⟩) := by
  cases late <;> rfl

theorem opens_trusted (w : Launch) : (step w fun _ _ => false).Along Trusted initial (opens false) := by
  iterate 37 refine ⟨by first | trivial | nofun, ?_⟩
  trivial

theorem file_at_rest {w : Launch} {flag : Bool} {pushed : List Text} {place : PlayerAt} {names : List Text}
    {playlists : List Playlist} {catalog : Playlist} :
    w.file (atRest flag pushed place names playlists catalog) = execAll w.db (opening ++ pushed) := by
  have all : ((opening ++ pushed).map fun q => (q, true)).map Prod.fst = opening ++ pushed := by
    rw [List.map_map]
    exact List.map_id _
  exact congrArg (execAll w.db) all

/-- A session that leaves a playlist and a position in it. -/
def mixed : Session where
  requests :=
    [.addPaths "Mix" ["/a.mp3", "/b.mp3"], .insertPlaylist "Mix" "/Mix.m3u", .setPlaylistCurrent "Mix" 1]
  executed := 7

/-- The program started again on what that session left, with one track in the library. -/
def laterLaunch (db : Db) : Launch where
  db := db
  scan := .stored
  files := Resume.library
  entries := ["/a.mp3"]
  config := "Mix"
  isPlaying := false
  isPaused := false

/-- What the library holds then. -/
def mixedLibrary : Library := ([mixed].flatMap Session.changes).foldl Library.apply .empty

theorem mixed_playlists (n : Text) : mixedLibrary.playlists n = if n = fold "Mix" then
    some (text "Mix", {text "/a.mp3", text "/b.mp3"}) else none := by
  have changes : [mixed].flatMap Session.changes = [.none, .none, .none, .playlist "Mix" .create,
    .playlist "Mix" (.add [text "/a.mp3", text "/b.mp3"].toFinset), .register "Mix" (.source "/Mix.m3u"),
    .register "Mix" (.current 1)] := rfl
  unfold mixedLibrary
  rw [changes]
  simp [Library.apply, Function.update_apply, PlaylistChange.apply, Library.empty]

/-- The tables that are read. -/
theorem mixed_tables {db : Db} (holds : Represents db mixedLibrary) :
    ∃ names, tables .stored db = some names ∧ ∀ n, n ∈ names ↔ n = text "db_catalog" ∨ n = text "Mix" := by
  obtain ⟨names, listed, -, members⟩ := tables_answer .stored holds
  refine ⟨names, listed, fun n => (members n).trans (or_congr_right ?_)⟩
  rw [mixed_playlists]
  constructor
  · rintro ⟨-, -, held, own⟩
    obtain ⟨-, same⟩ := Option.ite_none_right_eq_some.mp own
    exact (Prod.mk.inj (Option.some.inj same)).1.symm
  · rintro rfl
    exact ⟨by decide, by decide, _, if_pos rfl⟩

/-- What is read of them, whatever has come to the catalog. -/
theorem mixed_reads {db : Db} {l : Library} (holds : Represents db l) (same : l.playlists = mixedLibrary.playlists) :
    ∃ content : Text → List Text, (∀ n, n = text "db_catalog" ∨ n = text "Mix" →
      selectPlaylist .stored db n = some (content n)) ∧ (content "Mix").length = 2 ∧
      (l.entries = 0 → content "db_catalog" = []) := by
  obtain ⟨mix, read, distinct, members⟩ := playlist_answer .stored holds (n := "Mix") ⟨by decide, by decide, by decide⟩
  obtain ⟨t, stored, found, -, declared, rows, entries⟩ := holds.catalog
  have held : Catalog.Holds db ((stored.map (·.path)).map Value.text) := by
    refine ⟨t, found, declared, ?_⟩
    rw [Catalog.paths, rows]
    simp [Catalog.cell_path declared, Entry.row]
  obtain ⟨paths, read', all⟩ := Views.select_catalog .stored held
  refine ⟨fun n => if n = text "Mix" then mix else paths, ?_, ?_, fun empty => ?_⟩
  · rintro n (rfl | rfl)
    · exact read'
    · exact read
  · change mix.length = 2
    rw [← List.toFinset_card_of_nodup distinct, members, same, mixed_playlists, if_pos rfl]
    rfl
  · have none_ : stored = [] := by
      rw [empty] at entries
      exact (Multiset.coe_eq_zero stored).mp entries
    refine (if_neg (by decide)).trans (List.eq_nil_iff_forall_not_mem.mpr fun q inside => ?_)
    rw [all, none_] at inside
    exact List.not_mem_nil inside

/-- The scan of one new track, and the execution of its statement. -/
def scansOne : List Action := [.player] ++ onePush ++ [.player] ++ executes 1

theorem scans_run {db : Db} (names : List Text) (playlists : List Playlist) :
    (step (laterLaunch db) fun _ _ => false).run
      (atRest true [] (.scanning ["/a.mp3"] []) names playlists ⟨"db_catalog", []⟩) scansOne =
        some (atRest true [insertPath "/a.mp3"] .waiting names playlists ⟨"db_catalog", ["/a.mp3"]⟩) := by
  rfl

theorem scans_trusted {db : Db} (names : List Text) (playlists : List Playlist) :
    (step (laterLaunch db) fun _ _ => false).Along Trusted
      (atRest true [] (.scanning ["/a.mp3"] []) names playlists ⟨"db_catalog", []⟩) scansOne := by
  iterate 14 refine ⟨by first | trivial | nofun, ?_⟩
  trivial

/-- The playlist of this name among those read. -/
theorem named_read {names : List Text} {content : Text → List Text} {n : Text} (member : n ∈ names) :
    named (names.map fun n => (⟨n, content n⟩ : Playlist)) n = some ⟨n, content n⟩ := by
  have among : (⟨n, content n⟩ : Playlist) ∈ names.map fun n => ⟨n, content n⟩ := List.mem_map_of_mem member
  obtain ⟨p, found, held, own⟩ := Player.named_of_mem ⟨_, among, rfl⟩
  obtain ⟨m, -, rfl⟩ := List.mem_map.mp held
  cases own
  exact found

/-- After the scan, with its statement executed. -/
def scannedAt (names : List Text) (place : PlayerAt) (playlists : List Playlist) : State :=
  atRest true [insertPath "/a.mp3"] place names playlists ⟨"db_catalog", ["/a.mp3"]⟩

section LaterLaunch

variable {db after : Db} {names : List Text} {content : Text → List Text}

/-- With the catalog empty, the constructor comes to scan the library. -/
theorem later_scans (opened : execAll db opening = some db) (listed : tables .stored db = some names)
    (held : text "db_catalog" ∈ names) (reads : ∀ n ∈ names, selectPlaylist .stored db n = some (content n))
    (empty : content "db_catalog" = []) :
    Goes (laterLaunch db) (fun _ _ => false) initial
      (scannedAt names .waiting (names.map fun n => ⟨n, content n⟩)) := by
  have file (place : PlayerAt) (tables : List Text) (playlists : List Playlist) (catalog : Playlist) :
      (laterLaunch db).file (atRest true [] place tables playlists catalog) = some db := by
    rw [file_at_rest, List.append_nil]
    exact opened
  have start : Goes (laterLaunch db) (fun _ _ => false) initial (atRest true [] .asking [] [] ⟨"", []⟩) :=
    ⟨_, opens_trusted _, opens_run _ false⟩
  have asks : step (laterLaunch db) (fun _ _ => false) (atRest true [] .asking [] [] ⟨"", []⟩) .player =
      some (atRest true [] (.reading false names) names [] ⟨"", []⟩) :=
    step_asking rfl rfl (file .asking [] [] ⟨"", []⟩) listed (List.ne_nil_of_mem held)
  have reading : Goes (laterLaunch db) (fun _ _ => false) (atRest true [] (.reading false names) names [] ⟨"", []⟩)
      (atRest true [] (.reading false []) names (names.map fun n => ⟨n, content n⟩) ⟨"", []⟩) :=
    reads_goes rfl rfl (file (.reading false names) names [] ⟨"", []⟩) reads
  have ends : step (laterLaunch db) (fun _ _ => false)
      (atRest true [] (.reading false []) names (names.map fun n => ⟨n, content n⟩) ⟨"", []⟩) .player =
      some (atRest true [] .choosing names (names.map fun n => ⟨n, content n⟩) ⟨"", []⟩) := rfl
  have chooses : step (laterLaunch db) (fun _ _ => false)
      (atRest true [] .choosing names (names.map fun n => ⟨n, content n⟩) ⟨"", []⟩) .player =
      some (atRest true [] (.scanning ["/a.mp3"] []) names (names.map fun n => ⟨n, content n⟩)
        ⟨"db_catalog", []⟩) := by
    have chosen : named (names.map fun n => (⟨n, content n⟩ : Playlist)) "db_catalog" = some ⟨"db_catalog", []⟩ :=
      empty ▸ named_read held
    simp only [step, advance, atRest, if_true, chosen, Option.bind_eq_bind, Option.bind_some]
    rfl
  have scans : Goes (laterLaunch db) (fun _ _ => false) (atRest true [] (.scanning ["/a.mp3"] []) names
      (names.map fun n => ⟨n, content n⟩) ⟨"db_catalog", []⟩) _ := ⟨_, scans_trusted names _, scans_run names _⟩
  have tableless := Goes.moves asks PlayerAt.noConfusion
  have chosen := (Goes.moves ends PlayerAt.noConfusion).trans (.moves chooses PlayerAt.noConfusion)
  exact start.trans (tableless.trans (reading.trans (chosen.trans scans)))

/-- With the flag raised over an empty queue, it reads again and comes to its end. -/
theorem later_ends {playlists : List Playlist} (file : execAll db (opening ++ [insertPath "/a.mp3"]) = some after)
    (held : text "Mix" ∈ names) (reads : ∀ n ∈ names, selectPlaylist .stored after n = some (content n))
    (two : (content "Mix").length = 2) (position : getPlaylistCurrent .stored after "Mix" = some 1) :
    ∃ s player, Goes (laterLaunch db) (fun _ _ => false) (scannedAt names .waiting playlists) s ∧
      s.place = .constructed player ∧ player.itTrack.position = some 1 := by
  have file (place : PlayerAt) (playlists : List Playlist) :
      (laterLaunch db).file (scannedAt names place playlists) = some after := file_at_rest.trans file
  have goes : step (laterLaunch db) (fun _ _ => false) (scannedAt names .waiting playlists) .player =
      some (scannedAt names (.reading true names) []) := rfl
  have rereads : Goes (laterLaunch db) (fun _ _ => false) (scannedAt names (.reading true names) [])
      (scannedAt names (.reading true []) (names.map fun n => ⟨n, content n⟩)) :=
    reads_goes rfl rfl (file (.reading true names) []) reads
  have ends : step (laterLaunch db) (fun _ _ => false)
      (scannedAt names (.reading true []) (names.map fun n => ⟨n, content n⟩)) .player =
      some (scannedAt names .selecting (names.map fun n => ⟨n, content n⟩)) := rfl
  have current : named (names.map fun n => (⟨n, content n⟩ : Playlist)) "Mix" = some ⟨"Mix", content "Mix"⟩ :=
    named_read held
  have selects : step (laterLaunch db) (fun _ _ => false)
      (scannedAt names .selecting (names.map fun n => ⟨n, content n⟩)) .player =
      some (scannedAt names (.positioning 1) (names.map fun n => ⟨n, content n⟩)) :=
    step_selecting rfl rfl current (file .selecting _) position
  -- The position is one in the playlist, so it is read once more.
  have within : Within ⟨"Mix", content "Mix"⟩ 1 := ⟨by decide, by simp [two]⟩
  have again : readAgain (laterLaunch db) (scannedAt names (.positioning 1) (names.map fun n => ⟨n, content n⟩))
      ⟨"Mix", content "Mix"⟩ 1 = some 1 := by
    have read : getPlaylistCurrent (laterLaunch db).scan after "Mix" = some 1 := position
    simp only [readAgain, if_pos within, file, read, Option.bind_eq_bind, Option.bind_some]
  obtain ⟨player, built, at_⟩ : ∃ player, Player.construct (names.map fun n => ⟨n, content n⟩) names "Mix" (fun _ => 1)
      false false = some player ∧ player.itTrack.position = some 1 := by
    refine ⟨_, by rw [Player.construct, current]; rfl, ?_⟩
    exact congrArg some (if_pos within)
  have constructs : step (laterLaunch db) (fun _ _ => false)
      (scannedAt names (.positioning 1) (names.map fun n => ⟨n, content n⟩)) .player =
      some (scannedAt names (.constructed player) (names.map fun n => ⟨n, content n⟩)) := by
    have made : Player.construct (names.map fun n => ⟨n, content n⟩) names (laterLaunch db).config (fun _ => 1)
        (laterLaunch db).isPlaying (laterLaunch db).isPaused = some player := built
    exact step_positioning rfl rfl current again made
  have trusts : Goes (laterLaunch db) (fun _ _ => false) _ _ := Goes.single (a := .player) (fun _ _ => ⟨rfl, rfl⟩) goes
  have chosen := (Goes.moves ends PlayerAt.noConfusion).trans (.moves selects PlayerAt.noConfusion)
  have built := chosen.trans (.moves constructs PlayerAt.noConfusion)
  exact ⟨_, player, trusts.trans (rereads.trans built), rfl, at_⟩

/-- A session that left a playlist with a position, and a launch on a library with a track. -/
theorem later_launch_refines : ∃ db after player, execAll .empty mixed.texts = some db ∧
    execAll db opening = some after ∧
    Resume.construct Resume.library ["/a.mp3"] .stored after "Mix" false false = some player ∧
      player.itTrack.position = some 1 := by
  have plain : ∀ s ∈ [mixed], ∀ r ∈ s.requests, r.Plain := by
    have mix : Pairing.Ordinary "Mix" := ⟨by decide, by decide, by decide⟩
    simp only [List.forall_mem_cons, mixed]
    exact ⟨⟨mix, trivial, trivial, List.forall_mem_nil _⟩, List.forall_mem_nil _⟩
  obtain ⟨db, ran, follows⟩ := lifetime_followed plain
  have holds : Represents db mixedLibrary := follows ⟨mixed, List.mem_singleton_self mixed, (by decide : 3 ≤ 7)⟩
  obtain ⟨names, listed, members⟩ := mixed_tables holds
  obtain ⟨content, reads, -, empty⟩ := mixed_reads holds rfl
  obtain ⟨after, inserted, holds'⟩ := exec_all_means (.cons (insert_path_means "/a.mp3") .nil) holds
  obtain ⟨content', reads', two, -⟩ := mixed_reads holds' rfl
  have opened : execAll db opening = some db := opened_of_represents (w := laterLaunch db) holds 3
  have first := later_scans opened listed ((members _).mpr (.inl rfl)) (fun n held => reads n ((members n).mp held))
    (empty rfl)
  have all : execAll db (opening ++ [insertPath "/a.mp3"]) = some after := by
    rw [exec_all_append, opened, Option.bind_some, inserted]
  obtain ⟨s, player, second, finished, at_⟩ := later_ends all ((members _).mpr (.inr rfl))
    (fun n held => reads' n ((members n).mp held)) two (current_answer holds' (by decide))
  obtain ⟨actions, trusted, reached⟩ := first.trans second
  obtain ⟨created, opens, built⟩ := startup_refines (w := laterLaunch db) plain ran reached trusted finished
  exact ⟨db, created, player, ran, opens, built, at_⟩

end LaterLaunch

section Waits

variable {w : Launch} {after : Db} {fails : Nat → Text → Bool} {s t : State} {queue : Monitor.State Unit Text}
  {a : Monitor.Action Unit Text}

/-- A statement of the constructor is a critical section of its own, or it leaves the queue as it is. -/
theorem player_cases (taken : advance w fails s = some t) :
    (∃ q, Monitor.step fails s.queue (.push () q) = some t.queue ∧
      ((∃ rest, s.place = .opening (q :: rest) ∧ t.place = .opening rest) ∨
        ∃ entries texts, t.place = .scanning entries texts)) ∨
    t.queue = s.queue ∧ (∀ rest, t.place ≠ .opening rest) ∧
      (t.place = .asking → s.place = .opening [] ∨ s.place = .asking) := by
  obtain ⟨queue, place, names, playlists, catalog⟩ := s
  cases place with
  | opening rest =>
    cases rest with
    | nil =>
      cases taken
      exact .inr ⟨rfl, nofun, fun _ => .inl rfl⟩
    | cons q rest =>
      obtain ⟨same, -, pushed⟩ := push_eq taken
      exact .inl ⟨q, pushed, .inl ⟨rest, rfl, by rw [same]⟩⟩
  | scanning entries texts =>
    cases texts with
    | nil =>
      cases entries with
      | nil =>
        cases taken
        exact .inr ⟨rfl, nofun, nofun⟩
      | cons path entries =>
        obtain ⟨⟨c, calls⟩, -, taken⟩ := Option.bind_eq_some_iff.mp taken
        cases taken
        exact .inr ⟨rfl, nofun, nofun⟩
    | cons q texts =>
      obtain ⟨same, -, pushed⟩ := push_eq (by simpa only [advance] using taken)
      exact .inl ⟨q, pushed, .inr ⟨entries, texts, by rw [same]⟩⟩
  | reading again rest =>
    cases rest with
    | nil =>
      cases taken
      cases again <;> exact .inr ⟨rfl, nofun, nofun⟩
    | cons name rest =>
      obtain ⟨db, -, taken⟩ := Option.bind_eq_some_iff.mp taken
      obtain ⟨paths, -, taken⟩ := Option.bind_eq_some_iff.mp taken
      cases taken
      exact .inr ⟨rfl, nofun, nofun⟩
  | asking =>
    obtain ⟨db, -, taken⟩ := Option.bind_eq_some_iff.mp taken
    obtain ⟨names, -, taken⟩ := Option.bind_eq_some_iff.mp taken
    cases taken
    refine .inr ⟨rfl, fun rest => ?_, fun _ => .inr rfl⟩
    dsimp only
    split <;> nofun
  | choosing =>
    obtain ⟨catalog, -, taken⟩ := Option.bind_eq_some_iff.mp taken
    cases taken
    refine .inr ⟨rfl, fun rest => ?_, ?_⟩ <;> dsimp only <;> split <;> nofun
  | waiting =>
    obtain rfl := Option.some.inj taken
    split <;> exact .inr ⟨rfl, nofun, nofun⟩
  | selecting =>
    obtain ⟨current, -, taken⟩ := Option.bind_eq_some_iff.mp taken
    obtain ⟨db, -, taken⟩ := Option.bind_eq_some_iff.mp taken
    obtain ⟨adv, -, taken⟩ := Option.bind_eq_some_iff.mp taken
    cases taken
    exact .inr ⟨rfl, nofun, nofun⟩
  | positioning adv =>
    obtain ⟨current, -, taken⟩ := Option.bind_eq_some_iff.mp taken
    obtain ⟨position, -, taken⟩ := Option.bind_eq_some_iff.mp taken
    obtain ⟨player, -, taken⟩ := Option.bind_eq_some_iff.mp taken
    cases taken
    exact .inr ⟨rfl, nofun, nofun⟩
  | constructed player => cases taken

/-- A monitor that is careful with the flag can be trusted. -/
theorem trusted_of_careful {actions : List Action} (reached : (step w fails).run initial actions = some s)
    (careful : (step w fails).Along Careful initial actions) : (step w fails).Along Trusted initial actions := by
  have keeps (s : State) (a : Action) (t : State) (honest : Monitor.Honest s.queue) (careful : Careful s a)
      (taken : step w fails s a = some t) : Monitor.Honest t.queue := by
    cases a with
    | player =>
      obtain ⟨-, taken⟩ := Option.ite_none_right_eq_some.mp taken
      rcases player_cases taken with ⟨q, pushed, -⟩ | ⟨same, -⟩
      · exact Monitor.honest_step s.queue (.push () q) t.queue honest trivial pushed
      · rwa [same]
    | queue a =>
      obtain ⟨-, taken⟩ := Option.ite_none_right_eq_some.mp taken
      obtain ⟨queue, moved, rfl⟩ := Option.map_eq_some_iff.mp taken
      exact Monitor.honest_step s.queue a queue honest careful moved
  have follows (s : State) (a : Action) (t : State) (honest : Monitor.Honest s.queue)
      (taken : step w fails s a = some t) : Trusted s a := by
    cases a with
    | player =>
      obtain ⟨outside, -⟩ := Option.ite_none_right_eq_some.mp taken
      intro _ raised
      rcases honest raised with drained | ⟨p, unlocked⟩
      · exact drained
      · cases outside.symm.trans unlocked
    | queue a => trivial
  exact Steps.along_of_kept keeps follows careful reached fun _ => .inl ⟨rfl, rfl⟩

/-! ### The two waits -/

/-- The constructor is in no `push` while it waits, and it has pushed the statements that create the
tables before it asks for them. -/
structure Idle (s : State) : Prop where
  ordered : Monitor.Ordered s.queue
  outside : s.place = .asking ∨ s.place = .waiting → s.queue.producers () = .outside
  begun : ∀ rest, s.place = .opening rest → s.queue.order ++ rest = opening
  asks : s.place = .asking → s.queue.order = opening
  again : s.queue.monitor = .tested false → s.queue.queries ≠ []

omit w in
/-- A thread that is in no `push` stays out of it. -/
theorem outside_kept (without : a.arrivals = []) (taken : Monitor.step fails s.queue a = some queue)
    (outside : s.queue.producers () = .outside) : queue.producers () = .outside := by
  cases a with
  | push p q => cases without
  | unempty p => cases (Option.ite_none_right_eq_some.mp taken).1.symm.trans outside
  | notify p => cases (Option.ite_none_right_eq_some.mp taken).1.symm.trans outside
  | wake =>
    cases taken
    exact outside
  | advance => rwa [Monitor.producers_advance taken]

theorem idle_step (s : State) (a : Action) (t : State) (idle : Idle s) (taken : step w fails s a = some t) :
    Idle t := by
  cases a with
  | player =>
    obtain ⟨outside, taken⟩ := Option.ite_none_right_eq_some.mp taken
    rcases player_cases taken with ⟨q, pushed, ⟨rest, here, place⟩ | ⟨entries, texts, place⟩⟩ | ⟨same, past, asks⟩
    · refine ⟨Monitor.ordered_step _ _ _ idle.ordered pushed, fun waits => ?_, fun rest' here' => ?_, fun asks => ?_,
        Monitor.again_step _ _ _ idle.again pushed⟩
      · rw [place] at waits
        rcases waits with waits | waits <;> cases waits
      · obtain rfl := PlayerAt.opening.inj (place.symm.trans here')
        rw [(Monitor.step_moves pushed).2, List.append_assoc]
        exact idle.begun _ here
      · cases place.symm.trans asks
    · refine ⟨Monitor.ordered_step _ _ _ idle.ordered pushed, fun waits => ?_, fun rest here => ?_, fun asks => ?_,
        Monitor.again_step _ _ _ idle.again pushed⟩
      · rw [place] at waits
        rcases waits with waits | waits <;> cases waits
      · cases place.symm.trans here
      · cases place.symm.trans asks
    · rw [← same] at outside
      refine ⟨by rw [same]; exact idle.ordered, fun _ => outside, fun rest here => absurd here (past rest),
        fun now => ?_, by rw [same]; exact idle.again⟩
      rw [same]
      rcases asks now with here | here
      · exact (List.append_nil _).symm.trans (idle.begun [] here)
      · exact idle.asks here
  | queue a =>
    obtain ⟨without, taken⟩ := Option.ite_none_right_eq_some.mp taken
    obtain ⟨queue, moved, rfl⟩ := Option.map_eq_some_iff.mp taken
    obtain ⟨order, -⟩ := queue_kept without moved
    refine ⟨Monitor.ordered_step _ _ _ idle.ordered moved,
      fun waits => outside_kept without moved (idle.outside waits), fun rest here => ?_, fun asks => ?_,
      Monitor.again_step _ _ _ idle.again moved⟩
    · exact (congrArg (· ++ rest) order).trans (idle.begun rest here)
    · exact order.trans (idle.asks asks)

theorem idle_initial : Idle initial where
  ordered := rfl
  outside := fun _ => rfl
  begun := by
    rintro rest here
    cases here
    rfl
  asks := nofun
  again := nofun

theorem idle_run {actions : List Action} (reached : (step w fails).run initial actions = some s) : Idle s :=
  Steps.preserved idle_step reached idle_initial

/-- What the monitor can do by itself it can do beside the constructor. -/
theorem reaches_queue (reached : (Monitor.step fails).Reaches Monitor.Action.own s.queue queue) :
    (step w fails).Reaches (fun _ => True) s { s with queue := queue } := by
  obtain ⟨actions, own, ran⟩ := reached
  refine ⟨actions.map Action.queue, fun _ _ => trivial, ?_⟩
  induction actions generalizing s with
  | nil =>
    cases ran
    rfl
  | cons a actions ih =>
    obtain ⟨middle, taken, rest⟩ := Steps.run_cons_iff.mp ran
    obtain ⟨first, others⟩ := List.forall_mem_cons.mp own
    have without : a.arrivals = [] := by
      cases a with
      | wake | advance => rfl
      | push | unempty | notify => exact absurd first id
    refine Steps.run_cons_iff.mpr ⟨{ s with queue := middle }, ?_, ih others rest⟩
    rw [step, if_pos without, taken]
    rfl

/-- The wait for the tables ends: the monitor executes what was pushed. -/
theorem asking_ends (steady : Steady w after) (idle : Idle s) (asks : s.place = .asking) :
    ∃ t names, (step w fails).Reaches (fun _ => True) s t ∧ t.place = .reading false names := by
  obtain ⟨queue, reached, order, drained⟩ := Monitor.reaches_drained fails s.queue
  have keeps (q : Monitor.State Unit Text) (a : Monitor.Action Unit Text) (q' : Monitor.State Unit Text)
      (kept : q.producers () = .outside ∧ Monitor.Ordered q) (own : a.own)
      (taken : Monitor.step fails q a = some q') : q'.producers () = .outside ∧ Monitor.Ordered q' := by
    refine ⟨?_, Monitor.ordered_step q a q' kept.2 taken⟩
    cases a with
    | wake =>
      cases taken
      exact kept.1
    | advance => rw [Monitor.producers_advance taken, kept.1]
    | push | unempty | notify => exact absurd own id
  have kept := reached.preserved keeps ⟨idle.outside (.inl asks), idle.ordered⟩
  obtain ⟨names, listed, some_⟩ := steady.shown
  have all : queue.executed.map Prod.fst = opening :=
    (Fifo.contents_of_idle (f := queue.account) drained.2 drained.1).symm.trans
      (kept.2.trans (order.trans (idle.asks asks)))
  have file : w.file { s with queue := queue } = some after := (congrArg (execAll w.db) all).trans steady.opened
  have taken : step w fails { s with queue := queue } .player = _ := step_asking kept.1 asks file listed some_
  exact ⟨_, names, (reaches_queue reached).trans (.single trivial taken), rfl⟩

/-- With the flag lowered and nobody left to raise it, the constructor waits. -/
theorem waiting_kept (s : State) (a : Action) (t : State)
    (kept : s.place = .waiting ∧ s.queue.producers () = .outside ∧ Monitor.Spent s.queue) (_ : True)
    (taken : step w fails s a = some t) :
    t.place = .waiting ∧ t.queue.producers () = .outside ∧ Monitor.Spent t.queue := by
  obtain ⟨here, outside, spent⟩ := kept
  cases a with
  | player =>
    simp only [step, if_pos outside, advance, here, spent.lowered] at taken
    cases taken
    exact ⟨here, outside, spent⟩
  | queue a =>
    obtain ⟨without, taken⟩ := Option.ite_none_right_eq_some.mp taken
    obtain ⟨queue, moved, rfl⟩ := Option.map_eq_some_iff.mp taken
    exact ⟨here, outside_kept without moved outside, Monitor.spent_kept (fun p => outside) without moved spent⟩

/-- The wait for the empty queue ends where the flag is raised or will be. -/
theorem waiting_ends (idle : Idle s) (waits : s.place = .waiting) (may : s.queue.queueEmpty = true ∨ s.queue.Busy) :
    ∃ t, (step w fails).Reaches (fun _ => True) s t ∧ t.place ≠ .waiting := by
  obtain ⟨queue, first, outside, raised⟩ : ∃ q, (Monitor.step fails).Reaches Monitor.Action.own s.queue q ∧
      q.producers () = .outside ∧ q.queueEmpty = true := by
    have outside := idle.outside (.inr waits)
    rcases may with raised | busy
    · exact ⟨s.queue, .refl s.queue, outside, raised⟩
    · obtain ⟨q, first, same, raised⟩ := Monitor.reaches_raised idle.again busy
      exact ⟨q, first, by rw [same, outside], raised⟩
  have taken : step w fails { s with queue := queue } .player = some { s with
      queue := queue
      playlists := []
      place := .reading true s.playlistTables } := by
    simp only [step, if_pos outside, advance, waits, raised, if_true]
  exact ⟨_, (reaches_queue first).trans (.single trivial taken), nofun⟩

/-- **The two waits.** Whenever the constructor waits for the tables, the monitor can end the wait. Whenever it
waits for the empty queue, the wait can end exactly if the flag is raised or the monitor has yet to write it. -/
theorem waits_end_iff {sessions : List Session} {actions : List Action}
    (plain : ∀ s ∈ sessions, ∀ r ∈ s.requests, r.Plain)
    (ran : execAll .empty (sessions.flatMap Session.texts) = some w.db)
    (reached : (step w fails).run initial actions = some s) :
    (s.place = .asking → ∃ t names, (step w fails).Reaches (fun _ => True) s t ∧ t.place = .reading false names) ∧
      (s.place = .waiting → ((∃ t, (step w fails).Reaches (fun _ => True) s t ∧ t.place ≠ .waiting) ↔
        s.queue.queueEmpty = true ∨ s.queue.Busy)) := by
  obtain ⟨after, steady⟩ := steady_of_lifetime plain ran
  have idle := idle_run reached
  refine ⟨asking_ends steady idle, fun waits => ⟨?_, waiting_ends idle waits⟩⟩
  rintro ⟨t, onwards, left⟩
  by_contra stuck
  obtain ⟨lowered, done⟩ := not_or.mp stuck
  have spent : Monitor.Spent s.queue := ⟨Bool.eq_false_iff.mpr lowered, done⟩
  exact left (onwards.preserved waiting_kept ⟨waits, idle.outside (.inr waits), spent⟩).1

/-- An empty library, and no file yet. -/
def firstLaunch : Launch where
  db := .empty
  scan := .stored
  files := Resume.library
  entries := []
  config := "db_catalog"
  isPlaying := false
  isPaused := false

/-- Up to the wait for the empty queue. -/
theorem asked_run : (step firstLaunch fun _ _ => false).run (atRest false [] .asking [] [] ⟨"", []⟩)
    [.player, .player, .player, .player, .player] =
      some (atRest false [] .waiting ["db_catalog"] [⟨"db_catalog", []⟩] ⟨"db_catalog", []⟩) := by
  have file {place : PlayerAt} {names : List Text} :
      firstLaunch.file (atRest false [] place names [] ⟨"", []⟩) = some (created 3) := by
    rw [file_at_rest, List.append_nil]
    exact exec_opening .empty 3
  have asks : step firstLaunch (fun _ _ => false) (atRest false [] .asking [] [] ⟨"", []⟩) .player = _ :=
    step_asking rfl rfl file (tables_created .stored 3 (by decide) (by decide)) (List.cons_ne_nil _ _)
  have reads : step firstLaunch (fun _ _ => false)
      (atRest false [] (.reading false ["db_catalog"]) ["db_catalog"] [] ⟨"", []⟩) .player = _ :=
    step_reading rfl rfl file (select_created .stored 3 (by decide) (by decide))
  exact Steps.run_cons_iff.mpr ⟨_, asks, Steps.run_cons_iff.mpr ⟨_, reads, rfl⟩⟩

theorem first_launch_hangs : ∃ s, (step firstLaunch fun _ _ => false).run initial
      (opens true ++ [.player, .player, .player, .player, .player]) = some s ∧ s.place = .waiting ∧
    ¬ ∃ t, (step firstLaunch fun _ _ => false).Reaches (fun _ => True) s t ∧ t.place ≠ .waiting := by
  have reached := Steps.run_append (opens_run firstLaunch true) asked_run
  have none_run : execAll .empty (([] : List Session).flatMap Session.texts) = some firstLaunch.db := rfl
  refine ⟨_, reached, rfl, fun ends => ?_⟩
  rcases ((waits_end_iff (List.forall_mem_nil _) none_run reached).2 rfl).mp ends with raised | waiting | writes
  · cases raised
  · exact waiting rfl
  · exact writes

end Waits

end Sws.Startup
