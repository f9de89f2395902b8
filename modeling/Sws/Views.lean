import Sws.Database.Naming
import Sws.Resume

/-! The three views of the playlists that the player keeps, and how they follow the database: the table
list is read once, the playlists are read from it, and scans of the library change the database, the
playlists and the catalog. -/
namespace Sws.Views

open Database Sql
open Player (Playlist named named_of_mem mem_of_named)
open Resume (populateFromDb populate populate_eq visited names_of_populate)
open Catalog (Holds paths pending inserted)

structure State where
  db : Db
  playlistTables : List Text
  playlists : List Playlist
  dbCatalog : Playlist

/-- A run of `player::populate`: the files at that moment, and the entries under the root. -/
structure Visit where
  files : Files
  entries : List Text

/-- The player as `player::populate` finds it, with nothing pushed yet. -/
def unscanned (s : State) : Catalog.State :=
  { db := s.db, queries := [], catalog := s.dbCatalog.tracks, playlists := s.playlists }

/-- A run of `player::populate`, with the queue drained afterwards. -/
def visit : Steps State Visit := fun s v => do
  let populated ← populate v.files v.entries (unscanned s)
  let db ← execAll s.db populated.queries
  return { s with
    db := db
    playlists := populated.playlists
    dbCatalog := { s.dbCatalog with tracks := populated.catalog } }

/-- The constructor of `player`, up to the watcher. While there are no tables it waits. -/
def construct (scan : Scan) (v : Visit) (db : Db) : Option State := do
  let playlistTables ← tables scan db
  if playlistTables = [] then none
  let playlists ← populateFromDb scan db playlistTables
  let dbCatalog ← named playlists "db_catalog"
  let s : State := { db, playlistTables, playlists, dbCatalog }
  if dbCatalog.tracks = [] then
    let s ← visit s v
    return { s with playlists := ← populateFromDb scan s.db playlistTables }
  return s

/-! ### Scans -/

/-- The entry is a playlist file. -/
def Lists (files : Files) (path : Text) : Prop := files.regular path = some true ∧ Files.isPlaylistFile path

/-- The entry is an audio file. -/
def Accepts (files : Files) (path : Text) : Prop :=
  files.regular path = some true ∧ ¬ Files.isPlaylistFile path ∧ files.isAudioFile path = some true

/-- The playlist of a file. -/
def playlistOf (files : Files) (path : Text) : Playlist := (files.playlistOf path).1

/-- The calls of a scan. -/
def pushed (files : Files) : Catalog.State → List Text → List Call
  | _, [] => []
  | s, path :: rest =>
    let (t, calls) := Catalog.entered files s path
    calls ++ pushed files (Catalog.push t calls) rest

section Scans

variable {files : Files} {entries : List Text} {s : Catalog.State} {path : Text}

theorem visited_cons : visited files (path :: entries) s =
    visited files entries (Catalog.push (Catalog.entered files s path).1 (Catalog.entered files s path).2) := rfl

theorem pushed_cons : pushed files s (path :: entries) = (Catalog.entered files s path).2 ++
    pushed files (Catalog.push (Catalog.entered files s path).1 (Catalog.entered files s path).2) entries := rfl

theorem queries_visited : (visited files entries s).queries =
    s.queries ++ (pushed files s entries).flatMap Call.texts := by
  induction entries generalizing s with
  | nil => simp [visited, pushed]
  | cons path entries ih =>
    rw [visited_cons, ih, pushed_cons, Catalog.push, (Catalog.entered_same files s path).2,
      List.flatMap_append, List.append_assoc]

/-- An entry adds the playlist of its file, if there is none of its name. -/
theorem playlists_entered (n : Text) : n ∈ (Catalog.entered files s path).1.playlists.map (·.name) ↔
    n ∈ s.playlists.map (·.name) ∨ (Lists files path ∧ (playlistOf files path).name = n) := by
  unfold Catalog.entered
  by_cases lists : Lists files path
  · rw [if_pos lists.1, if_pos lists.2]
    by_cases there : s.playlists.any fun p => p.name = (playlistOf files path).name
    · have member : (playlistOf files path).name ∈ s.playlists.map (·.name) := by simpa using there
      have same : (files.playlistOf path).1 = playlistOf files path := rfl
      simp only [same, there, ↓reduceIte]
      refine (or_iff_left_of_imp ?_).symm
      rintro ⟨-, rfl⟩
      exact member
    · have same : (files.playlistOf path).1 = playlistOf files path := rfl
      simp only [same, there, Bool.false_eq_true, ↓reduceIte, List.map_append, List.mem_append,
        List.map_cons, List.map_nil, List.mem_singleton, lists, true_and, eq_comm]
  · have other : ¬ (files.regular path = some true ∧ Files.isPlaylistFile path = true) := lists
    simp only [lists, false_and, or_false]
    split_ifs with regular playlist there new
    · exact absurd ⟨regular, playlist⟩ other
    · exact absurd ⟨regular, playlist⟩ other
    · rfl
    · rfl
    · rfl

theorem playlists_visited (n : Text) : n ∈ (visited files entries s).playlists.map (·.name) ↔
    n ∈ s.playlists.map (·.name) ∨ ∃ path ∈ entries, Lists files path ∧ (playlistOf files path).name = n := by
  induction entries generalizing s with
  | nil => simp [visited]
  | cons path entries ih =>
    rw [visited_cons, ih, List.exists_mem_cons_iff, ← or_assoc]
    exact or_congr_left (playlists_entered n)

/-- An entry adds the path of an audio file to the catalog. -/
theorem catalog_entered (q : Text) : q ∈ (Catalog.entered files s path).1.catalog ↔
    q ∈ s.catalog ∨ (Accepts files path ∧ path = q) := by
  unfold Catalog.entered
  by_cases accepts : Accepts files path
  · obtain ⟨regular, other, audio⟩ := accepts
    rw [if_pos regular, if_neg other]
    by_cases held : path ∈ s.catalog
    · rw [if_neg fun new => new.2 held]
      refine (or_iff_left_of_imp ?_).symm
      rintro ⟨-, rfl⟩
      exact held
    · rw [if_pos ⟨audio, held⟩, List.mem_append, List.mem_singleton, eq_comm]
      exact or_congr_right (and_iff_right ⟨regular, other, audio⟩).symm
  · simp only [accepts, false_and, or_false]
    split_ifs with regular playlist there new
    · rfl
    · rfl
    · exact absurd ⟨regular, playlist, new.1⟩ accepts
    · rfl
    · rfl

theorem catalog_visited (q : Text) : q ∈ (visited files entries s).catalog ↔
    q ∈ s.catalog ∨ (q ∈ entries ∧ Accepts files q) := by
  induction entries generalizing s with
  | nil => simp [visited]
  | cons path entries ih =>
    have entry : q ∈ (Catalog.push (Catalog.entered files s path).1 (Catalog.entered files s path).2).catalog ↔
        q ∈ s.catalog ∨ (Accepts files path ∧ path = q) := catalog_entered q
    rw [visited_cons, ih, entry, List.mem_cons, or_and_right, ← or_assoc]
    refine or_congr_left (or_congr_right ?_)
    constructor
    · rintro ⟨accepts, rfl⟩
      exact ⟨rfl, accepts⟩
    · rintro ⟨rfl, accepts⟩
      exact ⟨accepts, rfl⟩

/-- The calls for an entry. -/
theorem calls_entered {c : Call} (held : c ∈ (Catalog.entered files s path).2) :
    (Lists files path ∧ c = .addToPlaylist (playlistOf files path).name (playlistOf files path).tracks) ∨
      (∃ name source, c = .insertPlaylist name source) ∨
      (Accepts files path ∧ path ∉ s.catalog ∧ c = .insertPath path) := by
  have imports (lists : Lists files path) (own : c ∈ (files.playlistOf path).2) :
      (Lists files path ∧ c = .addToPlaylist (playlistOf files path).name (playlistOf files path).tracks) ∨
        (∃ name source, c = .insertPlaylist name source) := by
    unfold playlistOf
    unfold Files.playlistOf at own ⊢
    split at own
    next there =>
      rw [if_pos there]
      rcases List.mem_pair.mp own with rfl | rfl
      · exact .inl ⟨lists, rfl⟩
      · exact .inr ⟨_, _, rfl⟩
    next => cases own
  unfold Catalog.entered at held
  split_ifs at held with regular playlist new
  · have lists : Lists files path := ⟨regular, playlist⟩
    dsimp only at held
    split at held
    · rcases List.mem_append.mp held with own | again
      · exact (imports lists own).imp_right .inl
      · exact .inl ⟨lists, List.mem_singleton.mp again⟩
    · exact (imports lists held).imp_right .inl
  · exact .inr (.inr ⟨⟨regular, playlist, new.1⟩, new.2, List.mem_singleton.mp held⟩)
  · cases held
  · cases held

/-- A playlist file with tracks has them added. -/
theorem adds_entered (lists : Lists files path) (some_ : (playlistOf files path).tracks ≠ []) :
    .addToPlaylist (playlistOf files path).name (playlistOf files path).tracks ∈
      (Catalog.entered files s path).2 := by
  have own : .addToPlaylist (playlistOf files path).name (playlistOf files path).tracks ∈
      (files.playlistOf path).2 := by
    unfold playlistOf at some_ ⊢
    unfold Files.playlistOf at some_ ⊢
    split at some_
    next there =>
      rw [if_pos there]
      exact List.mem_cons_self
    next => exact absurd rfl some_
  unfold Catalog.entered
  rw [if_pos lists.1, if_pos lists.2]
  dsimp only
  split
  · exact List.mem_append_left _ own
  · exact own

/-- A new audio file has its path inserted. -/
theorem inserts_entered (accepts : Accepts files path) (new : path ∉ s.catalog) :
    .insertPath path ∈ (Catalog.entered files s path).2 := by
  obtain ⟨regular, other, audio⟩ := accepts
  unfold Catalog.entered
  rw [if_pos regular, if_neg other, if_pos ⟨audio, new⟩]
  exact List.mem_cons_self

/-- The calls of a scan. -/
theorem calls_pushed {c : Call} (held : c ∈ pushed files s entries) :
    (∃ path ∈ entries, Lists files path ∧
      c = .addToPlaylist (playlistOf files path).name (playlistOf files path).tracks) ∨
      (∃ name source, c = .insertPlaylist name source) ∨
      (∃ path ∈ entries, Accepts files path ∧ path ∉ s.catalog ∧ c = .insertPath path) := by
  induction entries generalizing s with
  | nil => cases held
  | cons path entries ih =>
    rw [pushed_cons] at held
    rcases List.mem_append.mp held with now | later
    · rcases calls_entered now with ⟨lists, same⟩ | registers | ⟨accepts, new, same⟩
      · exact .inl ⟨path, List.mem_cons_self, lists, same⟩
      · exact .inr (.inl registers)
      · exact .inr (.inr ⟨path, List.mem_cons_self, accepts, new, same⟩)
    · rcases ih later with ⟨p, member, lists, same⟩ | registers | ⟨p, member, accepts, new, same⟩
      · exact .inl ⟨p, List.mem_cons_of_mem _ member, lists, same⟩
      · exact .inr (.inl registers)
      · have kept : p ∉ s.catalog := fun old => new ((catalog_entered p).mpr (.inl old))
        exact .inr (.inr ⟨p, List.mem_cons_of_mem _ member, accepts, kept, same⟩)

theorem adds_pushed (member : path ∈ entries) (lists : Lists files path)
    (some_ : (playlistOf files path).tracks ≠ []) :
    .addToPlaylist (playlistOf files path).name (playlistOf files path).tracks ∈ pushed files s entries := by
  induction entries generalizing s with
  | nil => cases member
  | cons first entries ih =>
    rw [pushed_cons]
    apply List.mem_append.mpr
    rcases List.mem_cons.mp member with rfl | rest
    · exact .inl (adds_entered lists some_)
    · exact .inr (ih rest)

theorem inserts_pushed (member : path ∈ entries) (accepts : Accepts files path) (new : path ∉ s.catalog) :
    .insertPath path ∈ pushed files s entries := by
  induction entries generalizing s with
  | nil => cases member
  | cons first entries ih =>
    rw [pushed_cons]
    apply List.mem_append.mpr
    rcases List.mem_cons.mp member with rfl | rest
    · exact .inl (inserts_entered accepts new)
    · by_cases same : first = path
      · subst same
        exact .inl (inserts_entered accepts new)
      · refine .inr (ih rest fun held => ?_)
        rcases (catalog_entered path).mp held with old | ⟨-, eq⟩
        · exact new old
        · exact same eq

end Scans

/-! ### Statements of a scan -/

/-- No name of a playlist file with tracks closes the brackets that it is put in. -/
def Visit.Unclosed (v : Visit) : Prop :=
  ∀ path ∈ v.entries, Lists v.files path → (playlistOf v.files path).tracks ≠ [] →
    ']' ∉ (playlistOf v.files path).name

/-- A playlist file of the scan declares a table that `tables` would list as a new one. -/
def Visit.Introduces (v : Visit) (db : Db) : Prop :=
  ∃ path ∈ v.entries, Lists v.files path ∧ (playlistOf v.files path).tracks ≠ [] ∧
    nul ∉ (playlistOf v.files path).name ∧ Opens db (playlistOf v.files path).name

section Statements

variable {s : Catalog.State} {v : Visit} {db after : Db} {held : List Value}

theorem plain_pushed (unclosed : v.Unclosed) : ∀ c ∈ pushed v.files s v.entries, c.Plain := by
  intro c held
  rcases calls_pushed held with ⟨path, member, lists, rfl⟩ | ⟨name, source, rfl⟩ | ⟨path, -, -, -, rfl⟩
  · exact unclosed path member lists
  · trivial
  · trivial

/-- Whatever a scan pushes can be executed, and adds to the catalog the paths it inserts. -/
theorem holds_exec_all {texts : List Text} (known : ∀ q ∈ texts, ∃ stmt, Denotes q stmt ∧ Known stmt)
    (shaped : Shaped db) (holds : Holds db held) :
    ∃ after, execAll db texts = some after ∧ Holds after (held ++ (pending texts).map Value.text) := by
  induction texts generalizing db held with
  | nil => exact ⟨db, rfl, by simpa [pending] using holds⟩
  | cons q rest ih =>
    obtain ⟨⟨stmt, denotes, kind⟩, others⟩ := List.forall_mem_cons.mp known
    obtain ⟨t, found, declared, rfl⟩ := holds
    obtain ⟨middle, ok, ran, shaped', holds'⟩ := Catalog.exec_adds denotes kind shaped found declared
    obtain ⟨after, onwards, last⟩ := ih others shaped' holds'
    have counted : pending (q :: rest) = (inserted q).toList ++ pending rest := by
      cases read : inserted q <;> simp [pending, read]
    refine ⟨after, exec_all_cons ran onwards, ?_⟩
    rw [counted, List.map_append, ← List.append_assoc]
    exact last

/-- A scan keeps the list of tables, unless one of its playlists has a new one. -/
theorem shown_scan (unclosed : v.Unclosed)
    (ran : execAll db ((pushed v.files s v.entries).flatMap Call.texts) = some after) :
    (∀ n, n ∈ shownTables after ↔ n ∈ shownTables db) ↔ ¬ v.Introduces db := by
  have plain := plain_pushed (s := s) unclosed
  rw [shown_exec_all (known_texts plain) ran]
  constructor
  · rintro quiet ⟨path, member, lists, some_, clean, opens⟩
    have held := adds_pushed (s := s) member lists some_
    obtain ⟨q, inside, read⟩ := (created_texts (plain _ held)).mpr ⟨_, rfl, some_, clean⟩
    exact quiet q (List.mem_flatMap.mpr ⟨_, held, inside⟩) _ read opens
  · intro none q member n read opens
    obtain ⟨c, held, inside⟩ := List.mem_flatMap.mp member
    obtain ⟨paths, rfl, some_, clean⟩ := (created_texts (plain c held)).mp ⟨q, inside, read⟩
    rcases calls_pushed held with ⟨path, entry, lists, same⟩ | ⟨name, source, other⟩ | ⟨path, -, -, -, other⟩
    · obtain ⟨rfl, rfl⟩ := Call.addToPlaylist.inj same
      exact none ⟨path, entry, lists, some_, clean, opens⟩
    · cases other
    · cases other

end Statements

/-! ### Agreement -/

/-- The three views name the same playlists. -/
structure Agree (s : State) : Prop where
  playlists : ∀ n, n ∈ s.playlists.map (·.name) ↔ n ∈ s.playlistTables
  tables : ∀ scan, ∃ names, tables scan s.db = some names ∧ ∀ n, n ∈ names ↔ n ∈ s.playlistTables

/-- A property of the player after each of the scans. -/
def Throughout (P : State → Prop) (s : State) (visits : List Visit) : Prop :=
  ∀ done rest t, visits = done ++ rest → visit.run s done = some t → P t

section Agreement

variable {P : State → Prop} {s t : State} {v : Visit} {visits : List Visit} {scan : Scan} {db : Db}

theorem throughout_nil : Throughout P s [] ↔ P s := by
  constructor
  · intro all
    exact all [] [] s rfl rfl
  · rintro holds done rest t same ran
    obtain ⟨rfl, rfl⟩ := List.nil_eq_append_iff.mp same
    cases ran
    exact holds

theorem throughout_cons (taken : visit s v = some t) :
    Throughout P s (v :: visits) ↔ P s ∧ Throughout P t visits := by
  constructor
  · intro all
    refine ⟨all [] (v :: visits) s rfl rfl, fun done rest u same ran => ?_⟩
    exact all (v :: done) rest u (by rw [same, List.cons_append]) (Steps.run_cons_iff.mpr ⟨t, taken, ran⟩)
  · rintro ⟨now, later⟩ done rest u same ran
    rcases List.cons_eq_append_iff.mp same with ⟨rfl, rfl⟩ | ⟨done, rfl, tail⟩
    · cases ran
      exact now
    · obtain ⟨middle, first, onwards⟩ := Steps.run_cons_iff.mp ran
      cases taken.symm.trans first
      exact later done rest u tail onwards

theorem agree_iff : Agree s ↔
    (∀ n, n ∈ s.playlists.map (·.name) ↔ n ∈ s.playlistTables) ∧
      ∀ n, n ∈ shownTables s.db ↔ n ∈ s.playlistTables := by
  constructor
  · rintro ⟨playlists, tables⟩
    obtain ⟨names, listed, perm⟩ := tables_perm .stored s.db
    obtain ⟨names', listed', same⟩ := tables .stored
    cases listed.symm.trans listed'
    exact ⟨playlists, fun n => perm.mem_iff.symm.trans (same n)⟩
  · rintro ⟨playlists, shown⟩
    refine ⟨playlists, fun scan => ?_⟩
    obtain ⟨names, listed, perm⟩ := tables_perm scan s.db
    exact ⟨names, listed, fun n => perm.mem_iff.trans (shown n)⟩

/-- A scan, taken apart. -/
theorem visit_eq_some (taken : visit s v = some t) :
    t.playlistTables = s.playlistTables ∧ t.playlists = (visited v.files v.entries (unscanned s)).playlists ∧
      t.dbCatalog.tracks = (visited v.files v.entries (unscanned s)).catalog ∧
      ∃ c : Catalog.State, c.catalog = s.dbCatalog.tracks ∧
        execAll s.db ((pushed v.files c v.entries).flatMap Call.texts) = some t.db := by
  simp only [visit, populate_eq, Option.bind_eq_bind, Option.bind_eq_some_iff, Option.pure_def,
    Option.ite_none_right_eq_some, Option.some.injEq] at taken
  obtain ⟨-, ⟨-, rfl⟩, after, ran, rfl⟩ := taken
  rw [queries_visited] at ran
  exact ⟨rfl, rfl, rfl, _, rfl, ran⟩

/-- **One scan.** Views that agree still do exactly when every playlist file is of a playlist there is. -/
theorem agree_visit (unclosed : v.Unclosed) (agree : Agree s) (taken : visit s v = some t) :
    Agree t ↔ ∀ path ∈ v.entries, Lists v.files path → (playlistOf v.files path).name ∈ shownTables s.db := by
  obtain ⟨playlists, shown⟩ := agree_iff.mp agree
  obtain ⟨tables, after, -, c, -, ran⟩ := visit_eq_some taken
  have names (n : Text) : n ∈ t.playlists.map (·.name) ↔ n ∈ s.playlistTables ∨
      ∃ path ∈ v.entries, Lists v.files path ∧ (playlistOf v.files path).name = n := by
    rw [after, ← playlists n]
    exact playlists_visited n
  rw [agree_iff, tables]
  constructor
  · rintro ⟨same, -⟩ path member lists
    rw [shown]
    exact (same _).mp ((names _).mpr (.inr ⟨path, member, lists, rfl⟩))
  · intro known
    refine ⟨fun n => ?_, fun n => ?_⟩
    · rw [names]
      refine or_iff_left_of_imp ?_
      rintro ⟨path, member, lists, rfl⟩
      exact (shown _).mp (known path member lists)
    · have quiet : ¬ v.Introduces s.db := by
        rintro ⟨path, member, lists, -, -, opens⟩
        have there := lookup_of_shown (known path member lists)
        rw [opens.free] at there
        cases there
      exact ((shown_scan unclosed ran).mpr quiet n).trans (shown n)

/-- A scan between two states that agree lists no other tables. -/
theorem shown_visit (agree : Agree s) (now : Agree t) (taken : visit s v = some t) (n : Text) :
    n ∈ shownTables t.db ↔ n ∈ shownTables s.db := by
  rw [(agree_iff.mp now).2, (agree_iff.mp agree).2, (visit_eq_some taken).1]

theorem agree_throughout (unclosed : ∀ v ∈ visits, v.Unclosed) (agree : Agree s)
    (ran : visit.run s visits = some t) :
    Throughout Agree s visits ↔ ∀ v ∈ visits, ∀ path ∈ v.entries, Lists v.files path →
      (playlistOf v.files path).name ∈ shownTables s.db := by
  induction visits generalizing s with
  | nil => simp [throughout_nil, agree]
  | cons v visits ih =>
    obtain ⟨middle, taken, rest⟩ := Steps.run_cons_iff.mp ran
    obtain ⟨first, others⟩ := List.forall_mem_cons.mp unclosed
    have step := agree_visit first agree taken
    rw [throughout_cons taken, List.forall_mem_cons, and_iff_right agree, ← step]
    constructor
    · intro all
      have now : Agree middle := all [] visits middle rfl rfl
      simp only [← shown_visit agree now taken]
      exact ⟨now, (ih others now rest).mp all⟩
    · rintro ⟨now, later⟩
      simp only [← shown_visit agree now taken] at later
      exact (ih others now rest).mpr later

/-- The constructor, taken apart. -/
theorem construct_eq_some (constructed : construct scan v db = some s) :
    ∃ names playlists p, tables scan db = some names ∧ populateFromDb scan db names = some playlists ∧
      named playlists "db_catalog" = some p ∧
      ((p.tracks ≠ [] ∧ s = ⟨db, names, playlists, p⟩) ∨
        (p.tracks = [] ∧ ∃ t again, visit ⟨db, names, playlists, p⟩ v = some t ∧
          populateFromDb scan t.db names = some again ∧ s = { t with playlists := again })) := by
  unfold construct at constructed
  obtain ⟨names, listed, constructed⟩ := Option.bind_eq_some_iff.mp constructed
  dsimp only at constructed
  split at constructed
  · cases constructed
  · obtain ⟨playlists, read, constructed⟩ := Option.bind_eq_some_iff.mp constructed
    obtain ⟨p, found, constructed⟩ := Option.bind_eq_some_iff.mp constructed
    refine ⟨names, playlists, p, listed, read, found, ?_⟩
    split at constructed
    next none =>
      obtain ⟨t, taken, constructed⟩ := Option.bind_eq_some_iff.mp constructed
      obtain ⟨again, reread, done⟩ := Option.bind_eq_some_iff.mp constructed
      cases done
      exact .inr ⟨none, t, again, taken, reread, rfl⟩
    next some_ =>
      cases constructed
      exact .inl ⟨some_, rfl⟩

/-- The database holds no path of the catalog, and so the constructor scans the library. -/
def Blank (scan : Scan) (db : Db) : Prop :=
  ∃ names playlists p, tables scan db = some names ∧ populateFromDb scan db names = some playlists ∧
    named playlists "db_catalog" = some p ∧ p.tracks = []

theorem blank_iff {names : List Text} {playlists : List Playlist} {p : Playlist}
    (listed : tables scan db = some names) (read : populateFromDb scan db names = some playlists)
    (found : named playlists "db_catalog" = some p) : Blank scan db ↔ p.tracks = [] := by
  constructor
  · rintro ⟨names', playlists', p', listed', read', found', none⟩
    cases listed.symm.trans listed'
    cases read.symm.trans read'
    cases found.symm.trans found'
    exact none
  · intro none
    exact ⟨names, playlists, p, listed, read, found, none⟩

theorem mem_names {names : List Text} {n : Text} (listed : tables scan db = some names) :
    n ∈ names ↔ n ∈ shownTables db := by
  obtain ⟨names', listed', perm⟩ := tables_perm scan db
  cases listed.symm.trans listed'
  exact perm.mem_iff

theorem tables_construct (constructed : construct scan v db = some s) (n : Text) :
    n ∈ s.playlistTables ↔ n ∈ shownTables db := by
  obtain ⟨names, playlists, p, listed, -, -, ⟨-, rfl⟩ | ⟨-, t, again, taken, -, rfl⟩⟩ :=
    construct_eq_some constructed
  · exact mem_names listed
  · have same : t.playlistTables = names := (visit_eq_some taken).1
    rw [← mem_names listed, ← same]

/-- **Construction.** The views agree unless a first scan introduces a table. -/
theorem agree_construct (unclosed : v.Unclosed) (constructed : construct scan v db = some s) :
    Agree s ↔ (Blank scan db → ¬ v.Introduces db) := by
  obtain ⟨names, playlists, p, listed, read, found, ⟨some_, rfl⟩ | ⟨none, t, again, taken, reread, rfl⟩⟩ :=
    construct_eq_some constructed
  · have full : ¬ Blank scan db := mt (blank_iff listed read found).mp some_
    have agree : Agree ⟨db, names, playlists, p⟩ := by
      refine agree_iff.mpr ⟨fun n => ?_, fun n => (mem_names listed).symm⟩
      rw [names_of_populate read]
    exact iff_of_true agree fun blank => absurd blank full
  · have blank : Blank scan db := (blank_iff listed read found).mpr none
    obtain ⟨same, -, -, c, -, ran⟩ := visit_eq_some taken
    rw [agree_iff, imp_iff_right blank, ← shown_scan unclosed ran]
    have own : ∀ n, n ∈ again.map (·.name) ↔ n ∈ t.playlistTables := by
      intro n
      rw [names_of_populate reread, same]
    constructor
    · rintro ⟨-, shown⟩ n
      exact (shown n).trans (by rw [same]; exact mem_names listed)
    · intro shown
      exact ⟨own, fun n => (shown n).trans (by rw [same]; exact (mem_names listed).symm)⟩

/-- **When the three views of the playlists agree.** After the construction of the player and each of the
scans that follow, the tables listed at first, the playlists and the tables there are name the same set
exactly when a first scan introduces no table, and no later scan finds a file of a playlist that had no
table at first. -/
theorem views_agree_iff (unclosed : ∀ w ∈ v :: visits, w.Unclosed)
    (constructed : construct scan v db = some s) (ran : visit.run s visits = some t) :
    Throughout Agree s visits ↔ (Blank scan db → ¬ v.Introduces db) ∧
      ∀ w ∈ visits, ∀ path ∈ w.entries, Lists w.files path →
        (playlistOf w.files path).name ∈ shownTables db := by
  obtain ⟨first, later⟩ := List.forall_mem_cons.mp unclosed
  rw [← agree_construct first constructed]
  have shown (agree : Agree s) (n : Text) : n ∈ shownTables s.db ↔ n ∈ shownTables db :=
    ((agree_iff.mp agree).2 n).trans (tables_construct constructed n)
  constructor
  · intro all
    have agree : Agree s := all [] visits s rfl rfl
    have known := (agree_throughout later agree ran).mp all
    simp only [shown agree] at known
    exact ⟨agree, known⟩
  · rintro ⟨agree, known⟩
    simp only [← shown agree] at known
    exact (agree_throughout later agree ran).mpr known

end Agreement

/-! ### Two tracks in the catalog -/

/-- The player constructed from a database with two tracks. -/
def constructed : State where
  db := Resume.stored
  playlistTables := ["db_catalog"]
  playlists := Resume.listed
  dbCatalog := ⟨"db_catalog", ["a.mp3", "b.mp3"]⟩

theorem construct_stored : construct .stored ⟨Resume.library, []⟩ Resume.stored = some constructed := by
  have found : named Resume.listed "db_catalog" = some ⟨"db_catalog", ["a.mp3", "b.mp3"]⟩ := rfl
  simp only [construct, Resume.tables_stored, Resume.populate_stored, found, Option.bind_eq_bind,
    Option.bind_some]
  rfl

theorem shaped_stored : Shaped Resume.stored := by
  intro t held
  rcases List.mem_pair.mp held with rfl | rfl
  · exact ⟨_, Resume.declared_catalog⟩
  · exact ⟨_, Resume.declared_register⟩

theorem visit_constructed {v : Visit} (completes : v.files.Completes v.entries) (unclosed : v.Unclosed) :
    ∃ t, visit constructed v = some t := by
  have holds : Holds Resume.stored (paths Resume.catalog) :=
    ⟨_, Resume.lookup_catalog, Resume.declared_catalog, rfl⟩
  obtain ⟨after, ran, -⟩ := holds_exec_all (known_texts (plain_pushed unclosed)) shaped_stored holds
  have executed : execAll constructed.db (visited v.files v.entries (unscanned constructed)).queries =
      some after := by
    rw [queries_visited]
    exact ran
  rw [visit, populate_eq, if_pos completes, Option.bind_eq_bind, Option.bind_some, executed]
  exact ⟨_, rfl⟩

theorem new_track_agrees : Throughout Agree constructed [⟨Resume.library, ["c.mp3"]⟩] := by
  have other : ¬ Lists Resume.library "c.mp3" := fun lists => by cases lists.2
  have unclosed : (⟨Resume.library, ["c.mp3"]⟩ : Visit).Unclosed := by
    intro path entry lists
    cases List.mem_singleton.mp entry
    exact absurd lists other
  obtain ⟨t, taken⟩ := visit_constructed (by decide) unclosed
  refine (views_agree_iff ?_ construct_stored (Steps.run_cons_iff.mpr ⟨t, taken, rfl⟩)).mpr ⟨?_, ?_⟩
  · intro w member
    rcases List.mem_pair.mp member with rfl | rfl
    · rintro path ⟨⟩
    · exact unclosed
  · rintro - ⟨path, ⟨⟩, -⟩
  · intro w member path entry lists
    cases List.mem_singleton.mp member
    cases List.mem_singleton.mp entry
    exact absurd lists other

/-- A playlist file that appears after construction. -/
theorem new_playlist_not_listed : ¬ ∀ (scan : Scan) (v : Visit) (db : Db) (s t : State) (visits : List Visit),
    construct scan v db = some s → visit.run s visits = some t → Agree t := by
  intro all
  have unclosed : (⟨Resume.library, ["/Rock.m3u"]⟩ : Visit).Unclosed := by
    intro path entry lists some_
    cases List.mem_singleton.mp entry
    exact absurd rfl some_
  obtain ⟨t, taken⟩ := visit_constructed (by decide) unclosed
  have before : Agree constructed := all _ _ _ _ _ [] construct_stored rfl
  have after : Agree t := all _ _ _ _ _ [_] construct_stored (Steps.run_cons_iff.mpr ⟨t, taken, rfl⟩)
  have listed := (agree_visit unclosed before taken).mp after "/Rock.m3u" List.mem_cons_self ⟨rfl, by decide⟩
  exact absurd listed (by decide)

end Sws.Views
