import Sws.Views

/-! The catalog as a member of the player, and as one of its playlists. Scans add to the member and to
the table; the playlist is a copy from construction. -/
namespace Sws.Views

open Database Sql
open Player (Playlist named named_of_mem)
open Resume (populateFromDb visited names_of_populate named_append)
open Catalog (Holds paths catalogPaths pending inserted inserted_eq)

/-- The playlist that `named("db_catalog")` returns holds every path of the member. -/
def Covered (s : State) : Prop :=
  ∃ p, named s.playlists "db_catalog" = some p ∧ ∀ q ∈ s.dbCatalog.tracks, q ∈ p.tracks

/-- A database of the program, with its catalog. -/
structure Opened (db : Db) : Prop where
  shaped : Shaped db
  catalog : ∃ t, db.lookup "db_catalog" = some t ∧ t.name = text "db_catalog" ∧ Declared .catalog t

/-- The catalog of the database has a row for the path. -/
def Recorded (db : Db) (path : Text) : Prop := ∃ x ∈ catalogPaths db, columnText x = some path

/-! ### Reading the catalog -/

section Reading

variable {scan : Scan} {db after : Db} {t : Table} {playlists : List Playlist} {p : Playlist}

/-- The tracks of a playlist are what `select_playlist` returned. -/
theorem select_of_populate {names : List Text} (read : populateFromDb scan db names = some playlists)
    (held : p ∈ playlists) : selectPlaylist scan db p.name = some p.tracks := by
  obtain ⟨name, -, found⟩ := (mem_of_read read p).mp held
  obtain ⟨tracks, selected, rfl⟩ := Option.map_eq_some_iff.mp found
  exact selected

/-- `select_playlist` reads the paths of the catalog. -/
theorem mem_select_catalog {tracks : List Text} (found : db.lookup "db_catalog" = some t)
    (declared : Declared .catalog t) (read : selectPlaylist scan db "db_catalog" = some tracks) (q : Text) :
    q ∈ tracks ↔ Recorded db q := by
  have known : (t.index? "path").isSome := by
    obtain ⟨_, columns, key, rows⟩ := t
    cases declared.columns
    rfl
  rw [select_playlist_eq scan found known (by decide) (by decide) (by decide)] at read
  have cell (r : Row) : ([t.cell r "path"] : Row).head?.bind columnText = columnText (t.cell r "path") := rfl
  rw [mem_of_read read, Recorded, Catalog.catalog_paths_of_lookup found, paths]
  simp only [List.mem_eraseDups, List.mem_map, exists_exists_and_eq_and, Scan.mem_rows, cell]

/-- Where the paths are texts, it finds them. -/
theorem select_catalog {held : List Text} (scan : Scan) (holds : Holds db (held.map Value.text)) :
    ∃ paths, selectPlaylist scan db "db_catalog" = some paths ∧ ∀ q, q ∈ paths ↔ q ∈ held := by
  obtain ⟨t, found, declared, same⟩ := holds
  have known : (t.index? "path").isSome := by
    obtain ⟨_, columns, key, rows⟩ := t
    cases declared.columns
    rfl
  have texts (r : Row) (member : r ∈ ((scan.rows (.select true ["path"] "db_catalog" []) t).map
      fun r => [t.cell r "path"]).eraseDups) : ∃ path, r = [.text path] := by
    simp only [List.mem_eraseDups, List.mem_map, Scan.mem_rows] at member
    obtain ⟨r, stored, rfl⟩ := member
    have cell : t.cell r "path" ∈ held.map Value.text := same ▸ List.mem_map_of_mem stored
    obtain ⟨path, -, own⟩ := List.mem_map.mp cell
    exact ⟨path, by rw [own]⟩
  obtain ⟨paths, shape⟩ := path_rows_of_texts texts
  have read : selectPlaylist scan db "db_catalog" = some paths := by
    rw [select_playlist_eq scan found known (by decide) (by decide) (by decide)]
    exact (congrArg (fun rows => firstColumn (.ok rows)) shape).trans (first_column_rows paths)
  refine ⟨paths, read, fun q => ?_⟩
  rw [mem_select_catalog found declared read, Recorded, Catalog.catalog_paths_of_lookup found, same]
  simp [columnText]

end Reading

/-! ### Rows of a scan -/

section Rows

variable {db : Db} {v : Visit} {c : Catalog.State} {held : List Value} {q : Text}

/-- Of the calls of a scan, only `insert_path` inserts a path. -/
theorem inserted_texts {call : Call} (plain : call.Plain) (other : ∀ song, call ≠ .insertTrack song) :
    (∃ text ∈ call.texts, inserted text = some q) ↔ call = .insertPath q ∧ nul ∉ q := by
  constructor
  · rintro ⟨text, inside, read⟩
    obtain ⟨stmt, listed, denotes⟩ := Call.text_denotes plain text inside
    rw [inserted_eq denotes] at read
    split at read
    · cases read
    next whole =>
      cases call with
      | insertPath path =>
        cases List.mem_singleton.mp listed
        cases read
        cases List.mem_singleton.mp inside
        exact ⟨rfl, mt nul_mem_insert_path.mpr whole⟩
      | insertTrack song => exact absurd rfl (other song)
      | addToPlaylist name paths =>
        cases paths with
        | nil => cases listed
        | cons path paths => rcases List.mem_pair.mp listed with rfl | rfl <;> cases read
      | updateDuration | insertPlaylist | setPlaylistCurrent =>
        cases List.mem_singleton.mp listed
        cases read
  · rintro ⟨rfl, clean⟩
    refine ⟨_, List.mem_singleton_self _, ?_⟩
    rw [inserted_eq (insert_path_denotes q), if_neg (mt nul_mem_insert_path.mp clean)]
    rfl

/-- The paths that a scan inserts are those it adds to the member. -/
theorem pending_pushed (unclosed : v.Unclosed) (clean : ∀ path ∈ v.entries, nul ∉ path) (q : Text) :
    q ∈ pending ((pushed v.files c v.entries).flatMap Call.texts) ↔
      q ∈ v.entries ∧ Accepts v.files q ∧ q ∉ c.catalog := by
  have plain := plain_pushed (s := c) unclosed
  have other {call : Call} (held : call ∈ pushed v.files c v.entries) : ∀ song, call ≠ .insertTrack song := by
    rintro song rfl
    rcases calls_pushed held with ⟨_, _, _, same⟩ | ⟨_, _, same⟩ | ⟨_, _, _, _, same⟩ <;> cases same
  rw [pending, List.mem_filterMap]
  constructor
  · rintro ⟨text, member, read⟩
    obtain ⟨call, held, inside⟩ := List.mem_flatMap.mp member
    obtain ⟨rfl, -⟩ := (inserted_texts (plain call held) (other held)).mp ⟨text, inside, read⟩
    rcases calls_pushed held with ⟨_, _, _, same⟩ | ⟨_, _, same⟩ | ⟨path, entry, accepts, new, same⟩
    · cases same
    · cases same
    · cases same
      exact ⟨entry, accepts, new⟩
  · rintro ⟨entry, accepts, new⟩
    have held := inserts_pushed (s := c) entry accepts new
    obtain ⟨text, inside, read⟩ := (inserted_texts (plain _ held) (other held)).mpr ⟨rfl, clean q entry⟩
    exact ⟨text, List.mem_flatMap.mpr ⟨_, held, inside⟩, read⟩

/-- The statements of a scan, executed: the rows of the catalog are those there were and those of the new
tracks. -/
theorem recorded_scan {after : Db} (opened : Opened db) (unclosed : v.Unclosed)
    (clean : ∀ path ∈ v.entries, nul ∉ path)
    (ran : execAll db ((pushed v.files c v.entries).flatMap Call.texts) = some after) :
    ∃ t, after.lookup "db_catalog" = some t ∧ Declared .catalog t ∧
      ∀ q, Recorded after q ↔ Recorded db q ∨ (q ∈ v.entries ∧ Accepts v.files q ∧ q ∉ c.catalog) := by
  obtain ⟨t, found, -, declared⟩ := opened.catalog
  obtain ⟨after', ran', u, found', declared', rows⟩ :=
    holds_exec_all (known_texts (plain_pushed (s := c) unclosed)) opened.shaped ⟨t, found, declared, rfl⟩
  cases ran.symm.trans ran'
  refine ⟨u, found', declared', fun q => ?_⟩
  rw [← pending_pushed unclosed clean, Recorded, Recorded, Catalog.catalog_paths_of_lookup found',
    Catalog.catalog_paths_of_lookup found, rows]
  constructor
  · rintro ⟨x, inside, same⟩
    rcases List.mem_append.mp inside with old | new
    · exact .inl ⟨x, old, same⟩
    · obtain ⟨path, waiting, rfl⟩ := List.mem_map.mp new
      cases same
      exact .inr waiting
  · rintro (⟨x, old, same⟩ | waiting)
    · exact ⟨x, List.mem_append_left _ old, same⟩
    · exact ⟨.text q, List.mem_append_right _ (List.mem_map_of_mem waiting), rfl⟩

end Rows

/-! ### Construction -/

/-- The playlist is the one of the catalog, and holds what the member holds. -/
structure Mirrors (s : State) (p : Playlist) : Prop where
  found : named s.playlists "db_catalog" = some p
  held : p ∈ s.playlists
  name : p.name = text "db_catalog"
  tracks : ∀ q, q ∈ p.tracks ↔ q ∈ s.dbCatalog.tracks

section Construction

variable {s t : State} {v : Visit} {visits : List Visit} {scan : Scan} {db : Db} {p : Playlist}
  {playlists : List Playlist}

/-- The playlist of the catalog, among those read from the database. -/
theorem catalog_of_populate {names : List Text} (shown : text "db_catalog" ∈ names)
    (read : populateFromDb scan db names = some playlists) :
    ∃ p ∈ playlists, named playlists "db_catalog" = some p ∧ p.name = text "db_catalog" ∧
      selectPlaylist scan db "db_catalog" = some p.tracks := by
  rw [← names_of_populate read] at shown
  obtain ⟨p, held, same⟩ := List.mem_map.mp shown
  obtain ⟨q, found, held', name⟩ := named_of_mem ⟨p, held, same⟩
  refine ⟨q, held', found, name, ?_⟩
  rw [← name]
  exact select_of_populate read held'

theorem catalog_shown (opened : Opened db) : text "db_catalog" ∈ shownTables db := by
  obtain ⟨t, found, name, -⟩ := opened.catalog
  exact mem_shown_tables.mpr ⟨by decide, t, Db.mem_of_lookup found, name⟩

/-- **Construction.** The playlist of the catalog is a copy of the member, and holds the paths of the
database, or of the first scan. -/
theorem mirrors_construct (opened : Opened db) (unclosed : v.Unclosed)
    (clean : ∀ path ∈ v.entries, nul ∉ path) (constructed : construct scan v db = some s) :
    ∃ p, Mirrors s p ∧ ∀ q, q ∈ s.dbCatalog.tracks ↔
      Recorded db q ∨ (Blank scan db ∧ q ∈ v.entries ∧ Accepts v.files q) := by
  obtain ⟨t, found, -, declared⟩ := opened.catalog
  obtain ⟨names, playlists, p, listed, read, first, rest⟩ := construct_eq_some constructed
  have shown : text "db_catalog" ∈ names := (mem_names listed).mpr (catalog_shown opened)
  obtain ⟨p', held, first', name, selected⟩ := catalog_of_populate shown read
  cases first.symm.trans first'
  have recorded := mem_select_catalog found declared selected
  rcases rest with ⟨some_, rfl⟩ | ⟨none, t', again, taken, reread, rfl⟩
  · have full : ¬ Blank scan db := mt (blank_iff listed read first).mp some_
    refine ⟨p, ⟨first, held, name, fun _ => Iff.rfl⟩, fun q => ?_⟩
    rw [recorded]
    simp [full]
  · have blank : Blank scan db := (blank_iff listed read first).mpr none
    obtain ⟨p', reheld, refound, rename, reselected⟩ := catalog_of_populate shown reread
    obtain ⟨-, -, catalog, c, own, ran⟩ := visit_eq_some taken
    have member (q : Text) : q ∈ t'.dbCatalog.tracks ↔ q ∈ v.entries ∧ Accepts v.files q := by
      rw [catalog]
      refine catalog_visited q |>.trans ?_
      simp [unscanned, none]
    have unseen (q : Text) : ¬ Recorded db q := by
      rw [← recorded, none]
      exact List.not_mem_nil
    obtain ⟨t'', found', declared', rows⟩ := recorded_scan opened unclosed clean ran
    refine ⟨p', ⟨refound, reheld, rename, fun q => ?_⟩, fun q => ?_⟩
    · rw [mem_select_catalog found' declared' reselected, rows, member, own, none]
      simp [unseen]
    · rw [member]
      simp [unseen, blank]

/-! ### Later scans -/

/-- Scans add playlists only at the end. -/
theorem playlists_extend (files : Files) (entries : List Text) (c : Catalog.State) :
    ∃ added, (visited files entries c).playlists = c.playlists ++ added := by
  induction entries generalizing c with
  | nil => exact ⟨[], (List.append_nil _).symm⟩
  | cons path entries ih =>
    obtain ⟨one, first⟩ : ∃ one, (Catalog.entered files c path).1.playlists = c.playlists ++ one := by
      unfold Catalog.entered
      dsimp only
      split_ifs
      · exact ⟨[], (List.append_nil _).symm⟩
      · exact ⟨_, rfl⟩
      · exact ⟨[], (List.append_nil _).symm⟩
      · exact ⟨[], (List.append_nil _).symm⟩
      · exact ⟨[], (List.append_nil _).symm⟩
    obtain ⟨added, rest⟩ := ih (Catalog.push (Catalog.entered files c path).1 (Catalog.entered files c path).2)
    refine ⟨one ++ added, ?_⟩
    rw [visited_cons, rest, ← List.append_assoc, ← first]
    rfl

/-- **One scan.** It leaves the copy as it was, and so the copy has every path of the member still
exactly when the scan accepts none that the member had not. -/
theorem covered_visit (mirrors : Mirrors s p) (taken : visit s v = some t) :
    (Covered t ↔ ∀ path ∈ v.entries, Accepts v.files path → path ∈ s.dbCatalog.tracks) ∧
      (Covered t → Mirrors t p ∧ ∀ q, q ∈ t.dbCatalog.tracks ↔ q ∈ s.dbCatalog.tracks) := by
  obtain ⟨-, playlists, catalog, -⟩ := visit_eq_some taken
  obtain ⟨added, extends_⟩ := playlists_extend v.files v.entries (unscanned s)
  have shape : t.playlists = s.playlists ++ added := playlists.trans extends_
  have found : named t.playlists "db_catalog" = some p := by
    rw [shape, named_append (List.ne_nil_of_mem mirrors.held) (.inl ⟨p, mirrors.held, mirrors.name⟩)]
    exact mirrors.found
  have member (q : Text) : q ∈ t.dbCatalog.tracks ↔
      q ∈ s.dbCatalog.tracks ∨ (q ∈ v.entries ∧ Accepts v.files q) := by
    rw [catalog]
    exact catalog_visited q
  have covered : Covered t ↔ ∀ q ∈ t.dbCatalog.tracks, q ∈ s.dbCatalog.tracks := by
    simp only [Covered, found, Option.some.injEq, exists_eq_left', mirrors.tracks]
  constructor
  · rw [covered]
    constructor
    · intro all path entry accepts
      exact all path ((member path).mpr (.inr ⟨entry, accepts⟩))
    · intro known q held
      rcases (member q).mp held with old | ⟨entry, accepts⟩
      · exact old
      · exact known q entry accepts
  · intro covers
    have same (q : Text) : q ∈ t.dbCatalog.tracks ↔ q ∈ s.dbCatalog.tracks :=
      ⟨covered.mp covers q, fun old => (member q).mpr (.inl old)⟩
    refine ⟨⟨found, ?_, mirrors.name, fun q => (mirrors.tracks q).trans (same q).symm⟩, same⟩
    rw [shape]
    exact List.mem_append_left _ mirrors.held

theorem covered_throughout (mirrors : Mirrors s p) (ran : visit.run s visits = some t) :
    Throughout Covered s visits ↔
      ∀ w ∈ visits, ∀ path ∈ w.entries, Accepts w.files path → path ∈ s.dbCatalog.tracks := by
  have now : Covered s := ⟨p, mirrors.found, fun q held => (mirrors.tracks q).mpr held⟩
  induction visits generalizing s with
  | nil => simp [throughout_nil, now]
  | cons w visits ih =>
    obtain ⟨middle, taken, rest⟩ := Steps.run_cons_iff.mp ran
    obtain ⟨iff, kept⟩ := covered_visit mirrors taken
    rw [throughout_cons taken, List.forall_mem_cons, and_iff_right now, ← iff]
    constructor
    · intro all
      have covers : Covered middle := all [] visits middle rfl rfl
      obtain ⟨mirrors', same⟩ := kept covers
      have later := (ih mirrors' rest covers).mp all
      simp only [same] at later
      exact ⟨covers, later⟩
    · rintro ⟨covers, later⟩
      obtain ⟨mirrors', same⟩ := kept covers
      simp only [← same] at later
      exact (ih mirrors' rest covers).mpr later

/-- **When the playlist of the catalog holds every accepted path.** After the construction of the player
and each of the scans that follow, the playlist that `named("db_catalog")` returns holds every path of the
member exactly when no later scan accepts a path that neither had a row at first nor came with a first
scan. -/
theorem catalog_covered_iff (opened : Opened db) (unclosed : v.Unclosed)
    (clean : ∀ path ∈ v.entries, nul ∉ path) (constructed : construct scan v db = some s)
    (ran : visit.run s visits = some t) :
    Throughout Covered s visits ↔ ∀ w ∈ visits, ∀ path ∈ w.entries, Accepts w.files path →
      Recorded db path ∨ (Blank scan db ∧ path ∈ v.entries ∧ Accepts v.files path) := by
  obtain ⟨p, mirrors, tracks⟩ := mirrors_construct opened unclosed clean constructed
  simp only [covered_throughout mirrors ran, tracks]

end Construction

theorem opened_stored : Opened Resume.stored where
  shaped := shaped_stored
  catalog := ⟨_, Resume.lookup_catalog, rfl, Resume.declared_catalog⟩

theorem old_track_covered : Throughout Covered constructed [⟨Resume.library, ["a.mp3"]⟩] := by
  have unclosed : (⟨Resume.library, []⟩ : Visit).Unclosed := by
    rintro path ⟨⟩
  refine (catalog_covered_iff opened_stored unclosed (by simp) construct_stored rfl).mpr ?_
  intro w member path entry accepts
  cases List.mem_singleton.mp member
  cases List.mem_singleton.mp entry
  exact .inl ⟨.text "a.mp3", by decide, rfl⟩

/-- A track that appears after construction. -/
theorem new_track_not_covered : ¬ ∀ (scan : Scan) (v : Visit) (db : Db) (s t : State) (visits : List Visit),
    Opened db → construct scan v db = some s → visit.run s visits = some t → Covered t := by
  intro all
  have unclosed : (⟨Resume.library, ["c.mp3"]⟩ : Visit).Unclosed := by
    intro path entry lists
    cases List.mem_singleton.mp entry
    cases lists.2
  obtain ⟨t, taken⟩ := visit_constructed (by decide) unclosed
  have mirrors : Mirrors constructed ⟨"db_catalog", ["a.mp3", "b.mp3"]⟩ :=
    ⟨rfl, List.mem_cons_self, rfl, fun _ => Iff.rfl⟩
  have covered := all _ _ _ _ _ [_] opened_stored construct_stored (Steps.run_cons_iff.mpr ⟨t, taken, rfl⟩)
  have accepts : Accepts Resume.library "c.mp3" := ⟨rfl, by decide, by decide⟩
  have held := (covered_visit mirrors taken).1.mp covered "c.mp3" List.mem_cons_self accepts
  exact absurd held (by decide)

end Sws.Views
