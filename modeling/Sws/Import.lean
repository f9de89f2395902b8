import Sws.Catalog
import Sws.Database.Draining
import Sws.Database.Playlists

/-! Importing playlist files: each import fills the table of its own name and its own row of the
register, and nothing else. -/
namespace Sws.Import

open Database Sql Catalog

/-! ### Executing a queue -/

theorem drain_front {s t : State} {a : Action} (drains : a.drains) (taken : Catalog.step s a = some t) :
    ∃ q ok, s.queries = q :: t.queries ∧ exec s.db q = some (t.db, ok) := by
  cases a with
  | drain =>
    cases waiting : s.queries with
    | nil => simp [Catalog.step, act, waiting] at taken
    | cons q more =>
      cases result : exec s.db q with
      | none => simp [Catalog.step, act, waiting, result] at taken
      | some r =>
        simp only [Catalog.step, act, waiting, result, Option.map_some, push, List.flatMap_nil,
          List.append_nil, Option.some.injEq] at taken
        subst taken
        exact ⟨q, r.2, rfl, result⟩
  | _ => cases drains

/-- What can be executed can be drained. -/
theorem drained_of_exec_all {s : State} {after : Db} (ran : execAll s.db s.queries = some after) :
    ∃ t, Catalog.step.Reaches Action.drains s t ∧ t.queries = [] ∧ t.db = after := by
  induction waiting : s.queries generalizing s with
  | nil =>
    rw [waiting] at ran
    cases ran
    exact ⟨s, .refl s, waiting, rfl⟩
  | cons q rest ih =>
    rw [waiting] at ran
    obtain ⟨⟨middle, ok⟩, first, onwards⟩ := Option.bind_eq_some_iff.mp ran
    obtain ⟨t, reached, empty, same⟩ := ih (s := { s with db := middle, queries := rest }) onwards rfl
    have taken : Catalog.step s .drain = some { s with db := middle, queries := rest } := by
      simp [Catalog.step, act, waiting, first, push]
    exact ⟨t, (Steps.Reaches.single (a := .drain) trivial taken).trans reached, empty, same⟩

/-! ### What an import leaves alone -/

/-- Every table but those of these names and the register is as it was; of the register, the rows
of other names are. -/
structure Keeps (names : List Text) (before after : Db) : Prop where
  tables : ∀ n, fold n ∉ names.map fold → fold n ≠ fold (text "_playlist") →
    after.lookup n = before.lookup n
  register : (after.lookup "_playlist").map (others · names) = (before.lookup "_playlist").map (others · names)

/-- The register, if it is there, is the declared table. -/
def Registered (db : Db) : Prop := ∀ r, db.lookup "_playlist" = some r → Declared .register r

section Imports

variable {names : List Text} {a b c db : Db} {name : Text}

theorem Keeps.refl (names : List Text) (db : Db) : Keeps names db db := ⟨fun _ _ _ => rfl, rfl⟩

theorem Keeps.trans (first : Keeps names a b) (second : Keeps names b c) : Keeps names a c :=
  ⟨fun n other register => (second.tables n other register).trans (first.tables n other register),
    second.register.trans first.register⟩

/-- Every table but that of this name is as it was. -/
def Only (name : Text) (before after : Db) : Prop :=
  ∀ n, fold name ≠ fold n → after.lookup n = before.lookup n

theorem Only.keeps (only : Only name a b) (named : name ∈ names) (apart : fold name ≠ fold (text "_playlist")) :
    Keeps names a b where
  tables := fun n other _ => only n fun same => other (same ▸ List.mem_map_of_mem named)
  register := by rw [only _ apart]

/-- The playlist's table is there, spelt in some way, with these paths. -/
def Contains (db : Db) (name spelt : Text) (held : List Text) : Prop :=
  ∃ t, db.lookup name = some t ∧ Listing t spelt held

/-- The same, or no such table yet and so no path. -/
def Starts (db : Db) (name spelt : Text) (held : List Text) : Prop :=
  Contains db name spelt held ∨ (db.lookup name = none ∧ spelt = name ∧ held = [])

/-- The register, if it is there, has this row. -/
def Registers (db : Db) (name source : Text) : Prop :=
  ∀ r, db.lookup "_playlist" = some r → [.text name, .text source, .int 0] ∈ r.rows

theorem Contains.kept {spelt : Text} {held : List Text} (contains : Contains a name spelt held)
    (same : b.lookup name = a.lookup name) : Contains b name spelt held := by
  obtain ⟨t, found, listing⟩ := contains
  exact ⟨t, same.trans found, listing⟩

theorem Registered.kept (registered : Registered a) (same : b.lookup "_playlist" = a.lookup "_playlist") :
    Registered b := fun r found => registered r (same.symm.trans found)

theorem Registers.same {source : Text} (row : Registers a name source)
    (same : b.lookup "_playlist" = a.lookup "_playlist") : Registers b name source :=
  fun r found => row r (same.symm.trans found)

/-- Registering another playlist keeps a row. -/
theorem Registers.kept {source name' : Text} (row : Registers a name source) (registered : Registered a)
    (other : name ≠ name') (keeps : Keeps [name'] a b) : Registers b name source := by
  intro after found
  have kept := keeps.register
  rw [found, Option.map_some] at kept
  obtain ⟨before, found', same⟩ := Option.map_eq_some_iff.mp kept.symm
  have held := mem_others_row (registered before found') other (row before found')
  rw [same] at held
  exact List.mem_of_mem_filter held

/-- Names a playlist's table can have. -/
structure Usable (name : Text) : Prop where
  unclosed : ']' ∉ name
  clean : nul ∉ name
  own : (text "sqlite_").isPrefixOf (fold name) = false
  apart : fold name ≠ fold (text "_playlist")

instance (name : Text) : Decidable (Usable name) :=
  decidable_of_iff (']' ∉ name ∧ nul ∉ name ∧ (text "sqlite_").isPrefixOf (fold name) = false ∧
      fold name ≠ fold (text "_playlist"))
    ⟨fun parts => ⟨parts.1, parts.2.1, parts.2.2.1, parts.2.2.2⟩,
      fun usable => ⟨usable.unclosed, usable.clean, usable.own, usable.apart⟩⟩

theorem Usable.not_master (usable : Usable name) : fold name ≠ text "sqlite_master" := by
  intro same
  have own := usable.own
  rw [same] at own
  exact absurd own (by decide)

/-- The texts of `add_to_playlist` with a list have no NUL. -/
theorem clean_parts {paths : List Text} (clean : nul ∉ name) (lines : ∀ p ∈ paths, nul ∉ p) :
    ∀ b ∈ (NamedCall.addPaths paths).parts, nul ∉ b.text name := by
  intro b member
  have tail := (NamedCall.addPaths paths).clean_tails_iff.mpr lines b member
  simp [Bracketed.text, b.clean, clean, tail]

/-- The first statement of `add_to_playlist`: the table is made if it is not there. -/
theorem create_playlist {spelt : Text} {held : List Text} (usable : Usable name)
    (starts : Starts db name spelt held) :
    ∃ middle, execute db (.createTable true name playlistColumns ["path"]) = .ok middle ∧
      Contains middle name spelt held := by
  rcases starts with ⟨t, found, listing⟩ | ⟨free, rfl, rfl⟩
  · refine ⟨db, ?_, t, found, listing⟩
    rw [execute, createTable, usable.own, found]
    rfl
  · exact ⟨db.create (newPlaylist _), create_playlist_eq free usable.own, newPlaylist _,
      Db.lookup_create_self free rfl, new_playlist_listing _⟩

/-- `add_to_playlist` with a list: the table is made if it is not there, and the paths are put in. -/
theorem exec_add {spelt : Text} {held paths : List Text} (usable : Usable name)
    (lines : ∀ p ∈ paths, nul ∉ p) (some_ : paths ≠ []) (starts : Starts db name spelt held) :
    ∃ after, execAll db (addToPlaylist name paths) = some after ∧
      Contains after name spelt (paths.foldl replaced held) ∧ Only name db after := by
  obtain ⟨path, paths, rfl⟩ := List.exists_cons_of_ne_nil some_
  have texts := (NamedCall.addPaths (path :: paths)).texts_eq name
  have clean := clean_parts usable.clean lines
  simp only [NamedCall.texts, NamedCall.parts, List.map_cons, List.map_nil, List.forall_mem_cons] at texts clean
  obtain ⟨middle, created, t, found, listing⟩ := create_playlist usable starts
  have filled := fill_playlist_eq found listing.declared (path :: paths)
  have createdText := (create_playlist_denotes usable.unclosed).exec_eq db
  have filledText := (fill_playlist_denotes usable.unclosed (List.cons_ne_nil path paths)).exec_eq middle
  rw [if_neg clean.1, created] at createdText
  rw [if_neg clean.2.1, filled] at filledText
  have after := listing.fill (path :: paths)
  refine ⟨_, ?_, ⟨_, Db.lookup_put_self found ?_, after⟩, fun n other => ?_⟩
  · rw [texts]
    exact exec_all_cons createdText (exec_all_cons filledText rfl)
  · exact (congrArg fold (after.name.trans listing.name.symm)).trans (Db.fold_name_of_lookup found)
  · exact (execute_frame filled other).trans (execute_frame created other)

/-- `insert_playlist`: the register, if it is there, has the row put in. -/
theorem exec_insert_playlist {source : Text} (registered : Registered db) (clean : nul ∉ name)
    (file : nul ∉ source) :
    ∃ after ok, exec db (insertPlaylist name source) = some (after, ok) ∧ Only "_playlist" db after ∧
      after.lookup "_playlist" =
        (db.lookup "_playlist").map (·.replace [.text name, .text source, .int 0]) := by
  rw [(insert_playlist_denotes name source).exec_eq, if_neg (clean_insert_playlist clean file)]
  cases found : db.lookup "_playlist" with
  | none =>
    rw [insert_missing found]
    exact ⟨db, false, rfl, fun _ _ => rfl, found⟩
  | some r =>
    have ran := insert_playlist_eq found (registered r found) name source
    have same : fold r.name = fold (text "_playlist") := Db.fold_name_of_lookup found
    rw [ran]
    exact ⟨_, true, rfl, fun n other => execute_frame ran other, Db.lookup_put_self found same⟩

/-- The row of the name is made anew. -/
theorem exec_register {source : Text} (registered : Registered db) (clean : nul ∉ name)
    (file : nul ∉ source) :
    ∃ after ok, exec db (insertPlaylist name source) = some (after, ok) ∧ Registered after ∧
      Registers after name source ∧ Only "_playlist" db after ∧
      ∀ names, name ∈ names → Keeps names db after := by
  obtain ⟨after, ok, ran, only, there⟩ := exec_insert_playlist registered clean file
  refine ⟨after, ok, ran, ?_, ?_, only, fun names named => ⟨fun n _ other => only n (Ne.symm other), ?_⟩⟩
  · intro v lookup
    obtain ⟨r, found, rfl⟩ := Option.map_eq_some_iff.mp (there.symm.trans lookup)
    have declared := registered r found
    exact ⟨declared.columns, declared.key⟩
  · intro v lookup
    obtain ⟨r, found, rfl⟩ := Option.map_eq_some_iff.mp (there.symm.trans lookup)
    exact List.mem_append_right _ List.mem_cons_self
  · rw [there, Option.map_map]
    refine Option.map_congr fun r found => ?_
    exact others_replace (registered r found) named _

/-- The texts of one import; a playlist that is there already is filled once more. -/
def importTexts (name source : Text) (paths : List Text) (again : Bool) : List Text :=
  addToPlaylist name paths ++
    (insertPlaylist name source :: if again then addToPlaylist name paths else [])

/-- One import. -/
theorem exec_import {source spelt : Text} {held paths : List Text} (again : Bool)
    (registered : Registered db) (usable : Usable name) (file : nul ∉ source)
    (lines : ∀ p ∈ paths, nul ∉ p) (some_ : paths ≠ []) (starts : Starts db name spelt held) :
    ∃ after all, execAll db (importTexts name source paths again) = some after ∧ Registered after ∧
      Registers after name source ∧ Contains after name spelt all ∧
      (∀ p, p ∈ all ↔ p ∈ held ∨ p ∈ paths) ∧ ∀ names, name ∈ names → Keeps names db after := by
  obtain ⟨filled, first, contains, only⟩ := exec_add usable lines some_ starts
  have register : Registered filled := registered.kept (only "_playlist" usable.apart)
  obtain ⟨middle, ok, second, after, row, elsewhere, kept⟩ := exec_register register usable.clean file
  have still : Contains middle name spelt (paths.foldl replaced held) :=
    contains.kept (elsewhere name usable.apart.symm)
  have both (names : List Text) (named : name ∈ names) : Keeps names db middle :=
    (only.keeps named usable.apart).trans (kept names named)
  cases again with
  | false =>
    refine ⟨middle, _, ?_, after, row, still, fun p => mem_replaced, both⟩
    rw [importTexts, exec_all_append, first, Option.bind_some]
    exact exec_all_cons second rfl
  | true =>
    obtain ⟨last, third, refilled, own⟩ := exec_add usable lines some_ (.inl still)
    refine ⟨last, _, ?_, after.kept (own _ usable.apart), row.same (own _ usable.apart), refilled,
      fun p => by simp [mem_replaced],
      fun names named => (both names named).trans (own.keeps named usable.apart)⟩
    rw [importTexts, exec_all_append, first, Option.bind_some]
    exact exec_all_cons second third

/-- Two imports under names that differ in more than case, both free. -/
theorem exec_imports {name' source source' : Text} {paths paths' : List Text} (again again' : Bool)
    (registered : Registered db) (usable : Usable name) (usable' : Usable name')
    (different : fold name ≠ fold name') (file : nul ∉ source) (file' : nul ∉ source')
    (lines : ∀ p ∈ paths, nul ∉ p) (lines' : ∀ p ∈ paths', nul ∉ p) (some_ : paths ≠ [])
    (some' : paths' ≠ []) (free : db.lookup name = none) (free' : db.lookup name' = none) :
    ∃ after held held', execAll db (importTexts name source paths again ++
        importTexts name' source' paths' again') = some after ∧
      Registers after name source ∧ Registers after name' source' ∧
      Contains after name name held ∧ Contains after name' name' held' ∧
      (∀ p, p ∈ held ↔ p ∈ paths) ∧ (∀ p, p ∈ held' ↔ p ∈ paths') ∧ Keeps [name, name'] db after := by
  obtain ⟨middle, held, ran, registered, row, contains, exactly, kept⟩ :=
    exec_import again registered usable file lines some_ (.inr ⟨free, rfl, rfl⟩)
  have still : middle.lookup name' = none := by
    rw [(kept [name] List.mem_cons_self).tables _ (by simpa using different.symm) usable'.apart]
    exact free'
  obtain ⟨after, held', ran', -, row', contains', exactly', kept'⟩ :=
    exec_import again' registered usable' file' lines' some' (.inr ⟨still, rfl, rfl⟩)
  have own := kept' [name'] List.mem_cons_self
  have survives : Contains after name name held :=
    contains.kept (own.tables _ (by simpa using different) usable.apart)
  have apart : name ≠ name' := fun same => different (congrArg fold same)
  refine ⟨after, held, held', ?_, row.kept registered apart own, row', survives, contains',
    fun p => by simp [exactly], fun p => by simp [exactly'], (kept _ (by simp)).trans (kept' _ (by simp))⟩
  rw [exec_all_append, ran]
  exact ran'

end Imports

/-! ### Two imports -/

/-- A playlist file of existing tracks, with a name and paths the program can use, and no line of unreadable
status. -/
structure Importable (files : Files) (path : Text) : Prop where
  regular : files.regular path = some true
  present : files.present path = some true
  playlist : Files.isPlaylistFile path
  readable : files.Readable path
  some_ : files.tracks path ≠ []
  usable : Usable (Files.stem path)
  file : nul ∉ path
  lines : ∀ line ∈ files.tracks path, nul ∉ line

section Entries

variable {files : Files} {path : Text} {s t : State}

/-- Its import is not cut short. -/
theorem answers_of_importable (importable : Importable files path) : files.Answers path := by
  refine ⟨by rw [importable.regular]; rfl, fun _ => ?_⟩
  rw [if_pos importable.playlist]
  exact ⟨by rw [importable.present]; rfl, fun _ _ => importable.readable⟩

theorem step_entry (importable : Importable files path) (s : State) :
    ∃ t again, Catalog.step s (.entry files path) = some t ∧ t.db = s.db ∧
      t.queries = s.queries ++ importTexts (Files.stem path) path (files.tracks path) again := by
  have taken : Catalog.step s (.entry files path) =
      some (push (entered files s path).1 (entered files s path).2) := by
    rw [Catalog.step, act, entry_eq, if_pos (answers_of_importable importable), Option.map_some]
  refine ⟨_, s.playlists.any fun p => p.name = Files.stem path, taken, (entered_same files s path).1, ?_⟩
  have made : files.playlistOf path = (⟨Files.stem path, files.tracks path⟩,
      [.addToPlaylist (Files.stem path) (files.tracks path), .insertPlaylist (Files.stem path) path]) :=
    if_pos ⟨importable.present, importable.playlist⟩
  rw [entered, if_pos importable.regular, if_pos importable.playlist, made]
  dsimp only
  cases s.playlists.any fun p => p.name = Files.stem path <;> simp [push, importTexts, Call.texts]

/-- What the step of an import leaves. -/
theorem of_step_entry (importable : Importable files path) (taken : Catalog.step s (.entry files path) = some t) :
    ∃ again, t.db = s.db ∧
      t.queries = s.queries ++ importTexts (Files.stem path) path (files.tracks path) again := by
  obtain ⟨u, again, taken', same, queries⟩ := step_entry importable s
  cases taken'.symm.trans taken
  exact ⟨again, same, queries⟩

end Entries

/-- `tables` lists the name unless it begins with an underscore, and `select_playlist` returns these
tracks, each once. -/
def Offers (db : Db) (name : Text) (tracks : List Text) : Prop :=
  ∀ scan, (∃ names, tables scan db = some names ∧ (name ∈ names ↔ name.head? ≠ some '_')) ∧
    ∃ paths, selectPlaylist scan db name = some paths ∧ paths.Nodup ∧ ∀ p, p ∈ paths ↔ p ∈ tracks

theorem offers_of_contains {db : Db} {name : Text} {held tracks : List Text} (usable : Usable name)
    (contains : Contains db name name held) (same : ∀ p, p ∈ held ↔ p ∈ tracks) :
    Offers db name tracks := by
  obtain ⟨t, found, listing⟩ := contains
  intro scan
  obtain ⟨names, all, perm⟩ := tables_perm scan db
  obtain ⟨paths, selected, apart, exactly⟩ := select_playlist_listing scan found listing usable.unclosed
    usable.clean usable.not_master
  have held : ∃ u ∈ db.tables, u.name = name := ⟨t, Db.mem_of_lookup found, listing.name⟩
  have listed : name ∈ names ↔ name.head? ≠ some '_' :=
    perm.mem_iff.trans (mem_shown_tables.trans (and_iff_left held))
  exact ⟨⟨names, all, listed⟩,
    paths, selected, apart, fun p => (exactly p).trans (same p)⟩

/-- What drains a queue executes all of it. -/
theorem db_of_drained {s t : State} {after : Db} (ran : execAll s.db s.queries = some after)
    (drained : Catalog.step.Reaches Action.drains s t) (empty : t.queries = []) : t.db = after := by
  obtain ⟨done, queued, executed⟩ := exec_all_of_drained (fun _ _ _ => drain_front) drained
  rw [empty, List.append_nil] at queued
  rw [← queued, ran] at executed
  exact (Option.some.inj executed).symm

/-- **Imports are isolated.** Two playlist files whose names differ in more than case, imported one
after the other with the queue drained at any points: the queue can be drained, and then each
playlist is listed and holds the tracks of its own file, and every other table is as it was, but for
the two rows of the register. -/
theorem imports_isolated {files files' : Files} {path path' : Text} {s t : State} {early : List Action}
    (first : Importable files path) (second : Importable files' path')
    (different : fold (Files.stem path) ≠ fold (Files.stem path')) (idle : s.queries = [])
    (registered : Registered s.db) (free : s.db.lookup (Files.stem path) = none)
    (free' : s.db.lookup (Files.stem path') = none) (drains : ∀ a ∈ early, a.drains)
    (reached : Catalog.step.run s (.entry files path :: (early ++ [.entry files' path'])) = some t) :
    (∃ u, Catalog.step.Reaches Action.drains t u ∧ u.queries = []) ∧
      ∀ u, Catalog.step.Reaches Action.drains t u → u.queries = [] →
        Offers u.db (Files.stem path) (files.tracks path) ∧
        Offers u.db (Files.stem path') (files'.tracks path') ∧
        Registers u.db (Files.stem path) path ∧ Registers u.db (Files.stem path') path' ∧
        Keeps [Files.stem path, Files.stem path'] s.db u.db := by
  obtain ⟨s₁, opened, rest⟩ := Steps.run_cons_iff.mp reached
  obtain ⟨s₂, between, last⟩ := Steps.run_append_iff.mp rest
  obtain ⟨t', closed, same⟩ := Steps.run_cons_iff.mp last
  cases same
  obtain ⟨again, db₁, queries₁⟩ := of_step_entry first opened
  obtain ⟨again', db₂, queries₂⟩ := of_step_entry second closed
  obtain ⟨done, queued, executed⟩ :=
    exec_all_of_drained (fun _ _ _ => drain_front) ⟨early, drains, between⟩
  obtain ⟨after, held, held', whole, row, row', contains, contains', exactly, exactly', keeps⟩ :=
    exec_imports again again' registered first.usable second.usable different first.file second.file
      first.lines second.lines first.some_ second.some_ free free'
  -- Whatever was executed between the two imports, all of it is executed in the order of the pushes.
  have all : execAll t.db t.queries = some after := by
    rw [idle, List.nil_append] at queries₁
    rw [← queries₁, queued, List.append_assoc, exec_all_append, ← db₁, executed] at whole
    rw [queries₂, db₂]
    exact whole
  refine ⟨?_, fun u drained empty => ?_⟩
  · obtain ⟨u, drained, empty, -⟩ := drained_of_exec_all all
    exact ⟨u, drained, empty⟩
  · rw [db_of_drained all drained empty]
    exact ⟨offers_of_contains first.usable contains exactly,
      offers_of_contains second.usable contains' exactly', row, row', keeps⟩

/-- A file system in which `/A.m3u` and `/b.m3u` list tracks of their own. -/
def library : Files where
  present := fun _ => some true
  regular := fun _ => some true
  lines := fun path =>
    if path = text "/b.m3u" then ["y.mp3"] else if path = text "/A.m3u" then ["z.mp3"] else ["x.mp3"]
  mime := fun _ => some "audio/mpeg"
  hash := fun _ => "0"

/-- A database with an empty register. -/
def registry : Db :=
  Db.empty.create { name := "_playlist", columns := Shape.register.columns, key := Shape.register.key }

theorem registry_registered : Registered registry := by
  intro r found
  cases found
  exact ⟨rfl, rfl⟩

def opened (db : Db) : State := { db := db, queries := [], catalog := [], playlists := [] }

theorem library_importable {path : Text} (playlist : Files.isPlaylistFile path := by decide)
    (usable : Usable (Files.stem path) := by decide) (file : nul ∉ path := by decide) :
    Importable library path := by
  have lines : library.tracks path = [text "y.mp3"] ∨ library.tracks path = [text "z.mp3"] ∨
      library.tracks path = [text "x.mp3"] := by
    simp only [Files.tracks, library]
    split_ifs
    · exact .inl (by decide)
    · exact .inr (.inl (by decide))
    · exact .inr (.inr (by decide))
  refine ⟨rfl, rfl, playlist, fun _ _ _ => rfl, ?_, usable, file, ?_⟩
  · rcases lines with lines | lines | lines <;> simp [lines]
  · rcases lines with lines | lines | lines <;> rw [lines] <;> decide

theorem two_imports :
    ∃ t, Catalog.step.run (opened registry) [.entry library "/a.m3u", .entry library "/b.m3u"] = some t ∧
      (∃ u, Catalog.step.Reaches Action.drains t u ∧ u.queries = []) ∧
      ∀ u, Catalog.step.Reaches Action.drains t u → u.queries = [] →
        Offers u.db (Files.stem "/a.m3u") (library.tracks "/a.m3u") ∧
        Offers u.db (Files.stem "/b.m3u") (library.tracks "/b.m3u") ∧
        Registers u.db (Files.stem "/a.m3u") "/a.m3u" ∧ Registers u.db (Files.stem "/b.m3u") "/b.m3u" ∧
        Keeps [Files.stem "/a.m3u", Files.stem "/b.m3u"] registry u.db := by
  have a : Importable library "/a.m3u" := library_importable
  have b : Importable library "/b.m3u" := library_importable
  obtain ⟨s, -, one, -⟩ := step_entry a (opened registry)
  obtain ⟨t, -, two, -⟩ := step_entry b s
  have reached : Catalog.step.run (opened registry) [.entry library "/a.m3u", .entry library "/b.m3u"] = some t :=
    Steps.run_cons_iff.mpr ⟨s, one, Steps.run_cons_iff.mpr ⟨t, two, rfl⟩⟩
  exact ⟨t, reached, @imports_isolated library library _ _ _ _ [] a b (by decide) rfl registry_registered
    rfl rfl (List.forall_mem_nil _) reached⟩

/-! ### What two imports share -/

/-- Playlist files of existing tracks with different names that have no table yet. -/
structure Separate (files : Files) (path path' : Text) (db : Db) : Prop where
  each : ∀ p ∈ [path, path'], files.regular p = some true ∧ files.present p = some true ∧
    Files.isPlaylistFile p ∧ files.tracks p ≠ [] ∧ ']' ∉ Files.stem p ∧ db.lookup (Files.stem p) = none
  different : Files.stem path ≠ Files.stem path'

/-- Both playlists are listed with the tracks of their own files, and no other table changed. -/
def Apart (files : Files) (path path' : Text) (before after : Db) : Prop :=
  (∀ p ∈ [path, path'], ∀ scan,
    (∃ names, tables scan after = some names ∧ Files.stem p ∈ names) ∧
    ∃ paths, selectPlaylist scan after (Files.stem p) = some paths ∧
      ∀ q, q ∈ paths ↔ q ∈ files.tracks p) ∧
  ∀ n, fold n ≠ fold (Files.stem path) → fold n ≠ fold (Files.stem path') →
    after.lookup n = before.lookup n

def Isolated (files : Files) (path path' : Text) (db : Db) : Prop :=
  ∀ t u, Catalog.step.run (opened db) [.entry files path, .entry files path'] = some t →
    Catalog.step.Reaches Action.drains t u → u.queries = [] → Apart files path path' db u.db

/-- To see that two imports are not isolated, execute the texts they push. -/
theorem not_isolated_of_exec {files : Files} {path path' : Text} {db : Db}
    (first : Importable files path) (second : Importable files path')
    (fails : ∀ again again', ∃ after,
      execAll db (importTexts (Files.stem path) path (files.tracks path) again ++
        importTexts (Files.stem path') path' (files.tracks path') again') = some after ∧
      ¬ Apart files path path' db after) : ¬ Isolated files path path' db := by
  intro isolated
  obtain ⟨s, again, opened₁, db₁, queries₁⟩ := step_entry first (opened db)
  obtain ⟨t, again', opened₂, db₂, queries₂⟩ := step_entry second s
  obtain ⟨after, ran, fails⟩ := fails again again'
  have all : execAll t.db t.queries = some after := by
    rw [queries₂, queries₁, db₂, db₁]
    exact ran
  obtain ⟨u, drained, empty, rfl⟩ := drained_of_exec_all all
  have reached : Catalog.step.run (opened db) [.entry files path, .entry files path'] = some t :=
    Steps.run_cons_iff.mpr ⟨s, opened₁, Steps.run_cons_iff.mpr ⟨t, opened₂, rfl⟩⟩
  exact fails (isolated t u reached drained empty)

section Shared

variable {path path' : Text}

theorem separate_of_importable {db : Db} (first : Importable library path)
    (second : Importable library path') (different : Files.stem path ≠ Files.stem path')
    (free : db.lookup (Files.stem path) = none) (free' : db.lookup (Files.stem path') = none) :
    Separate library path path' db := by
  refine ⟨?_, different⟩
  simp only [List.forall_mem_cons]
  exact ⟨⟨rfl, rfl, first.playlist, first.some_, first.usable.unclosed, free⟩,
    ⟨rfl, rfl, second.playlist, second.some_, second.usable.unclosed, free'⟩, by simp⟩

theorem empty_registered : Registered .empty := fun r found => by cases found

/-- The register's row is a change of the register. -/
theorem register_shared (first : Importable library path) (second : Importable library path')
    (different : fold (Files.stem path) ≠ fold (Files.stem path'))
    (free : registry.lookup (Files.stem path) = none)
    (free' : registry.lookup (Files.stem path') = none) :
    ¬ Isolated library path path' registry := by
  refine not_isolated_of_exec first second fun again again' => ?_
  obtain ⟨after, -, -, ran, row, -⟩ := exec_imports again again' registry_registered first.usable
    second.usable different first.file second.file first.lines second.lines first.some_ second.some_
    free free'
  refine ⟨after, ran, fun ⟨_, same⟩ => ?_⟩
  have kept := same "_playlist" first.usable.apart.symm second.usable.apart.symm
  cases row _ kept

/-- Names that differ only in case have one table. -/
theorem table_shared (first : Importable library path) (second : Importable library path')
    (same : fold (Files.stem path') = fold (Files.stem path)) {line : Text}
    (held : line ∈ library.tracks path) (missing : line ∉ library.tracks path') :
    ¬ Isolated library path path' .empty := by
  refine not_isolated_of_exec first second fun again again' => ?_
  obtain ⟨middle, held₁, ran, registered, -, contains, exactly, -⟩ := exec_import again empty_registered
    first.usable first.file first.lines first.some_ (.inr ⟨rfl, rfl, rfl⟩)
  have one : Contains middle (Files.stem path') (Files.stem path) held₁ := by
    obtain ⟨t, found, listing⟩ := contains
    exact ⟨t, (Db.lookup_congr same).trans found, listing⟩
  obtain ⟨after, held₂, ran', -, -, ⟨t, found, listing⟩, members, -⟩ := exec_import again' registered
    second.usable second.file second.lines second.some_ (.inl one)
  refine ⟨after, ?_, fun ⟨each, _⟩ => ?_⟩
  · rw [exec_all_append, ran]
    exact ran'
  · obtain ⟨-, paths, selected, own⟩ := each path' (by simp) .stored
    obtain ⟨paths', selected', -, all⟩ := select_playlist_listing .stored found listing
      second.usable.unclosed second.usable.clean second.usable.not_master
    cases selected.symm.trans selected'
    have listed : line ∈ paths := (all line).mpr ((members line).mpr (.inl ((exactly line).mpr (.inr held))))
    exact missing ((own line).mp listed)

/-- A name that begins with an underscore is not listed. -/
theorem underscore_hidden (first : Importable library path) (second : Importable library path')
    (different : fold (Files.stem path) ≠ fold (Files.stem path'))
    (underscore : (Files.stem path).head? = some '_') : ¬ Isolated library path path' .empty := by
  refine not_isolated_of_exec first second fun again again' => ?_
  obtain ⟨after, held, -, ran, -, -, contains, -, exactly, -⟩ := exec_imports again again'
    empty_registered first.usable second.usable different first.file second.file first.lines
    second.lines first.some_ second.some_ rfl rfl
  refine ⟨after, ran, fun ⟨each, _⟩ => ?_⟩
  obtain ⟨⟨names, all, listed⟩, -⟩ := each path (by simp) .stored
  obtain ⟨⟨names', all', only⟩, -⟩ := offers_of_contains first.usable contains exactly .stored
  cases all.symm.trans all'
  exact only.mp listed underscore

end Shared

/-- Two imports change the register, share a table where only the case differs, and may not be
listed. -/
theorem imports_not_isolated :
    (Separate library "/a.m3u" "/b.m3u" registry ∧ ¬ Isolated library "/a.m3u" "/b.m3u" registry) ∧
    (Separate library "/A.m3u" "/a.m3u" .empty ∧ ¬ Isolated library "/A.m3u" "/a.m3u" .empty) ∧
    (Separate library "/_a.m3u" "/b.m3u" .empty ∧ ¬ Isolated library "/_a.m3u" "/b.m3u" .empty) := by
  have a : Importable library "/a.m3u" := library_importable
  have b : Importable library "/b.m3u" := library_importable
  have upper : Importable library "/A.m3u" := library_importable
  have hidden : Importable library "/_a.m3u" := library_importable
  exact ⟨⟨separate_of_importable a b (by decide) rfl rfl, register_shared a b (by decide) rfl rfl⟩,
    ⟨separate_of_importable upper a (by decide) rfl rfl,
      table_shared upper a (by decide) (show text "z.mp3" ∈ _ by decide) (by decide)⟩,
    ⟨separate_of_importable hidden b (by decide) rfl rfl,
      underscore_hidden hidden b (by decide) (by decide)⟩⟩

end Sws.Import
