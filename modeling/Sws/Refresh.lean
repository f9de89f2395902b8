import Sws.Import

/-! A playlist file imported over what an earlier import left: which paths and which position the
database has afterwards. -/
namespace Sws.Refresh

open Database Sql Catalog Import

/-- A playlist file with an existing track and a name that a table can have. -/
structure Constructible (files : Files) (path : Text) : Prop where
  present : files.present path = some true
  playlist : Files.isPlaylistFile path
  some_ : files.tracks path ≠ []
  usable : Usable (Files.stem path)
  file : nul ∉ path

theorem constructible_of_importable {files : Files} {path : Text} (importable : Importable files path) :
    Constructible files path :=
  ⟨importable.present, importable.playlist, importable.some_, importable.usable, importable.file⟩

/-- The constructor of `playlist` from a file has pushed its statements. -/
def construct (files : Files) (path : Text) (s : State) : Option State :=
  (files.playlist path).map fun made => push s made.2

/-- The register has this position for the playlist. -/
def Saved (db : Db) (name : Text) (position : Int) : Prop :=
  ∃ r source, db.lookup "_playlist" = some r ∧ [.text name, source, .int position] ∈ r.rows

/-- The file has been imported: the table has its tracks, and the register a row for it. -/
structure Imported (db : Db) (name source : Text) (tracks : List Text) : Prop where
  listed : ∃ spelt held, Contains db name spelt held ∧ held.Nodup ∧ ∀ p, p ∈ held ↔ p ∈ tracks
  registered : ∃ r position, db.lookup "_playlist" = some r ∧
    ownRows r name = [[.text name, .text source, .int position]]

/-- The same tables with the same rows, in whatever order. -/
def Unchanged (before after : Db) : Prop :=
  ∀ n, Option.Rel (fun t u => SameDeclaration t u ∧ t.rows.Perm u.rows) (before.lookup n) (after.lookup n)

/-- What an import should do to its playlist. -/
structure Refreshed (name source : Text) (tracks : List Text) (before after : Db) : Prop where
  /-- `select_playlist` returns the tracks, each once. -/
  selected : ∀ scan, ∃ paths, selectPlaylist scan after name = some paths ∧ paths.Nodup ∧
    ∀ p, p ∈ paths ↔ p ∈ tracks
  /-- `get_playlist_current` still returns a position that was saved. -/
  position : ∀ k, Saved before name k → ∀ scan, getPlaylistCurrent scan after name = some k
  /-- A file that has been imported changes nothing. -/
  again : Imported before name source tracks → Unchanged before after

/-- The construction returns, the queue can be drained after it, and then the playlist is refreshed. -/
def Refreshes (files : Files) (path : Text) (s : State) (before : Db) : Prop :=
  ∃ u, construct files path s = some u ∧ (∃ t, Catalog.step.Reaches Action.drains u t ∧ t.queries = []) ∧
    ∀ t, Catalog.step.Reaches Action.drains u t → t.queries = [] →
      Refreshed (Files.stem path) path (files.tracks path) before t.db

/-! ### What the statements leave -/

section Statements

variable {db after : Db} {name source spelt : Text} {held paths : List Text}

/-- A path with a NUL cuts the second statement off: the table is made, and nothing is put in. -/
theorem exec_add_cut (usable : Usable name) (cut : ∃ p ∈ paths, nul ∈ p)
    (starts : Starts db name spelt held) :
    ∃ after, execAll db (addToPlaylist name paths) = some after ∧ Contains after name spelt held ∧
      Only name db after := by
  obtain ⟨p, member, bad⟩ := cut
  have some_ := List.ne_nil_of_mem member
  obtain ⟨path, paths, rfl⟩ := List.exists_cons_of_ne_nil some_
  have texts := (NamedCall.addPaths (path :: paths)).texts_eq name
  simp only [NamedCall.texts, NamedCall.parts, List.map_cons, List.map_nil] at texts
  have whole : nul ∉ creation.text name := by
    have tail : nul ∉ creation.tail := clean_text rfl
    simp [Bracketed.text, creation.clean, usable.clean, tail]
  have short : nul ∈ (replacements (path :: paths) some_).text name := by
    have values : nul ∈ Database.values (path :: paths) :=
      not_not.mp fun clean => (clean_values_iff some_).mp clean p member bad
    simp [Bracketed.text, replacements, values]
  obtain ⟨middle, created, contains⟩ := create_playlist usable starts
  have createdText := (create_playlist_denotes usable.unclosed).exec_eq db
  have filledText := (fill_playlist_denotes usable.unclosed some_).exec_eq middle
  rw [if_neg whole, created] at createdText
  rw [if_pos short] at filledText
  refine ⟨middle, ?_, contains, fun n other => execute_frame created other⟩
  rw [texts]
  exact exec_all_cons createdText (exec_all_cons filledText rfl)

/-- The paths of a playlist's table after an import. -/
def imported (held paths : List Text) : List Text :=
  if ∀ p ∈ paths, nul ∉ p then paths.foldl replaced held else held

/-- What the statements of one construction leave: `REPLACE` keeps the paths that are not in the
file, and makes the row of the register anew. -/
structure Leaves (name source spelt : Text) (held paths : List Text) (before after : Db) : Prop where
  contains : Contains after name spelt (imported held paths)
  register : after.lookup "_playlist" =
    (before.lookup "_playlist").map (·.replace [.text name, .text source, .int 0])
  others : ∀ n, fold name ≠ fold n → fold (text "_playlist") ≠ fold n → after.lookup n = before.lookup n

/-- `add_to_playlist` with a list, whatever its paths. -/
theorem exec_add_all (usable : Usable name) (some_ : paths ≠ []) (starts : Starts db name spelt held) :
    ∃ after, execAll db (addToPlaylist name paths) = some after ∧
      Contains after name spelt (imported held paths) ∧ Only name db after := by
  unfold imported
  split_ifs with lines
  · exact exec_add usable lines some_ starts
  · push Not at lines
    exact exec_add_cut usable lines starts

theorem exec_construct (registered : Registered db) (usable : Usable name) (file : nul ∉ source)
    (some_ : paths ≠ []) (starts : Starts db name spelt held) :
    ∃ after, execAll db (importTexts name source paths false) = some after ∧
      Leaves name source spelt held paths db after := by
  obtain ⟨middle, first, contains, only⟩ := exec_add_all usable some_ starts
  have kept : middle.lookup "_playlist" = db.lookup "_playlist" := only "_playlist" usable.apart
  obtain ⟨after, ok, second, elsewhere, row⟩ :=
    exec_insert_playlist (registered.kept kept) usable.clean file
  refine ⟨after, ?_, ?_, ?_, ?_⟩
  · rw [importTexts, exec_all_append, first, Option.bind_some]
    exact exec_all_cons second rfl
  · exact contains.kept (elsewhere name usable.apart.symm)
  · rw [row, kept]
  · intro n other register
    exact (elsewhere n register).trans (only n other)

/-- The register right after an import, if there is one, has the row with position zero. -/
theorem own_rows_of_leaves (leaves : Leaves name source spelt held paths db after)
    (registered : Registered db) {r : Table} (found : after.lookup "_playlist" = some r) :
    Declared .register r ∧ ownRows r name = [[.text name, .text source, .int 0]] := by
  obtain ⟨r₀, found₀, rfl⟩ := Option.map_eq_some_iff.mp (leaves.register.symm.trans found)
  have declared := registered r₀ found₀
  exact ⟨⟨declared.columns, declared.key⟩, own_rows_replace declared _⟩

/-- Whatever position was saved, the one read afterwards is zero. -/
theorem position_reset (leaves : Leaves name source spelt held paths db after) (registered : Registered db)
    (usable : Usable name) {k : Int} (saved : Saved db name k) (scan : Scan) :
    getPlaylistCurrent scan after name = some 0 := by
  obtain ⟨r, -, found, -⟩ := saved
  have there := leaves.register
  rw [found] at there
  obtain ⟨declared, own⟩ := own_rows_of_leaves leaves registered there
  exact playlist_current_of_own_rows scan there declared usable.clean own

theorem selected (leaves : Leaves name source spelt held paths db after) (usable : Usable name)
    (scan : Scan) : ∃ all, selectPlaylist scan after name = some all ∧ all.Nodup ∧
      ∀ p, p ∈ all ↔ p ∈ imported held paths := by
  obtain ⟨t, found, listing⟩ := leaves.contains
  exact select_playlist_listing scan found listing usable.unclosed usable.clean usable.not_master

theorem nodup_replaced (distinct : held.Nodup) : (paths.foldl replaced held).Nodup := nodup_moved distinct

/-- Importing paths that are there moves rows at most, if the register has the row already. -/
theorem unchanged_of_leaves (leaves : Leaves name source spelt held paths db after)
    (registered : Registered db) (contains : Contains db name spelt held) (distinct : held.Nodup)
    (stale : ∀ p ∈ paths, p ∈ held) (lines : ∀ p ∈ paths, nul ∉ p)
    (own : ∀ r, db.lookup "_playlist" = some r → ownRows r name = [[.text name, .text source, .int 0]]) :
    Unchanged db after := by
  obtain ⟨t, found, listing⟩ := contains
  obtain ⟨u, found', listing'⟩ := leaves.contains
  rw [imported, if_pos lines] at listing'
  intro n
  by_cases same : fold name = fold n
  · rw [← Db.lookup_congr same, ← Db.lookup_congr same, found, found']
    have declaration : SameDeclaration t u :=
      ⟨listing'.name.trans listing.name.symm,
        listing'.declared.columns.trans listing.declared.columns.symm,
        listing'.declared.key.trans listing.declared.key.symm⟩
    have perm : held.Perm (paths.foldl replaced held) := by
      refine (List.perm_ext_iff_of_nodup distinct (nodup_replaced distinct)).mpr fun p => ?_
      rw [mem_replaced]
      exact (or_iff_left_of_imp (stale p)).symm
    refine .some ⟨declaration, ?_⟩
    rw [listing.rows, listing'.rows]
    exact perm.map _
  · by_cases register : fold (text "_playlist") = fold n
    · rw [← Db.lookup_congr register, ← Db.lookup_congr register, leaves.register]
      cases there : db.lookup "_playlist" with
      | none => exact .none
      | some r => exact .some ⟨⟨rfl, rfl, rfl⟩, replace_perm (registered r there) (own r there)⟩
    · rw [leaves.others n same register]
      cases db.lookup n with
      | none => exact .none
      | some t => exact .some ⟨.refl t, .rfl⟩

/-- Importing a file that has been imported moves rows at most, if no position was saved. -/
theorem unchanged_of_imported (already : Imported db name source paths) (registered : Registered db)
    (usable : Usable name) (file : nul ∉ source) (some_ : paths ≠ []) (lines : ∀ p ∈ paths, nul ∉ p)
    (zero : ∀ k, Saved db name k → k = 0)
    (ran : execAll db (importTexts name source paths false) = some after) : Unchanged db after := by
  obtain ⟨⟨spelt, held, contains, distinct, exactly⟩, r, position, there, own⟩ := already
  obtain ⟨after', ran', leaves⟩ := exec_construct registered usable file some_ (.inl contains)
  cases ran.symm.trans ran'
  refine unchanged_of_leaves leaves registered contains distinct (fun p => (exactly p).mpr) lines ?_
  intro r' there'
  cases there.symm.trans there'
  have held : [.text name, .text source, .int position] ∈ ownRows r name := by
    rw [own]
    exact List.mem_cons_self
  obtain rfl := zero position ⟨r, _, there, List.mem_of_mem_filter held⟩
  exact own

end Statements

/-! ### Imports -/

section Imports

variable {files : Files} {path : Text} {s u : State} {before : Db} {spelt : Text} {held : List Text}

theorem construct_eq (constructible : Constructible files path) : construct files path s =
    if files.Readable path then
      some { s with queries := s.queries ++ importTexts (Files.stem path) path (files.tracks path) false }
    else none := by
  have made : files.playlistOf path = (⟨Files.stem path, files.tracks path⟩,
      [.addToPlaylist (Files.stem path) (files.tracks path), .insertPlaylist (Files.stem path) path]) :=
    if_pos ⟨constructible.present, constructible.playlist⟩
  have answered : (files.present path).isSome = true := by rw [constructible.present]; rfl
  rw [construct, Files.playlist_eq, made]
  by_cases readable : files.Readable path
  · have loads : files.Loads path := ⟨answered, fun _ _ => readable⟩
    rw [if_pos readable, if_pos loads]
    rfl
  · have stuck : ¬ files.Loads path := fun loads => readable (loads.2 constructible.present constructible.playlist)
    rw [if_neg readable, if_neg stuck]
    rfl

theorem readable_of_construct (constructible : Constructible files path) (made : construct files path s = some u) :
    files.Readable path ∧ u = { s with
      queries := s.queries ++ importTexts (Files.stem path) path (files.tracks path) false } := by
  rw [construct_eq constructible, Option.ite_none_right_eq_some] at made
  exact ⟨made.1, (Option.some.inj made.2).symm⟩

/-- Every way of draining the queue leaves this database. -/
theorem drained (constructible : Constructible files path) (made : construct files path s = some u)
    (earlier : execAll s.db s.queries = some before) (registered : Registered before)
    (starts : Starts before (Files.stem path) spelt held) :
    ∃ after, execAll before (importTexts (Files.stem path) path (files.tracks path) false) = some after ∧
      Leaves (Files.stem path) path spelt held (files.tracks path) before after ∧
      (∃ t, Catalog.step.Reaches Action.drains u t ∧ t.queries = []) ∧
      ∀ t, Catalog.step.Reaches Action.drains u t → t.queries = [] → t.db = after := by
  obtain ⟨after, ran, leaves⟩ := exec_construct registered constructible.usable constructible.file
    constructible.some_ starts
  have all : execAll u.db u.queries = some after := by
    rw [(readable_of_construct constructible made).2]
    dsimp only
    rw [exec_all_append, earlier]
    exact ran
  obtain ⟨t, reached, empty, -⟩ := drained_of_exec_all all
  exact ⟨after, ran, leaves, ⟨t, reached, empty⟩, fun u drained empty => db_of_drained all drained empty⟩

/-- If the import refreshes the playlist, then every line could be looked at, and the file names every path that
was there. -/
theorem named_of_refreshes (constructible : Constructible files path)
    (earlier : execAll s.db s.queries = some before) (registered : Registered before)
    (starts : Starts before (Files.stem path) spelt held) (clean : ∀ p ∈ held, nul ∉ p)
    (refreshes : Refreshes files path s before) :
    files.Readable path ∧ (∀ p ∈ held, p ∈ files.tracks path) ∧ ∀ p ∈ files.tracks path, nul ∉ p := by
  obtain ⟨u, made, ⟨t, reached, empty⟩, refreshed⟩ := refreshes
  obtain ⟨after, -, leaves, -, only⟩ := drained constructible made earlier registered starts
  have outcome := refreshed t reached empty
  rw [only t reached empty] at outcome
  obtain ⟨paths, read, -, exactly⟩ := outcome.selected .stored
  obtain ⟨paths', read', -, all⟩ := selected leaves constructible.usable .stored
  cases read.symm.trans read'
  have same (p : Text) : p ∈ imported held (files.tracks path) ↔ p ∈ files.tracks path :=
    (all p).symm.trans (exactly p)
  have lines : ∀ p ∈ files.tracks path, nul ∉ p := by
    by_contra cut
    have stay : imported held (files.tracks path) = held := if_neg cut
    rw [stay] at same
    exact cut fun p member => clean p ((same p).mpr member)
  refine ⟨(readable_of_construct constructible made).1, fun p member => ?_, lines⟩
  apply (same p).mp
  rw [imported, if_pos lines]
  exact mem_replaced.mpr (.inl member)

/-- If the import refreshes the playlist, then no position was saved but zero. -/
theorem zero_of_refreshes (constructible : Constructible files path)
    (earlier : execAll s.db s.queries = some before) (registered : Registered before)
    (starts : Starts before (Files.stem path) spelt held) (refreshes : Refreshes files path s before)
    {k : Int} (saved : Saved before (Files.stem path) k) : k = 0 := by
  obtain ⟨u, made, ⟨t, reached, empty⟩, refreshed⟩ := refreshes
  obtain ⟨after, -, leaves, -, only⟩ := drained constructible made earlier registered starts
  have outcome := refreshed t reached empty
  rw [only t reached empty] at outcome
  have reset := position_reset leaves registered constructible.usable saved .stored
  rw [outcome.position k saved .stored] at reset
  exact Option.some.inj reset

/-- **Old rows stay and the position is reset.** Constructing a playlist from its file and draining
the queue refreshes it exactly when the status of every line can be read, the file names every path the
playlist's table has already, no position other than zero was saved for it, and no track line has a NUL. -/
theorem import_refreshes_iff (constructible : Constructible files path)
    (earlier : execAll s.db s.queries = some before) (registered : Registered before)
    (starts : Starts before (Files.stem path) spelt held) (clean : ∀ p ∈ held, nul ∉ p) :
    Refreshes files path s before ↔ files.Readable path ∧ (∀ p ∈ held, p ∈ files.tracks path) ∧
      (∀ k, Saved before (Files.stem path) k → k = 0) ∧ ∀ p ∈ files.tracks path, nul ∉ p := by
  constructor
  · intro refreshes
    obtain ⟨readable, named, lines⟩ :=
      named_of_refreshes constructible earlier registered starts clean refreshes
    exact ⟨readable, named, fun k => zero_of_refreshes constructible earlier registered starts refreshes, lines⟩
  · rintro ⟨readable, named, zero, lines⟩
    have made := construct_eq (s := s) constructible
    rw [if_pos readable] at made
    obtain ⟨after, ran, leaves, drainable, only⟩ := drained constructible made earlier registered starts
    refine ⟨_, made, drainable, fun t reached empty => ?_⟩
    rw [only t reached empty]
    refine ⟨fun scan => ?_, fun k saved scan => ?_, fun already => ?_⟩
    · obtain ⟨paths, read, distinct, all⟩ := selected leaves constructible.usable scan
      refine ⟨paths, read, distinct, fun p => (all p).trans ?_⟩
      rw [imported, if_pos lines, mem_replaced]
      exact or_iff_right_of_imp (named p)
    · rw [zero k saved]
      exact position_reset leaves registered constructible.usable saved scan
    · exact unchanged_of_imported already registered constructible.usable constructible.file
        constructible.some_ lines zero ran

theorem library_constructible : Constructible library "/a.m3u" :=
  constructible_of_importable library_importable

/-- Into an empty register the file goes as it should. -/
theorem first_import_refreshes : Refreshes library "/a.m3u" (opened registry) registry := by
  have free : Starts registry (Files.stem "/a.m3u") (Files.stem "/a.m3u") [] := .inr ⟨rfl, rfl, rfl⟩
  refine (import_refreshes_iff library_constructible rfl registry_registered free (by simp)).mpr
    ⟨fun _ _ _ => rfl, by simp, ?_, by decide⟩
  rintro k ⟨r, source, found, held⟩
  cases found
  cases held

/-- The register with a position for the playlist, and the table as the file is. -/
def played : Db :=
  (Db.empty.create {
    name := "_playlist"
    columns := Shape.register.columns
    key := Shape.register.key
    rows := [[.text "a", .text "/a.m3u", .int 5]] }).create
    { newPlaylist "a" with rows := pathRows ["x.mp3"] }

/-- The table holds a path that is in the file no more. -/
def outgrown : Db := registry.create { newPlaylist "a" with rows := pathRows ["old.mp3"] }

/-- The second import of a file resets the position, and a path taken out of the file stays. -/
theorem earlier_import_shows :
    Constructible library "/a.m3u" ∧
    (Imported played (Files.stem "/a.m3u") "/a.m3u" (library.tracks "/a.m3u") ∧
      ¬ Refreshes library "/a.m3u" (opened played) played) ∧
    ¬ Refreshes library "/a.m3u" (opened outgrown) outgrown := by
  have same : Files.stem "/a.m3u" = text "a" := by decide
  have tracks : library.tracks "/a.m3u" = [text "x.mp3"] := by decide
  have kept {paths : List Text} : Listing { newPlaylist "a" with rows := pathRows paths } "a" paths :=
    ⟨rfl, ⟨rfl, rfl⟩, rfl⟩
  have there : Contains played "a" "a" ["x.mp3"] := ⟨_, rfl, kept⟩
  have old : Contains outgrown "a" "a" ["old.mp3"] := ⟨_, rfl, kept⟩
  refine ⟨library_constructible, ⟨⟨?_, ?_⟩, fun refreshes => ?_⟩, fun refreshes => ?_⟩
  · rw [same, tracks]
    exact ⟨_, _, there, by simp, by simp⟩
  · exact ⟨_, 5, rfl, by decide⟩
  · have registered : Registered played := by
      intro r found
      cases found
      exact ⟨rfl, rfl⟩
    have saved : Saved played (Files.stem "/a.m3u") 5 :=
      ⟨_, .text "/a.m3u", rfl, by rw [same]; exact List.mem_cons_self⟩
    rw [← same] at there
    have zero := zero_of_refreshes library_constructible rfl registered (.inl there) refreshes saved
    cases zero
  · have registered : Registered outgrown := by
      intro r found
      cases found
      exact ⟨rfl, rfl⟩
    rw [← same] at old
    have named := (named_of_refreshes library_constructible rfl registered (.inl old) (by decide)
      refreshes).2.1 "old.mp3" (by simp)
    rw [tracks] at named
    exact absurd named (by decide)

/-! ### Importing twice -/

/-- With no position saved in between, a second import of the file changes nothing, whatever was in
the playlist before the first. -/
theorem second_import_unchanged {s' t t' u : State} (constructible : Constructible files path)
    (earlier : execAll s.db s.queries = some before) (registered : Registered before)
    (starts : Starts before (Files.stem path) spelt held) (distinct : held.Nodup)
    (lines : ∀ p ∈ files.tracks path, nul ∉ p) (once : construct files path s = some s')
    (first : Catalog.step.Reaches Action.drains s' t) (empty : t.queries = [])
    (twice : construct files path t = some t')
    (second : Catalog.step.Reaches Action.drains t' u) (done : u.queries = []) : Unchanged t.db u.db := by
  obtain ⟨middle, -, leaves, -, only⟩ := drained constructible once earlier registered starts
  obtain rfl := only t first empty
  have registered' : Registered t.db := fun r found => (own_rows_of_leaves leaves registered found).1
  have idle : execAll t.db t.queries = some t.db := by
    rw [empty]
    rfl
  obtain ⟨after, -, leaves', -, only'⟩ := drained constructible twice idle registered' (.inl leaves.contains)
  obtain rfl := only' u second done
  have held' : imported held (files.tracks path) = (files.tracks path).foldl replaced held := if_pos lines
  refine unchanged_of_leaves leaves' registered' leaves.contains ?_ ?_ lines
    fun r found => (own_rows_of_leaves leaves registered found).2
  · rw [held']
    exact nodup_replaced distinct
  · rw [held']
    exact fun p member => mem_replaced.mpr (.inr member)

end Imports

end Sws.Refresh
