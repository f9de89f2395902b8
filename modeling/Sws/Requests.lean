import Sws.Database.Literals
import Sws.Database.Naming
import Sws.Database.Update
import Sws.Durations
import Sws.Influences
import Sws.Library
import Sws.Pairing
import Sws.Schedules
import Sws.Track

/-! Everything `db` pushes, and the library it makes of the file: each text does one change, so a file
holds a library after every statement, wherever the queue is cut and however often it is opened. -/
namespace Sws

open Database Sql Import Editing Pairing

/-- A call of a function of `db` that pushes. -/
inductive Request
  | insertPath (path : Text)
  | insertTrack (s : Song)
  | insertInfluence (artist influence : Text)
  | addPath (name path : Text)
  | addPaths (name : Text) (paths : List Text)
  | insertPlaylist (name source : Text)
  | updateTrack (s : Song)
  | setPlaylistCurrent (name : Text) (current : Int)
  | removeTrack (path : Text)
  | removePath (name path : Text)
  | removePaths (name : Text) (paths : List Text)
  | removePlaylist (name : Text)
  | updateDuration (path : Text) (duration : Double)
  deriving DecidableEq, Repr

namespace Request

def texts : Request → List Text
  | .insertPath path => [Database.insertPath path]
  | .insertTrack s => [Database.insertTrack s]
  | .insertInfluence artist influence => [Influences.insertInfluence artist influence]
  | .addPath name path => addPathToPlaylist name path
  | .addPaths name paths => addToPlaylist name paths
  | .insertPlaylist name source => [Database.insertPlaylist name source]
  | .updateTrack s => [Database.updateTrack s]
  | .setPlaylistCurrent name current => [Database.setPlaylistCurrent name current]
  | .removeTrack path => [Database.removeTrack path]
  | .removePath name path => removePathFromPlaylist name path
  | .removePaths name paths => removeFromPlaylist name paths
  | .removePlaylist name => [Database.removePlaylist name]
  | .updateDuration path duration => [Database.updateDuration path duration]

/-- A change by a text with these strings in it: a NUL ends the text inside a literal. -/
def whole (strings : List Text) (c : Change) : Change := if ∃ s ∈ strings, nul ∈ s then .none else c

/-- What each text of the request does. -/
def changes : Request → List Change
  | .insertPath path => [whole [path] (.catalog (.enter { path := path }))]
  | .insertTrack s =>
    [whole [s.path, s.title, s.album, s.artist, s.spotifyId, s.md5] (.catalog (.enter (.ofSong s)))]
  | .insertInfluence artist influence => [whole [artist, influence] (.influence (artist, influence))]
  | .addPath name path => [whole [path] (.playlist name (.add {path}))]
  | .addPaths _ [] => []
  | .addPaths name paths => [.playlist name .create, whole paths (.playlist name (.add paths.toFinset))]
  | .insertPlaylist name source => [whole [name, source] (.register name (.source source))]
  | .updateTrack _ => [.none]
  | .setPlaylistCurrent name current => [whole [name] (.register name (.current current))]
  | .removeTrack path => [whole [path] (.catalog (.remove path))]
  | .removePath name path => [whole [path] (.playlist name (.remove path))]
  | .removePaths name paths => paths.map fun path => whole [path] (.playlist name (.remove path))
  | .removePlaylist name => [.playlist name .drop]
  | .updateDuration path duration => [whole [path] (.catalog (.time path duration.millionths))]

/-- What goes into a text as it is needs no quoting, and a playlist's name is none of the program's own. -/
def Plain : Request → Prop
  | .insertTrack s => quote ∉ s.spotifyId ∧ quote ∉ s.md5
  | .insertInfluence artist influence => quote ∉ artist ∧ quote ∉ influence
  | .addPath name _ | .addPaths name _ | .removePath name _ | .removePaths name _ | .removePlaylist name =>
    Ordinary name
  | _ => True

end Request

/-! ### What the tables hold -/

/-- No table of the program's own has the name. -/
structure Foreign (name : Text) : Prop where
  catalog : fold name ≠ fold (text "db_catalog")
  influences : fold name ≠ fold (text "_influences")
  register : fold name ≠ fold (text "_playlist")

theorem foreign_of_ordinary {name : Text} (ordinary : Ordinary name) : Foreign name where
  catalog := ordinary.catalog
  influences := ordinary.influences
  register := ordinary.usable.apart

def Catalogued (db : Db) (entries : Multiset Entry) : Prop :=
  ∃ (t : Table) (stored : List Entry), db.lookup "db_catalog" = some t ∧ t.name = text "db_catalog" ∧
    Declared .catalog t ∧ t.rows = stored.map Entry.row ∧ (stored : Multiset Entry) = entries

/-- The row of a registered name. -/
def registerRow (name : Text) (r : Text × Int) : Row := [.text name, .text r.1, .int r.2]

def Registering (db : Db) (register : Text → Option (Text × Int)) : Prop :=
  ∃ t, db.lookup "_playlist" = some t ∧ Declared .register t ∧
    ∀ n, ownRows t n = ((register n).map (registerRow n)).toList

def Influencing (db : Db) (influences : Finset (Text × Text)) : Prop :=
  ∃ t held, db.lookup "_influences" = some t ∧ Declared .influences t ∧ t.rows = Influences.pairRows held ∧
    held.Nodup ∧ held.toFinset = influences

def Shelved (db : Db) (name : Text) : Option (Text × Finset Text) → Prop
  | none => db.lookup name = none
  | some (spelt, held) => ∃ paths, Contains db name spelt paths ∧ paths.toFinset = held

/-- The database holds the library, and no table besides. -/
structure Represents (db : Db) (l : Library) : Prop where
  catalog : Catalogued db l.entries
  register : Registering db l.register
  influences : Influencing db l.influences
  playlists : ∀ n, Foreign n → Shelved db n (l.playlists (fold n))

section Frames

variable {db after : Db} {l : Library} {name n : Text} {playlist : Option (Text × Finset Text)}

theorem Catalogued.kept {entries : Multiset Entry} (held : Catalogued db entries)
    (same : after.lookup "db_catalog" = db.lookup "db_catalog") : Catalogued after entries := by
  unfold Catalogued
  rwa [same]

theorem Registering.kept {register : Text → Option (Text × Int)} (held : Registering db register)
    (same : after.lookup "_playlist" = db.lookup "_playlist") : Registering after register := by
  unfold Registering
  rwa [same]

theorem Influencing.kept {influences : Finset (Text × Text)} (held : Influencing db influences)
    (same : after.lookup "_influences" = db.lookup "_influences") : Influencing after influences := by
  unfold Influencing
  rwa [same]

theorem Shelved.kept (shelved : Shelved db name playlist) (same : after.lookup n = db.lookup name) :
    Shelved after n playlist := by
  cases playlist with
  | none => exact same.trans shelved
  | some p =>
    obtain ⟨paths, ⟨t, found, listing⟩, held⟩ := shelved
    exact ⟨paths, ⟨t, same.trans found, listing⟩, held⟩

theorem Represents.on_catalog (holds : Represents db l) (only : Only "db_catalog" db after) {entries : Multiset Entry}
    (now : Catalogued after entries) : Represents after { l with entries := entries } where
  catalog := now
  register := holds.register.kept (only _ (by decide))
  influences := holds.influences.kept (only _ (by decide))
  playlists := fun n foreign => (holds.playlists n foreign).kept (only n foreign.catalog.symm)

theorem Represents.on_register (holds : Represents db l) (only : Only "_playlist" db after)
    {register : Text → Option (Text × Int)} (now : Registering after register) :
    Represents after { l with register := register } where
  catalog := holds.catalog.kept (only _ (by decide))
  register := now
  influences := holds.influences.kept (only _ (by decide))
  playlists := fun n foreign => (holds.playlists n foreign).kept (only n foreign.register.symm)

theorem Represents.on_influences (holds : Represents db l) (only : Only "_influences" db after)
    {influences : Finset (Text × Text)} (now : Influencing after influences) :
    Represents after { l with influences := influences } where
  catalog := holds.catalog.kept (only _ (by decide))
  register := holds.register.kept (only _ (by decide))
  influences := now
  playlists := fun n foreign => (holds.playlists n foreign).kept (only n foreign.influences.symm)

theorem Represents.on_playlist (holds : Represents db l) (foreign : Foreign name) (only : Only name db after)
    (now : Shelved after name playlist) :
    Represents after { l with playlists := Function.update l.playlists (fold name) playlist } where
  catalog := holds.catalog.kept (only _ foreign.catalog)
  register := holds.register.kept (only _ foreign.register)
  influences := holds.influences.kept (only _ foreign.influences)
  playlists := by
    intro n foreign'
    dsimp only
    by_cases same : fold n = fold name
    · rw [same, Function.update_self]
      exact now.kept (Db.lookup_congr same)
    · rw [Function.update_of_ne same]
      exact (holds.playlists n foreign').kept (only n (Ne.symm same))

end Frames

/-! ### What the texts do -/

/-- The text does to every database what the change does to the library that the database holds. -/
def Means (q : Text) (c : Change) : Prop :=
  ∀ db l, Represents db l → ∃ after ok, exec db q = some (after, ok) ∧ Represents after (l.apply c)

section Texts

variable {name path : Text} {q : Text} {c : Change}

theorem means_of_unchanged (same : ∀ db l, Represents db l → ∃ ok, exec db q = some (db, ok)) : Means q .none := by
  intro db l holds
  obtain ⟨ok, ran⟩ := same db l holds
  exact ⟨db, ok, ran, holds⟩

/-- A text that denotes a statement, and is cut exactly where one of its strings has a NUL. -/
theorem means_whole {s : Stmt} {strings : List Text} (denotes : Denotes q s)
    (cut : nul ∈ q ↔ ∃ t ∈ strings, nul ∈ t)
    (does : ∀ db l, Represents db l →
      ∃ after ok, outcome db (execute db s) = some (after, ok) ∧ Represents after (l.apply c)) :
    Means q (Request.whole strings c) := by
  intro db l holds
  rw [denotes.exec_eq, Request.whole]
  by_cases short : nul ∈ q
  · rw [if_pos short, if_pos (cut.mp short)]
    exact ⟨db, false, rfl, holds⟩
  · rw [if_neg short, if_neg (mt cut.mpr short)]
    exact does db l holds

/-! #### The catalog -/

/-- A statement that replaces the rows of the catalog by those of other entries. -/
theorem holds_catalog_rows {db : Db} {l : Library} {s : Stmt} {change : CatalogChange} (holds : Represents db l)
    (table : s.table = "db_catalog")
    (does : ∀ (t : Table) (stored : List Entry), db.lookup "db_catalog" = some t → Declared .catalog t →
      t.rows = stored.map Entry.row → ∃ stored' : List Entry,
        execute db s = .ok (db.put { t with rows := stored'.map Entry.row }) ∧
        (stored' : Multiset Entry) = change.apply stored) :
    ∃ after ok, outcome db (execute db s) = some (after, ok) ∧ Represents after (l.apply (.catalog change)) := by
  obtain ⟨t, stored, found, named, declared, rows, entries⟩ := holds.catalog
  obtain ⟨stored', ran, changed⟩ := does t stored found declared rows
  refine ⟨_, true, congrArg (outcome db) ran, ?_⟩
  have only : Only "db_catalog" db (db.put { t with rows := stored'.map Entry.row }) :=
    fun n other => execute_frame ran (by rwa [table])
  refine holds.on_catalog only ⟨_, stored', Db.lookup_put_self found ?_, named, ?_, rfl, ?_⟩
  · exact Db.fold_name_of_lookup (t := t) found
  · exact ⟨declared.columns, declared.key⟩
  · rw [changed, entries]

theorem insert_path_means (path : Text) :
    Means (Database.insertPath path) (Request.whole [path] (.catalog (.enter { path := path }))) := by
  refine means_whole (insert_path_denotes path) (by simp [nul_mem_insert_path]) fun db l holds => ?_
  refine holds_catalog_rows holds rfl fun t stored found declared rows => ?_
  refine ⟨stored ++ [{ path := path }], ?_, ?_⟩
  · rw [insert_path_eq found declared, rows, List.map_append]
    rfl
  · rw [← Multiset.coe_add, add_comm]
    rfl

theorem insert_track_means {s : Song} (id : quote ∉ s.spotifyId) (hash : quote ∉ s.md5) :
    Means (Database.insertTrack s)
      (Request.whole [s.path, s.title, s.album, s.artist, s.spotifyId, s.md5] (.catalog (.enter (.ofSong s)))) := by
  refine means_whole (insert_track_denotes id hash) (nul_mem_insert_track s) fun db l holds => ?_
  refine holds_catalog_rows holds rfl fun t stored found declared rows => ?_
  refine ⟨stored ++ [.ofSong s], ?_, ?_⟩
  · rw [insert_track_eq found declared, rows, List.map_append]
    rfl
  · rw [← Multiset.coe_add, add_comm]
    rfl

/-- The rows of a path, with another duration. -/
theorem timed_rows {t : Table} (declared : Declared .catalog t) (stored : List Entry) (path : Text)
    (millionths : Int) :
    ((stored.map Entry.row).map fun r =>
        if t.selects [{ operand := .column "path", value := .text path }] r then r.set 7 (.real millionths) else r) =
      (stored.map (CatalogChange.timed path millionths)).map Entry.row := by
  rw [List.map_map, List.map_map]
  refine List.map_congr_left fun e _ => ?_
  rw [Function.comp_apply, Function.comp_apply, selects_path, e.cell_path declared, CatalogChange.timed]
  by_cases own : e.path = path <;> simp [own, Entry.row]

theorem update_duration_means (path : Text) (duration : Double) : Means (Database.updateDuration path duration)
    (Request.whole [path] (.catalog (.time path duration.millionths))) := by
  refine means_whole (update_duration_denotes path duration) (by simp [Durations.nul_mem_update_duration])
    fun db l holds => ?_
  refine holds_catalog_rows holds rfl fun t stored found declared rows => ?_
  refine ⟨stored.map (CatalogChange.timed path duration.millionths), ?_, rfl⟩
  rw [update_duration_eq found declared, rows, timed_rows declared]

theorem remove_track_denotes (path : Text) : Denotes (Database.removeTrack path)
    (.delete "db_catalog" [{ operand := .column "path", value := .text path }]) :=
  .of_tokens (reads_remove_track path) rfl (by simp) rfl

theorem remove_track_means (path : Text) :
    Means (Database.removeTrack path) (Request.whole [path] (.catalog (.remove path))) := by
  have cut : nul ∈ Database.removeTrack path ↔ ∃ t ∈ [path], nul ∈ t := by
    have before : nul ∉ text "DELETE FROM db_catalog WHERE path='" := clean_text rfl
    have behind : nul ∉ text "';" := clean_text rfl
    simp [Database.removeTrack, before, behind, escape_eq_doubled, mem_doubled]
  refine means_whole (remove_track_denotes path) cut fun db l holds => ?_
  refine holds_catalog_rows holds rfl fun t stored found declared rows => ?_
  have admitted : [({ operand := .column "path", value := .text path } : Condition)].forM t.admits =
      .ok () := by
    obtain ⟨_, columns, key, rows⟩ := t
    cases declared.columns
    rfl
  have others : (t.rows.filter fun r => ¬ t.selects [{ operand := .column "path", value := .text path }] r) =
      (stored.filter (·.path ≠ path)).map Entry.row := by
    rw [rows, List.filter_map]
    refine congrArg (List.map _) (List.filter_congr fun e _ => ?_)
    simp [selects_path, e.cell_path declared]
  refine ⟨stored.filter (·.path ≠ path), ?_, rfl⟩
  rw [delete_eq found admitted, others]

/-- `update_track` pushes no statement. -/
theorem update_track_means (s : Song) : Means (Database.updateTrack s) .none := by
  obtain ⟨t, ts, read, inside, bad⟩ := lex_update_track s
  exact means_of_unchanged fun db _ _ => ⟨false, (exec_bad_start read inside bad).2 db⟩

/-! #### Playlists -/

/-- The table of a playlist, as the library has it. -/
theorem shelved_of_holds {db : Db} {l : Library} (holds : Represents db l) (ordinary : Ordinary name) :
    Shelved db name (l.playlists (fold name)) := holds.playlists name (foreign_of_ordinary ordinary)

theorem create_playlist_means (ordinary : Ordinary name) :
    Means (creation.text name) (.playlist name .create) := by
  intro db l holds
  have usable := ordinary.usable
  have short : nul ∉ creation.text name := (Bracketed.nul_mem_text usable.clean).not.mpr (clean_text rfl)
  have shelved := shelved_of_holds holds ordinary
  have starts : ∃ spelt held, Starts db name spelt held ∧
      (spelt, held.toFinset) = (l.playlists (fold name)).getD (name, ∅) := by
    cases at_ : l.playlists (fold name) with
    | none =>
      rw [at_] at shelved
      exact ⟨name, [], .inr ⟨shelved, rfl, rfl⟩, rfl⟩
    | some p =>
      rw [at_] at shelved
      obtain ⟨paths, contains, held⟩ := shelved
      exact ⟨p.1, paths, .inl contains, Prod.ext rfl held⟩
  obtain ⟨spelt, held, starts, same⟩ := starts
  obtain ⟨after, ran, contains⟩ := create_playlist usable starts
  refine ⟨after, true, ?_, holds.on_playlist (foreign_of_ordinary ordinary)
    (fun n other => execute_frame ran other) ?_⟩
  · rw [(create_playlist_denotes usable.unclosed).exec_eq, if_neg short, ran]
    rfl
  · rw [PlaylistChange.apply, ← same]
    exact ⟨held, contains, rfl⟩

theorem to_finset_fill {held paths : List Text} :
    (paths.foldl replaced held).toFinset = held.toFinset ∪ paths.toFinset := by
  ext p
  rw [List.mem_toFinset, mem_replaced]
  simp

/-- A statement about the table of a playlist, which is rejected where there is none. -/
theorem means_playlist {s : Stmt} {strings : List Text} {change : PlaylistChange} (ordinary : Ordinary name)
    (denotes : Denotes q s) (cut : nul ∈ q ↔ ∃ t ∈ strings, nul ∈ t) (absent : change.apply name none = none)
    (missing : ∀ db : Db, db.lookup name = none → execute db s = .error .rejected)
    (there : ∀ (db : Db) t spelt paths, db.lookup name = some t → Listing t spelt paths → ∃ u paths',
      execute db s = .ok (db.put u) ∧ Listing u spelt paths' ∧
        change.apply name (some (spelt, paths.toFinset)) = some (spelt, paths'.toFinset)) :
    Means q (Request.whole strings (.playlist name change)) := by
  refine means_whole denotes cut fun db l holds => ?_
  have shelved := shelved_of_holds holds ordinary
  have foreign := foreign_of_ordinary ordinary
  cases at_ : l.playlists (fold name) with
  | none =>
    rw [at_] at shelved
    refine ⟨db, false, congrArg (outcome db) (missing db shelved), ?_⟩
    refine holds.on_playlist foreign (fun _ _ => rfl) ?_
    rw [at_, absent]
    exact shelved
  | some p =>
    rw [at_] at shelved
    obtain ⟨paths, ⟨t, found, listing⟩, held⟩ := shelved
    obtain ⟨u, paths', ran, changed, same⟩ := there db t p.1 paths found listing
    obtain ⟨contains, only⟩ := contains_put found listing changed
    refine ⟨_, true, congrArg (outcome db) ran, holds.on_playlist foreign only ?_⟩
    rw [held] at same
    rw [at_, same]
    exact ⟨paths', contains, rfl⟩

theorem add_paths_means {paths : List Text} (ordinary : Ordinary name)
    (denotes : Denotes q (.insert true name none (paths.map fun p => [.text p])))
    (cut : nul ∈ q ↔ ∃ p ∈ paths, nul ∈ p) :
    Means q (Request.whole paths (.playlist name (.add paths.toFinset))) := by
  refine means_playlist ordinary denotes cut rfl (fun db absent => insert_missing absent)
    fun db t spelt held found listing => ?_
  refine ⟨_, paths.foldl replaced held, fill_playlist_eq found listing.declared paths, listing.fill paths, ?_⟩
  rw [to_finset_fill]
  rfl

theorem remove_path_means (ordinary : Ordinary name) (path : Text) :
    Means ((deletion path).text name) (Request.whole [path] (.playlist name (.remove path))) := by
  have cut : nul ∈ (deletion path).text name ↔ ∃ p ∈ [path], nul ∈ p := by
    simp [nul_mem_deletion ordinary.usable.clean]
  refine means_playlist ordinary (delete_path_denotes ordinary.usable.unclosed path) cut rfl
    (fun db absent => delete_missing absent) fun db t spelt held found listing => ?_
  obtain ⟨u, ran, changed⟩ := delete_path_eq found listing path
  refine ⟨u, _, ran, changed, ?_⟩
  have erased : (held.filter (· ≠ path)).toFinset = held.toFinset.erase path := by
    ext p
    simp [and_comm]
  rw [erased]
  rfl

theorem remove_playlist_means (ordinary : Ordinary name) :
    Means (Database.removePlaylist name) (.playlist name .drop) := by
  intro db l holds
  refine ⟨_, true, exec_drop ordinary.usable, ?_⟩
  have gone : Shelved (db.erase name) name none := Db.lookup_erase_self
  exact holds.on_playlist (foreign_of_ordinary ordinary) (fun n other => Db.lookup_erase_of_ne other) gone

/-! #### The register -/

/-- A statement that changes the row of one name. -/
theorem means_register {s : Stmt} {strings : List Text} {change : RegisterChange}
    (denotes : Denotes q s) (cut : nul ∈ q ↔ ∃ t ∈ strings, nul ∈ t)
    (does : ∀ (db : Db) t, db.lookup "_playlist" = some t → Declared .register t → ∃ u : Table,
      execute db s = .ok (db.put u) ∧ fold u.name = fold (text "_playlist") ∧ Declared .register u ∧
        (∀ n, n ≠ name → ownRows u n = ownRows t n) ∧
        ∀ row, ownRows t name = (row.map (registerRow name)).toList →
          ownRows u name = ((change.apply row).map (registerRow name)).toList) :
    Means q (Request.whole strings (.register name change)) := by
  refine means_whole denotes cut fun db l holds => ?_
  obtain ⟨t, found, declared, rows⟩ := holds.register
  obtain ⟨u, ran, named, kept, others, own⟩ := does db t found declared
  refine ⟨_, true, congrArg (outcome db) ran, holds.on_register (fun n other => ?_) ⟨u, ?_, kept, fun n => ?_⟩⟩
  · exact Db.lookup_put_of_ne fun same => other (named.symm.trans same)
  · exact Db.lookup_put_self found named
  · by_cases same : n = name
    · subst same
      rw [Function.update_self]
      exact own _ (rows n)
    · rw [Function.update_of_ne same, others n same, rows n]

theorem nul_mem_insert_playlist {source : Text} :
    nul ∈ Database.insertPlaylist name source ↔ ∃ t ∈ [name, source], nul ∈ t := by
  constructor
  · intro cut
    by_contra free
    simp only [List.exists_mem_cons_iff, List.not_mem_nil, false_and, exists_false, or_false, not_or] at free
    exact clean_insert_playlist free.1 free.2 cut
  · intro held
    simp only [List.exists_mem_cons_iff, List.not_mem_nil, false_and, exists_false, or_false] at held
    refine List.mem_append_left _ ?_
    rcases held with named | file
    · refine List.mem_append_left _ (List.mem_append_left _ (List.mem_append_right _ ?_))
      exact mem_doubled.mpr named
    · exact List.mem_append_right _ (mem_doubled.mpr file)

theorem insert_playlist_means (name source : Text) : Means (Database.insertPlaylist name source)
    (Request.whole [name, source] (.register name (.source source))) := by
  refine means_register (insert_playlist_denotes name source) nul_mem_insert_playlist
    fun db t found declared => ?_
  refine ⟨_, insert_playlist_eq found declared name source, Db.fold_name_of_lookup (t := t) found,
    ⟨declared.columns, declared.key⟩, fun n other => own_rows_replace_other declared other _, fun row _ => ?_⟩
  exact own_rows_replace declared _

/-- Rows changed beside their names. -/
theorem own_rows_map {t u : Table} (declared : Declared .register t) (kept : Declared .register u)
    {change : Row → Row} (rows : u.rows = t.rows.map change) (first : ∀ r, (change r)[0]? = r[0]?) (n : Text) :
    ownRows u n = (ownRows t n).map change := by
  simp only [ownRows, register_cell kept, register_cell declared, rows, List.filter_map, Function.comp_def, first]

theorem set_playlist_current_means (name : Text) (current : Int) :
    Means (Database.setPlaylistCurrent name current) (Request.whole [name] (.register name (.current current))) := by
  have cut : nul ∈ Database.setPlaylistCurrent name current ↔ ∃ t ∈ [name], nul ∈ t := by
    simp [nul_mem_set_playlist_current]
  refine means_register (set_playlist_current_denotes name current) cut fun db t found declared => ?_
  have ran := set_playlist_current_eq found declared name current
  have kept : Declared .register { t with rows := (t.rows.map fun r =>
      if t.selects [{ operand := .column "name", value := .text name }] r then r.set 2 (.int current) else r) } :=
    ⟨declared.columns, declared.key⟩
  have selected (r : Row) : t.selects [{ operand := .column "name", value := .text name }] r =
      decide (r[0]?.getD .null = .text name) := by
    rw [← register_cell declared]
    by_cases own : t.cell r "name" = .text name <;> simp [Table.selects, Table.holds, own]
  have own := own_rows_map declared kept rfl fun r => by split_ifs <;> simp
  refine ⟨_, ran, Db.fold_name_of_lookup (t := t) found, kept, fun n other => ?_, fun row stored => ?_⟩
  · rw [own]
    refine (List.map_congr_left fun r member => if_neg ?_).trans (List.map_id' _)
    have named : t.cell r "name" = .text n := by simpa using (List.mem_filter.mp member).2
    rw [register_cell declared] at named
    rw [selected, named]
    simpa using other
  · rw [own, stored]
    cases row <;> simp [RegisterChange.apply, registerRow, selected]

/-! #### Influences -/

theorem insert_influence_means {artist influence : Text} (first : quote ∉ artist) (second : quote ∉ influence) :
    Means (Influences.insertInfluence artist influence)
      (Request.whole [artist, influence] (.influence (artist, influence))) := by
  have cut : nul ∈ Influences.insertInfluence artist influence ↔ ∃ t ∈ [artist, influence], nul ∈ t := by
    have before : nul ∉ text "REPLACE INTO _influences VALUES('" := clean_text rfl
    have between : nul ∉ text "', '" := clean_text rfl
    have behind : nul ∉ text "');" := clean_text rfl
    simp [Influences.insertInfluence, before, between, behind]
  intro db l holds
  by_cases short : nul ∈ Influences.insertInfluence artist influence
  · rw [Request.whole, if_pos (cut.mp short), (Influences.insert_influence_denotes first second).exec_eq, if_pos short]
    exact ⟨db, false, rfl, holds⟩
  · rw [Request.whole, if_neg (mt cut.mpr short)]
    obtain ⟨t, held, found, declared, rows, apart, pairs⟩ := holds.influences
    obtain ⟨after, u, ran, there, kept, changed⟩ :=
      Influences.exec_insert_influence first second short found declared rows
    refine ⟨after, true, ran, holds.on_influences ?_ ⟨u, _, there, kept, changed, ?_, ?_⟩⟩
    · rw [(Influences.insert_influence_denotes first second).exec_eq, if_neg short] at ran
      rcases outcome_eq_some_iff.mp ran with ⟨-, done⟩ | ⟨failed, -⟩
      · exact fun n other => execute_frame done other
      · cases failed
    · show ([(artist, influence)].foldl moved held).Nodup
      exact nodup_moved apart
    · ext p
      have member : p ∈ [(artist, influence)].foldl moved held ↔ p ∈ held ∨ p ∈ [(artist, influence)] := mem_moved
      simp only [List.foldl_cons, List.foldl_nil, List.mem_singleton] at member
      rw [List.mem_toFinset, member, ← pairs, Finset.mem_insert, List.mem_toFinset, or_comm]

/-! #### Opening -/

def emptyInfluences : Table := { name := "_influences", columns := influencesColumns, key := ["artist", "influence"] }

def emptyRegister : Table := { name := "_playlist", columns := registerColumns, key := ["name"] }

/-- A table that is declared is there afterwards. -/
theorem exec_declares (t : Table) (shape : Shape)
    (denotes : Denotes q (.createTable true t.name shape.columns shape.key))
    (declared : t = { name := t.name, columns := shape.columns, key := shape.key, rows := [] })
    (short : nul ∉ q) (own : (text "sqlite_").isPrefixOf (fold t.name) = false) (db : Db) :
    exec db q = some (db.create t, true) := by
  rw [denotes.exec_eq, if_neg short, execute, ← declared]
  cases found : db.lookup t.name with
  | none =>
    have columns : (t.columns.map fun d => fold d.name).Nodup := by
      rw [declared]
      exact shape_distinct shape
    have key : (t.key.any fun c => (t.index? c).isNone) = false := by
      rw [declared]
      exact shape_keyed shape t.name
    rw [create_eq found own columns key]
    rfl
  | some u =>
    have kept : db.create t = db := dif_neg (by rw [found]; exact Option.some_ne_none u)
    rw [createTable, own, found, kept]
    rfl

theorem create_catalog_eq (db : Db) : exec db createCatalog = some (db.create emptyCatalog, true) :=
  exec_declares emptyCatalog .catalog create_catalog_denotes rfl clean_create_catalog (by decide) db

theorem create_influences_eq (db : Db) : exec db createInfluences = some (db.create emptyInfluences, true) :=
  exec_declares emptyInfluences .influences create_influences_denotes rfl (clean_text rfl)
    (by decide) db

theorem create_playlists_eq (db : Db) : exec db createPlaylists = some (db.create emptyRegister, true) :=
  exec_declares emptyRegister .register create_playlists_denotes rfl (clean_text rfl) (by decide) db

/-- The tables the constructor makes sure of. -/
def ownTables : List Table := [emptyCatalog, emptyInfluences, emptyRegister]

theorem exec_opening (db : Db) (n : Nat) :
    execAll db (opening.take n) = some ((ownTables.take n).foldl Db.create db) := by
  have first := create_catalog_eq db
  have second := create_influences_eq (db.create emptyCatalog)
  have third := create_playlists_eq ((db.create emptyCatalog).create emptyInfluences)
  match n with
  | 0 => rfl
  | 1 => exact exec_all_cons first rfl
  | 2 => exact exec_all_cons first (exec_all_cons second rfl)
  | n + 3 => exact exec_all_cons first (exec_all_cons second (exec_all_cons third (by cases n <;> rfl)))

theorem declares_means {t : Table} (ran : ∀ db, exec db q = some (db.create t, true))
    (there : ∀ db l, Represents db l → (db.lookup t.name).isSome) : Means q .none := by
  refine means_of_unchanged fun db l holds => ⟨true, ?_⟩
  have found := Option.isSome_iff_ne_none.mp (there db l holds)
  have kept : db.create t = db := dif_neg found
  rw [ran, kept]

theorem opening_means : List.Forall₂ Means opening [.none, .none, .none] := by
  refine .cons (declares_means create_catalog_eq fun db l holds => ?_)
    (.cons (declares_means create_influences_eq fun db l holds => ?_)
      (.cons (declares_means create_playlists_eq fun db l holds => ?_) .nil))
  · obtain ⟨t, -, found, -⟩ := holds.catalog
    exact Option.isSome_of_eq_some found
  · obtain ⟨t, -, found, -⟩ := holds.influences
    exact Option.isSome_of_eq_some found
  · obtain ⟨t, found, -⟩ := holds.register
    exact Option.isSome_of_eq_some found

end Texts

/-! ### Requests -/

section Requests

variable {db : Db} {l : Library} {r : Request} {requests : List Request}

/-- **One request.** Each of its texts does the change that belongs to it. -/
theorem Request.means (plain : r.Plain) : List.Forall₂ Means r.texts r.changes := by
  cases r with
  | insertPath path => exact .cons (insert_path_means path) .nil
  | insertTrack s => exact .cons (insert_track_means plain.1 plain.2) .nil
  | insertInfluence artist influence => exact .cons (insert_influence_means plain.1 plain.2) .nil
  | addPath name path =>
    have ordinary : Ordinary name := plain
    have text : addPathToPlaylist name path = [(replacement path).text name] := by
      simp [addPathToPlaylist, replacement, Bracketed.text]
    have cut : nul ∈ (replacement path).text name ↔ ∃ p ∈ [path], nul ∈ p := by
      simp [nul_mem_replacement ordinary.usable.clean]
    rw [texts, text]
    exact .cons (add_paths_means ordinary (replace_path_denotes ordinary.usable.unclosed path) cut) .nil
  | addPaths name paths =>
    cases paths with
    | nil => exact .nil
    | cons path paths =>
      have ordinary : Ordinary name := plain
      have some_ := List.cons_ne_nil path paths
      have shape := (NamedCall.addPaths (path :: paths)).texts_eq name
      simp only [NamedCall.texts, NamedCall.parts, List.map_cons, List.map_nil] at shape
      have cut : nul ∈ (replacements (path :: paths) some_).text name ↔ ∃ p ∈ path :: paths, nul ∈ p := by
        have before : nul ∉ text "] VALUES " := clean_text rfl
        have rows := not_iff_not.mpr (clean_values_iff some_)
        simp only [not_not, not_forall, exists_prop] at rows
        rw [Bracketed.nul_mem_text ordinary.usable.clean, replacements, List.mem_append, or_iff_right before, rows]
      rw [texts, shape]
      exact .cons (create_playlist_means ordinary)
        (.cons (add_paths_means ordinary (fill_playlist_denotes ordinary.usable.unclosed some_) cut) .nil)
  | insertPlaylist name source => exact .cons (insert_playlist_means name source) .nil
  | updateTrack s => exact .cons (update_track_means s) .nil
  | setPlaylistCurrent name current => exact .cons (set_playlist_current_means name current) .nil
  | removeTrack path => exact .cons (remove_track_means path) .nil
  | removePath name path =>
    have text : removePathFromPlaylist name path = [(deletion path).text name] := by
      simp [removePathFromPlaylist, deletion, Bracketed.text]
    rw [texts, text]
    exact .cons (remove_path_means plain path) .nil
  | removePaths name paths =>
    have text : removeFromPlaylist name paths = paths.map fun path => (deletion path).text name := by
      simp [removeFromPlaylist, deletion, Bracketed.text]
    rw [texts, text, changes, List.forall₂_map_left_iff, List.forall₂_map_right_iff, List.forall₂_same]
    exact fun path _ => remove_path_means plain path
  | removePlaylist name => exact .cons (remove_playlist_means plain) .nil
  | updateDuration path duration => exact .cons (update_duration_means path duration) .nil

theorem exec_all_eq_run (db : Db) (queue : List Text) :
    execAll db queue = Steps.run (fun db q => (exec db q).map (·.1)) db queue := by
  induction queue generalizing db with
  | nil => rfl
  | cons q queue ih =>
    rw [execAll, Steps.run, Option.bind_map]
    exact Option.bind_congr fun r _ => ih r.1

/-- Texts that each mean a change mean them all. -/
theorem exec_all_means {queue : List Text} {changes : List Change} (mean : List.Forall₂ Means queue changes)
    (holds : Represents db l) :
    ∃ after, execAll db queue = some after ∧ Represents after (changes.foldl Library.apply l) := by
  rw [exec_all_eq_run]
  refine Steps.run_follows (fun db l q c holds means => ?_) mean holds
  obtain ⟨after, ok, ran, now⟩ := means db l holds
  exact ⟨after, by rw [ran]; rfl, now⟩

theorem requests_mean (plain : ∀ r ∈ requests, r.Plain) :
    List.Forall₂ Means (requests.flatMap Request.texts) (requests.flatMap Request.changes) := by
  induction requests with
  | nil => exact .nil
  | cons r requests ih =>
    obtain ⟨first, others⟩ := List.forall_mem_cons.mp plain
    exact List.rel_append (Request.means first) (ih others)

end Requests

/-! ### The life of a file -/

/-- One run of the program on the file: what it asks for, and how many statements are executed before
the process ends. -/
structure Session where
  requests : List Request
  executed : Nat

namespace Session

def texts (s : Session) : List Text := (opening ++ s.requests.flatMap Request.texts).take s.executed

def changes (s : Session) : List Change :=
  ([Change.none, .none, .none] ++ s.requests.flatMap Request.changes).take s.executed

/-- The session creates every table the program needs. -/
def Opened (s : Session) : Prop := 3 ≤ s.executed

end Session

section Sessions

variable {sessions : List Session} {s : Session}

/-- A file on which that many statements of the constructor have been executed. -/
def created (n : Nat) : Db := (ownTables.take n).foldl Db.create .empty

theorem created_again : ∀ m < 4, ∀ n < 4, (ownTables.take n).foldl Db.create (created m) = created (max m n) := by
  decide

theorem created_represents : Represents (created 3) .empty where
  catalog := ⟨_, [], rfl, rfl, ⟨rfl, rfl⟩, rfl, rfl⟩
  register := ⟨_, rfl, ⟨rfl, rfl⟩, fun _ => rfl⟩
  influences := ⟨_, [], rfl, ⟨rfl, rfl⟩, rfl, List.nodup_nil, rfl⟩
  playlists := by
    intro n foreign
    have tables : (created 3).tables = ownTables := rfl
    refine Db.lookup_eq_none_iff.mpr ?_
    rw [tables]
    simp only [ownTables, List.forall_mem_cons]
    exact ⟨foreign.catalog.symm, foreign.influences.symm, foreign.register.symm, List.forall_mem_nil _⟩

theorem session_of_holds {db : Db} {l : Library} (plain : ∀ r ∈ s.requests, r.Plain) (holds : Represents db l) :
    ∃ after, execAll db s.texts = some after ∧ Represents after (s.changes.foldl Library.apply l) :=
  exec_all_means (List.forall₂_take s.executed (List.rel_append opening_means (requests_mean plain))) holds

/-- A session that gets past the constructor's statements finds every table. -/
theorem session_of_created {n : Nat} (early : n < 4) (plain : ∀ r ∈ s.requests, r.Plain) (past : s.Opened) :
    ∃ after, execAll (created n) s.texts = some after ∧ Represents after (s.changes.foldl Library.apply .empty) := by
  obtain ⟨more, executed⟩ := Nat.exists_eq_add_of_le past
  have length : opening.length = 3 := rfl
  have texts : s.texts = opening ++ (s.requests.flatMap Request.texts).take more := by
    rw [Session.texts, executed, List.take_append, List.take_of_length_le (by omega), length, Nat.add_sub_cancel_left]
  have changes : s.changes = [.none, .none, .none] ++ (s.requests.flatMap Request.changes).take more := by
    rw [Session.changes, executed, List.take_append, List.take_of_length_le (by simp)]
    simp
  have first : execAll (created n) opening = some (created 3) := by
    have done := exec_opening (created n) 3
    rwa [created_again n early 3 (by omega), Nat.max_eq_right (by omega)] at done
  obtain ⟨after, ran, now⟩ := exec_all_means (List.forall₂_take more (requests_mean plain)) created_represents
  rw [changes, List.foldl_append]
  exact ⟨after, by rw [texts, exec_all_append, first, Option.bind_some, ran], now⟩

/-- A session that does not leaves the library empty. -/
theorem session_cut_early {n : Nat} (early : n < 3) (short : ¬ s.Opened) :
    (∃ m < 3, execAll (created n) s.texts = some (created m)) ∧ s.changes.foldl Library.apply .empty = .empty := by
  have few : s.executed < 3 := Nat.lt_of_not_le short
  have texts : s.texts = opening.take s.executed := List.take_append_of_le_length few.le
  have changes : s.changes = [Change.none, .none, .none].take s.executed := List.take_append_of_le_length few.le
  refine ⟨⟨max n s.executed, by omega, ?_⟩, ?_⟩
  · rw [texts, exec_opening, created_again n (by omega) _ (by omega)]
  · rw [changes]
    generalize s.executed = k at few
    interval_cases k <;> rfl

/-- Either the file holds the library, or no session got past the constructor's statements. -/
theorem lifetime_cases (plain : ∀ s ∈ sessions, ∀ r ∈ s.requests, r.Plain) :
    ∃ db, execAll .empty (sessions.flatMap Session.texts) = some db ∧
      (Represents db ((sessions.flatMap Session.changes).foldl Library.apply .empty) ∨
        (∀ s ∈ sessions, ¬ s.Opened) ∧ (∃ n < 3, db = created n) ∧
          (sessions.flatMap Session.changes).foldl Library.apply .empty = .empty) := by
  induction sessions using List.reverseRecOn with
  | nil => exact ⟨.empty, rfl, .inr ⟨List.forall_mem_nil _, ⟨0, by omega, rfl⟩, rfl⟩⟩
  | append_singleton sessions s ih =>
    obtain ⟨before, last⟩ := List.forall_mem_append.mp plain
    have own := last s List.mem_cons_self
    obtain ⟨middle, ran, held⟩ := ih before
    simp only [List.flatMap_append, List.flatMap_singleton, List.foldl_append, exec_all_append, ran,
      Option.bind_some, List.forall_mem_append, List.forall_mem_singleton]
    rcases held with holds | ⟨short, ⟨n, early, rfl⟩, same⟩
    · obtain ⟨after, onwards, now⟩ := session_of_holds own holds
      exact ⟨after, onwards, .inl now⟩
    · rw [same]
      by_cases past : s.Opened
      · obtain ⟨after, onwards, now⟩ := session_of_created (n := n) (by omega) own past
        exact ⟨after, onwards, .inl now⟩
      · obtain ⟨⟨m, few, onwards⟩, still⟩ := session_cut_early early past
        exact ⟨_, onwards, .inr ⟨⟨short, past⟩, ⟨m, few, rfl⟩, still⟩⟩

/-- **The life of a file.** Over any number of sessions on a file that was new, each ended at any
statement, every statement is executed; and once a session has created the tables, the file holds what the
executed statements of all sessions make of an empty library. -/
theorem lifetime_followed (plain : ∀ s ∈ sessions, ∀ r ∈ s.requests, r.Plain) :
    ∃ db, execAll .empty (sessions.flatMap Session.texts) = some db ∧
      ((∃ s ∈ sessions, s.Opened) →
        Represents db ((sessions.flatMap Session.changes).foldl Library.apply .empty)) := by
  obtain ⟨db, ran, held⟩ := lifetime_cases plain
  refine ⟨db, ran, fun ⟨s, member, past⟩ => ?_⟩
  rcases held with holds | ⟨short, -⟩
  · exact holds
  · exact absurd past (short s member)

end Sessions

end Sws
