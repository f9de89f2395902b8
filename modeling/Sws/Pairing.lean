import Sws.Insertion

/-! Tables and rows of playlists: the two are written by different functions, and removal and saving
touch only one of them. -/
namespace Sws.Pairing

open Database Sql Import Refresh Editing Insertion
open Player (Playlist)

/-- The constructions and operations that write playlists. -/
inductive Action
  /-- The constructor of `playlist` from a file. -/
  | construct (files : Files) (path : Text)
  /-- The constructor from a name. -/
  | create (name : Text)
  /-- `insert_after` with `save`. -/
  | save (p : Playlist) (curr : UInt32) (paths : List Text)
  /-- `db::remove_playlist`. -/
  | remove (name : Text)

namespace Action

/-- The SQL texts of the action. A construction that throws has pushed none. -/
def texts : Action → List Text
  | .construct files path => ((files.playlist path).elim [] Prod.snd).flatMap Call.texts
  | .create name => addToPlaylist name []
  | .save p curr paths => (insertAfter p curr paths true).2
  | .remove name => [removePlaylist name]

/-- The file is one that is imported. -/
structure Imports (files : Files) (path : Text) : Prop where
  present : files.present path = some true
  playlist : Files.isPlaylistFile path
  readable : files.Readable path

/-- The names are such that a table can have them. -/
def Allowed : Action → Prop
  | .construct files path => Imports files path → Usable (Files.stem path) ∧ nul ∉ path
  | .create _ => True
  | .save p _ _ => Usable p.name
  | .remove name => Usable name

end Action

/-- The statements of an action, executed. -/
def step : Steps Db Action := fun db a => execAll db a.texts

/-- There is a table of exactly this name. -/
def Tabled (db : Db) (name : Text) : Prop := ∃ t, db.lookup name = some t ∧ t.name = name

/-- The register has a row for the name. -/
def Rowed (db : Db) (name : Text) : Prop := ∃ r, db.lookup "_playlist" = some r ∧ ownRows r name ≠ []

/-- A name for a playlist: the program has no table of its own under it. -/
structure Ordinary (name : Text) : Prop where
  usable : Usable name
  catalog : fold name ≠ text "db_catalog"
  influences : fold name ≠ text "_influences"

/-- A playlist has a table exactly when it has a row. -/
def Paired (db : Db) : Prop := ∀ n, Ordinary n → (Tabled db n ↔ Rowed db n)

/-- The register is there, and every table a playlist can have is one the program declares. -/
structure Sound (db : Db) : Prop where
  register : ∃ r, db.lookup "_playlist" = some r ∧ Declared .register r
  tables : ∀ n, Usable n → (∃ table, Stands db n table) ∨
    ∃ t shape, db.lookup n = some t ∧ Declared shape t ∧ shape ≠ .playlist

/-- An action that leaves each playlist with both or with neither, given that it finds them so: a file
without tracks is of a playlist with a table, and one with tracks of a playlist whose table has the same
spelling, or that has none; a save stores tracks of a playlist with a table, or no tracks of one without;
and a playlist that is removed has no table. -/
def Meets (db : Db) : Action → Prop
  | .construct files path => Action.Imports files path → Ordinary (Files.stem path) →
      Tabled db (Files.stem path) ∨ (files.tracks path ≠ [] ∧ db.lookup (Files.stem path) = none)
  | .create _ => True
  | .save p curr paths => Ordinary p.name →
      if (insertAfter p curr paths true).1.tracks = [] then db.lookup p.name = none else Tabled db p.name
  | .remove name => Ordinary name → db.lookup name = none

/-- Tables and rows are paired after each of the actions. -/
def PairedThroughout (db : Db) (actions : List Action) : Prop :=
  ∀ done rest after, actions = done ++ rest → step.run db done = some after → Paired after

section Statements

variable {db after : Db} {name n : Text} {paths : List Text}

/-- Names that differ only in case are usable together. -/
theorem usable_congr (usable : Usable name) (same : fold n = fold name) : Usable n := by
  have unclosed : ']' ∉ fold name := mt (mem_fold (by decide) (by decide)).mp usable.unclosed
  have clean : nul ∉ fold name := mt (mem_fold (by decide) (by decide)).mp usable.clean
  rw [← same] at unclosed clean
  exact ⟨mt (mem_fold (by decide) (by decide)).mpr unclosed, mt (mem_fold (by decide) (by decide)).mpr clean,
    same ▸ usable.own, same ▸ usable.apart⟩

theorem Ordinary.congr (ordinary : Ordinary name) (same : fold n = fold name) : Ordinary n :=
  ⟨usable_congr ordinary.usable same, same ▸ ordinary.catalog, same ▸ ordinary.influences⟩

theorem tabled_kept (same : after.lookup n = db.lookup n) : Tabled after n ↔ Tabled db n := by
  rw [Tabled, Tabled, same]

theorem rowed_kept (same : after.lookup "_playlist" = db.lookup "_playlist") : Rowed after n ↔ Rowed db n := by
  rw [Rowed, Rowed, same]

theorem sound_kept (sound : Sound db) (usable : Usable name) (only : Only name db after)
    (own : (∃ table, Stands after name table) ∨
      ∃ t shape, after.lookup name = some t ∧ Declared shape t ∧ shape ≠ .playlist) : Sound after := by
  refine ⟨?_, fun n usable' => ?_⟩
  · rw [only _ usable.apart]
    exact sound.register
  · by_cases same : fold n = fold name
    · rcases own with ⟨table, stands⟩ | ⟨t, shape, found, foreign⟩
      · exact .inl ⟨table, stands.congr same⟩
      · exact .inr ⟨t, shape, (Db.lookup_congr same).trans found, foreign⟩
    · rcases sound.tables n usable' with ⟨table, stands⟩ | ⟨t, shape, found, foreign⟩
      · exact .inl ⟨table, stands.kept (only n (Ne.symm same))⟩
      · exact .inr ⟨t, shape, (only n (Ne.symm same)).trans found, foreign⟩

/-- A table that is no playlist is left alone. -/
theorem exec_foreign {t : Table} {shape : Shape} (usable : Usable name) (found : db.lookup name = some t)
    (declared : Declared shape t) (other : shape ≠ .playlist) (some_ : paths ≠ []) :
    execAll db (addToPlaylist name paths) = some db := by
  obtain ⟨path, paths, rfl⟩ := List.exists_cons_of_ne_nil some_
  have texts := (NamedCall.addPaths (path :: paths)).texts_eq name
  simp only [NamedCall.texts, NamedCall.parts, List.map_cons, List.map_nil] at texts
  have whole : nul ∉ creation.text name := (Bracketed.nul_mem_text usable.clean).not.mpr (clean_text rfl)
  have there : execute db (.createTable true name playlistColumns ["path"]) = .ok db := by
    rw [execute, createTable, usable.own, found]
    rfl
  have created : exec db (creation.text name) = some (db, true) := by
    rw [(create_playlist_denotes usable.unclosed).exec_eq, if_neg whole, there]
    rfl
  have refused := exec_missing (fill_playlist_denotes usable.unclosed (List.cons_ne_nil path paths))
    (insert_rejected found (full_row_rejected declared other (.text path)))
  rw [texts]
  exact exec_all_cons created (exec_all_cons refused rfl)

/-- `add_to_playlist` with some paths makes a table where there is none. -/
theorem exec_adds (sound : Sound db) (usable : Usable name) (some_ : paths ≠ []) :
    ∃ after, execAll db (addToPlaylist name paths) = some after ∧ Sound after ∧ Only name db after ∧
      ∃ t, after.lookup name = some t ∧ t.name = (db.lookup name).elim name (·.name) := by
  have done {spelt : Text} {held : List Text} (starts : Starts db name spelt held)
      (named : spelt = (db.lookup name).elim name (·.name)) :
      ∃ after, execAll db (addToPlaylist name paths) = some after ∧ Sound after ∧ Only name db after ∧
        ∃ t, after.lookup name = some t ∧ t.name = (db.lookup name).elim name (·.name) := by
    obtain ⟨after, ran, contains, only⟩ := exec_add_all usable some_ starts
    refine ⟨after, ran, sound_kept sound usable only (.inl ⟨some _, spelt, contains⟩), only, ?_⟩
    obtain ⟨t, found, listing⟩ := contains
    exact ⟨t, found, listing.name.trans named⟩
  rcases sound.tables name usable with ⟨table, stands⟩ | ⟨t, shape, found, declared, other⟩
  · cases table with
    | none =>
      have absent : db.lookup name = none := stands
      exact done (.inr ⟨absent, rfl, rfl⟩) (by rw [absent]; rfl)
    | some held =>
      obtain ⟨spelt, t, found, listing⟩ := stands
      exact done (.inl ⟨t, found, listing⟩) (by rw [found]; exact listing.name.symm)
  · exact ⟨db, exec_foreign usable found declared other some_, sound, fun _ _ => rfl, t, found,
      by rw [found]; rfl⟩

/-- Which tables there are afterwards, by their exact names. -/
theorem tabled_of_adds {t : Table} (only : Only name db after) (found : after.lookup name = some t)
    (named : t.name = (db.lookup name).elim name (·.name)) :
    Tabled after n ↔ Tabled db n ∨ (n = name ∧ db.lookup name = none) := by
  by_cases same : fold n = fold name
  · have there : after.lookup n = some t := (Db.lookup_congr same).trans found
    have before : db.lookup n = db.lookup name := Db.lookup_congr same
    rw [Tabled, Tabled, there, before]
    cases absent : db.lookup name with
    | none =>
      rw [absent] at named
      have spelt : t.name = name := named
      simp [spelt, eq_comm]
    | some u =>
      rw [absent] at named
      have spelt : t.name = u.name := named
      simp [spelt]
  · have other : n ≠ name := fun eq => same (congrArg fold eq)
    rw [tabled_kept (only n (Ne.symm same))]
    simp [other]

theorem tabled_erase : Tabled (db.erase name) n ↔ Tabled db n ∧ fold n ≠ fold name := by
  by_cases same : fold n = fold name
  · have gone : (db.erase name).lookup n = none := (Db.lookup_congr same).trans Db.lookup_erase_self
    rw [Tabled, gone]
    simp [same]
  · rw [tabled_kept (Db.lookup_erase_of_ne (Ne.symm same))]
    simp [same]

theorem sound_erase (sound : Sound db) (usable : Usable name) : Sound (db.erase name) :=
  sound_kept sound usable (fun _ other => Db.lookup_erase_of_ne other) (.inl ⟨none, Db.lookup_erase_self⟩)

/-- The rows of other names. -/
theorem own_rows_replace_other {r : Table} (declared : Declared .register r) (other : n ≠ name)
    (rest : List Value) : ownRows (r.replace (.text name :: rest)) n = ownRows r n := by
  have kept : Declared .register (r.replace (.text name :: rest)) := ⟨declared.columns, declared.key⟩
  have last : ¬ (Value.text name = .text n) := fun same => other (Value.text.inj same).symm
  simp only [ownRows, register_cell kept, register_cell declared]
  rw [Table.replace, List.filter_append, List.filter_filter]
  simp only [register_conflicts declared, register_cell declared]
  have none : List.filter (fun s : Row => decide (s[0]?.getD .null = .text n)) [.text name :: rest] = [] := by
    simpa using last
  rw [none, List.append_nil]
  refine List.filter_congr fun s _ => ?_
  by_cases own : s[0]?.getD .null = .text n
  · simp [own, other]
  · simp [own]

/-- `insert_playlist` makes a row. -/
theorem exec_registers (sound : Sound db) (usable : Usable name) {source : Text} (file : nul ∉ source) :
    ∃ after ok, exec db (insertPlaylist name source) = some (after, ok) ∧ Sound after ∧
      Only "_playlist" db after ∧ ∀ n, Rowed after n ↔ Rowed db n ∨ n = name := by
  obtain ⟨r, there, declared⟩ := sound.register
  have registered : Registered db := by
    intro r' there'
    cases there.symm.trans there'
    exact declared
  obtain ⟨after, ok, ran, only, lookup⟩ := exec_insert_playlist registered usable.clean file
  rw [there, Option.map_some] at lookup
  refine ⟨after, ok, ran, ⟨⟨_, lookup, declared.columns, declared.key⟩, fun n usable' => ?_⟩, only, fun n => ?_⟩
  · have same := only n usable'.apart.symm
    rcases sound.tables n usable' with ⟨table, stands⟩ | ⟨t, shape, found, foreign⟩
    · exact .inl ⟨table, stands.kept same⟩
    · exact .inr ⟨t, shape, same.trans found, foreign⟩
  · rw [Rowed, Rowed, lookup, there]
    simp only [Option.some.injEq, exists_eq_left']
    by_cases same : n = name
    · subst same
      simp [own_rows_replace declared]
    · simp [own_rows_replace_other declared same, same]

end Statements

/-! ### One action -/

section Actions

variable {db : Db} {a : Action} {name n : Text} {actions : List Action}

theorem paired_erase (paired : Paired db) (usable : Usable name) :
    Paired (db.erase name) ↔ (Ordinary name → db.lookup name = none) := by
  have rows (n : Text) : Rowed (db.erase name) n ↔ Rowed db n :=
    rowed_kept (Db.lookup_erase_of_ne usable.apart)
  constructor
  · intro after ordinary
    by_contra held
    obtain ⟨t, found⟩ := Option.ne_none_iff_exists'.mp held
    have same : fold t.name = fold name := Db.fold_name_of_lookup found
    have own := ordinary.congr same
    have there : Tabled db t.name := ⟨t, (Db.lookup_congr same).trans found, rfl⟩
    have kept := (after t.name own).mpr ((rows _).mpr ((paired t.name own).mp there))
    exact (tabled_erase.mp kept).2 same
  · intro absent n ordinary
    rw [rows, ← paired n ordinary, tabled_erase]
    refine and_iff_left_of_imp fun ⟨t, found, _⟩ same => ?_
    have none := absent (ordinary.congr same.symm)
    cases (Db.lookup_congr same).symm.trans found |>.symm.trans none

/-- A save of some tracks makes the table anew. -/
theorem paired_refill {after : Db} {t : Table} (paired : Paired db) (usable : Usable name)
    (only : Only name (db.erase name) after) (found : after.lookup name = some t) (named : t.name = name) :
    Paired after ↔ (Ordinary name → Tabled db name) := by
  have rows (n : Text) : Rowed after n ↔ Rowed db n :=
    (rowed_kept (only _ usable.apart)).trans (rowed_kept (Db.lookup_erase_of_ne usable.apart))
  have tables (n : Text) : Tabled after n ↔ (Tabled db n ∧ fold n ≠ fold name) ∨ n = name := by
    have gone : (db.erase name).lookup name = none := Db.lookup_erase_self
    rw [tabled_of_adds only found (by rw [gone]; exact named), tabled_erase]
    simp [gone]
  constructor
  · intro after ordinary
    exact (paired name ordinary).mpr ((rows name).mp ((after name ordinary).mp ((tables name).mpr (.inr rfl))))
  · intro there n ordinary
    rw [rows, tables, ← paired n ordinary]
    by_cases same : fold n = fold name
    · obtain ⟨u, held, spelt⟩ := there (ordinary.congr same.symm)
      constructor
      · rintro (⟨tabled, -⟩ | rfl)
        · exact tabled
        · exact ⟨u, held, spelt⟩
      · rintro ⟨v, held', spelt'⟩
        cases ((Db.lookup_congr same).symm.trans held').symm.trans held
        exact .inr (spelt'.symm.trans spelt)
    · have other : n ≠ name := fun eq => same (congrArg fold eq)
      simp [same, other]

/-- An import makes a row, and a table if there are tracks. -/
theorem paired_construct (files : Files) {path : Text} (sound : Sound db) (paired : Paired db)
    (usable : Usable (Files.stem path)) (file : nul ∉ path) :
    ∃ after, execAll db (importTexts (Files.stem path) path (files.tracks path) false) = some after ∧
      Sound after ∧ (Paired after ↔ (Ordinary (Files.stem path) → Tabled db (Files.stem path) ∨
        (files.tracks path ≠ [] ∧ db.lookup (Files.stem path) = none))) := by
  obtain ⟨middle, filled, sound', only, tables⟩ : ∃ middle,
      execAll db (addToPlaylist (Files.stem path) (files.tracks path)) = some middle ∧ Sound middle ∧
        Only (Files.stem path) db middle ∧ ∀ n, Tabled middle n ↔ Tabled db n ∨ (n = Files.stem path ∧
          files.tracks path ≠ [] ∧ db.lookup (Files.stem path) = none) := by
    by_cases none : files.tracks path = []
    · rw [none]
      exact ⟨db, rfl, sound, fun _ _ => rfl, fun n => by simp⟩
    · obtain ⟨middle, ran, sound', only, t, found, named⟩ := exec_adds sound usable none
      refine ⟨middle, ran, sound', only, fun n => ?_⟩
      rw [tabled_of_adds only found named]
      simp [none]
  obtain ⟨after, ok, registered, sound'', elsewhere, rows⟩ := exec_registers sound' usable file
  refine ⟨after, ?_, sound'', ?_⟩
  · rw [importTexts, exec_all_append, filled, Option.bind_some]
    exact exec_all_cons registered rfl
  have rowed (n : Text) : Rowed after n ↔ Rowed db n ∨ n = Files.stem path := by
    rw [rows, rowed_kept (only _ usable.apart)]
  have tabled (n : Text) (ordinary : Ordinary n) : Tabled after n ↔ Tabled db n ∨ (n = Files.stem path ∧
      files.tracks path ≠ [] ∧ db.lookup (Files.stem path) = none) := by
    rw [tabled_kept (elsewhere n ordinary.usable.apart.symm), tables]
  constructor
  · intro pairs ordinary
    have there := (tabled _ ordinary).mp ((pairs _ ordinary).mpr ((rowed _).mpr (.inr rfl)))
    exact there.imp_right And.right
  · intro meets n ordinary
    rw [tabled n ordinary, rowed, ← paired n ordinary]
    by_cases same : n = Files.stem path
    · subst same
      exact iff_of_true ((meets ordinary).imp_right fun made => ⟨rfl, made⟩) (.inr rfl)
    · simp [same]

theorem texts_of_imports {files : Files} {path : Text} (imports : Action.Imports files path) :
    (Action.construct files path).texts = importTexts (Files.stem path) path (files.tracks path) false := by
  have loads : files.Loads path := ⟨by rw [imports.present]; rfl, fun _ _ => imports.readable⟩
  have read : files.present path = some true ∧ Files.isPlaylistFile path := ⟨imports.present, imports.playlist⟩
  rw [Action.texts, Files.playlist_of_loads loads, Files.playlistOf, if_pos read]
  rfl

theorem texts_of_not_imports {files : Files} {path : Text} (spared : ¬ Action.Imports files path) :
    (Action.construct files path).texts = [] := by
  rw [Action.texts, Files.playlist_eq]
  by_cases loads : files.Loads path
  · have unread : ¬ (files.present path = some true ∧ Files.isPlaylistFile path) :=
      fun read => spared ⟨read.1, read.2, loads.2 read.1 read.2⟩
    rw [if_pos loads, Files.playlistOf, if_neg unread]
    rfl
  · rw [if_neg loads]
    rfl

/-- Each action can be executed, and leaves tables and rows paired exactly when it meets the
condition. -/
theorem step_paired (sound : Sound db) (paired : Paired db) (allowed : a.Allowed) :
    ∃ after, step db a = some after ∧ Sound after ∧ (Paired after ↔ Meets db a) := by
  cases a with
  | construct files path =>
    by_cases imports : Action.Imports files path
    · obtain ⟨usable, file⟩ := allowed imports
      obtain ⟨after, ran, sound', iff⟩ := paired_construct files sound paired usable file
      refine ⟨after, ?_, sound', iff.trans ⟨fun meets _ => meets, fun meets => meets imports⟩⟩
      rw [step, texts_of_imports imports]
      exact ran
    · refine ⟨db, ?_, sound, iff_of_true paired fun there => absurd there imports⟩
      rw [step, texts_of_not_imports imports]
      rfl
  | create name => exact ⟨db, rfl, sound, iff_of_true paired trivial⟩
  | save p curr paths =>
    have usable : Usable p.name := allowed
    have first : exec db (removePlaylist p.name) = some (db.erase p.name, true) := exec_drop usable
    by_cases none : (insertAfter p curr paths true).1.tracks = []
    · refine ⟨db.erase p.name, ?_, sound_erase sound usable, ?_⟩
      · have texts : Action.texts (.save p curr paths) = removePlaylist p.name ::
            addToPlaylist p.name (insertAfter p curr paths true).1.tracks := rfl
        rw [step, texts, none]
        exact exec_all_cons first rfl
      · rw [paired_erase paired usable, Meets, if_pos none]
    · obtain ⟨after, ran, sound', only, t, found, named⟩ :=
        exec_adds (sound_erase sound usable) usable none
      refine ⟨after, exec_all_cons first ran, sound', ?_⟩
      rw [Db.lookup_erase_self] at named
      rw [paired_refill paired usable only found named, Meets, if_neg none]
  | remove name =>
    have first : exec db (removePlaylist name) = some (db.erase name, true) := exec_drop allowed
    exact ⟨_, exec_all_cons first rfl, sound_erase sound allowed, paired_erase paired allowed⟩

/-- **Tables and rows.** In every sequence of constructions, saves and removals of playlists, from a
database in which tables and rows are paired, they are paired after each action exactly when each one
meets its condition. -/
theorem paired_throughout_iff (sound : Sound db) (paired : Paired db) (allowed : ∀ a ∈ actions, a.Allowed) :
    PairedThroughout db actions ↔ step.Along (fun db a => Meets db a) db actions := by
  induction actions generalizing db with
  | nil =>
    refine iff_of_true ?_ trivial
    intro done rest after shape ran
    obtain ⟨rfl, rfl⟩ := List.append_eq_nil_iff.mp shape.symm
    cases ran
    exact paired
  | cons a actions ih =>
    obtain ⟨first, others⟩ := List.forall_mem_cons.mp allowed
    obtain ⟨middle, taken, sound', iff⟩ := step_paired sound paired first
    rw [Steps.Along, taken, Option.elim_some, ← iff]
    constructor
    · intro all
      have paired' := all [a] actions middle rfl (Steps.run_cons_iff.mpr ⟨middle, taken, rfl⟩)
      refine ⟨paired', (ih sound' paired' others).mp fun done rest after shape ran => ?_⟩
      exact all (a :: done) rest after (congrArg _ shape) (Steps.run_cons_iff.mpr ⟨middle, taken, ran⟩)
    · rintro ⟨paired', along⟩ done rest after shape ran
      cases done with
      | nil =>
        cases ran
        exact paired
      | cons b done =>
        cases shape
        obtain ⟨middle', taken', ran⟩ := Steps.run_cons_iff.mp ran
        cases taken.symm.trans taken'
        exact (ih sound' paired' others).mpr along done rest after rfl ran

end Actions

theorem registry_lookup {n : Text} (usable : Usable n) : registry.lookup n = none := by
  rw [Db.lookup_eq_none_iff]
  intro t held same
  obtain rfl := List.mem_singleton.mp held
  exact usable.apart same.symm

theorem registry_sound : Sound registry where
  register := ⟨_, rfl, rfl, rfl⟩
  tables := fun _ usable => .inl ⟨none, registry_lookup usable⟩

theorem registry_paired : Paired registry := by
  intro n ordinary
  have absent := registry_lookup ordinary.usable
  refine iff_of_false ?_ ?_
  · rintro ⟨t, found, -⟩
    cases absent.symm.trans found
  · rintro ⟨r, found, rows⟩
    cases found
    exact rows rfl

theorem import_paired : PairedThroughout registry [.construct library "/a.m3u", .create "b"] := by
  have a : Importable library "/a.m3u" := library_importable
  have allowed : ∀ x ∈ [Action.construct library "/a.m3u", .create "b"], x.Allowed := by
    simp only [List.forall_mem_cons]
    exact ⟨fun _ => ⟨a.usable, a.file⟩, trivial, by simp⟩
  refine (paired_throughout_iff registry_sound registry_paired allowed).mpr ⟨?_, ?_⟩
  · exact fun _ ordinary => .inr ⟨a.some_, registry_lookup ordinary.usable⟩
  · cases step registry (.construct library "/a.m3u") with
    | none => trivial
    | some middle => exact ⟨trivial, trivial⟩

/-- A playlist made by its name has no row, and saving it makes a table. -/
theorem saved_without_row : ¬ ∀ db actions, Sound db → Paired db → (∀ a ∈ actions, a.Allowed) →
    PairedThroughout db actions := by
  intro all
  have usable : Usable (text "Mix") := by decide
  have ordinary : Ordinary (text "Mix") := ⟨usable, by decide, by decide⟩
  have allowed : ∀ a ∈ [Action.create "Mix", .save ⟨"Mix", []⟩ 0 [text "b.mp3"]], a.Allowed := by
    simp only [List.forall_mem_cons]
    exact ⟨trivial, usable, by simp⟩
  obtain ⟨after, taken, -, iff⟩ := step_paired (a := .save ⟨"Mix", []⟩ 0 [text "b.mp3"]) registry_sound
    registry_paired usable
  have paired := all registry _ registry_sound registry_paired allowed _ [] after (List.append_nil _).symm
    (Steps.run_cons_iff.mpr ⟨registry, rfl, Steps.run_cons_iff.mpr ⟨after, taken, rfl⟩⟩)
  have meets := iff.mp paired ordinary
  rw [if_neg (by decide)] at meets
  obtain ⟨t, found, -⟩ := meets
  cases (registry_lookup usable).symm.trans found

end Sws.Pairing
