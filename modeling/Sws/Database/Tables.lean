import Sws.Database.Calls
import Sws.Sql.Effects

/-! The tables the program declares, and what its statements do to them. A table may stand under
any name a file gives it, so a statement meets every declaration. -/
namespace Sws.Database

open Sql

inductive Shape
  | catalog
  | influences
  | register
  | playlist
  deriving DecidableEq, Repr

namespace Shape

def columns : Shape → List ColumnDef
  | .catalog => catalogColumns
  | .influences => influencesColumns
  | .register => registerColumns
  | .playlist => playlistColumns

def key : Shape → List Text
  | .catalog => []
  | .influences => ["artist", "influence"]
  | .register => ["name"]
  | .playlist => ["path"]

end Shape

/-- The table is declared as the program declares tables of this shape. -/
structure Declared (shape : Shape) (t : Table) : Prop where
  columns : t.columns = shape.columns
  key : t.key = shape.key

theorem Declared.of_same {shape : Shape} {t u : Table} (declared : Declared shape t)
    (same : SameDeclaration t u) : Declared shape u :=
  ⟨same.columns.trans declared.columns, same.key.trans declared.key⟩

/-- The catalog as its `CREATE TABLE` leaves it. -/
def emptyCatalog : Table := { name := "db_catalog", columns := catalogColumns }

theorem declared_empty_catalog : Declared .catalog emptyCatalog := ⟨rfl, rfl⟩

/-- The table is created if it is not there. -/
theorem exec_create_catalog (db : Db) : exec db createCatalog =
    some (if (db.lookup "db_catalog").isSome then db else db.create emptyCatalog, true) := by
  rw [create_catalog_denotes.exec_eq, if_neg clean_create_catalog, execute]
  split
  next there =>
    have name : (text "sqlite_").isPrefixOf (fold (text "db_catalog")) = false := by decide
    simp [createTable, name, there, outcome]
  next absent =>
    have free : db.lookup emptyCatalog.name = none := by simpa [emptyCatalog] using absent
    have created := create_eq (t := emptyCatalog) free (by decide) (by decide) rfl
    exact congrArg (outcome db) created

/-! ### Rows -/

/-- The row of a path that has only been seen. -/
def pathRow (path : Text) : Row :=
  [.text path, .text "", .int 0, .text "", .int 0, .text "", .int 0, .real 0, .text "", .text "-1"]

section Rows

variable {t : Table}

theorem full_row_path (declared : Declared .catalog t) (path : Text) :
    t.fullRow (some ["path"]) [.text path] = .ok (pathRow path) := by
  obtain ⟨name, columns, key, rows⟩ := t
  cases declared.columns
  rfl

theorem full_row_track (declared : Declared .catalog t) (s : Song) :
    t.fullRow none s.values = .ok s.values := by
  obtain ⟨name, columns, key, rows⟩ := t
  cases declared.columns
  rfl

theorem full_row_playlist (declared : Declared .playlist t) (path : Text) :
    t.fullRow none [.text path] = .ok [.text path] := by
  obtain ⟨name, columns, key, rows⟩ := t
  cases declared.columns
  rfl

theorem full_row_register (declared : Declared .register t) (name source : Text) :
    t.fullRow (some ["name", "source"]) [.text name, .text source] =
      .ok [.text name, .text source, .int 0] := by
  obtain ⟨_, columns, key, rows⟩ := t
  cases declared.columns
  rfl

/-- One value is no row of a table that is no playlist. -/
theorem full_row_rejected {shape : Shape} (declared : Declared shape t) (other : shape ≠ .playlist)
    (v : Value) : t.fullRow none [v] = .error .rejected := by
  obtain ⟨name, columns, key, rows⟩ := t
  cases declared.columns
  cases shape with
  | playlist => exact absurd rfl other
  | _ => rfl

/-- Only the register has columns `name` and `source`. -/
theorem full_row_unregistered {shape : Shape} (declared : Declared shape t) (other : shape ≠ .register)
    (v w : Value) : t.fullRow (some ["name", "source"]) [v, w] = .error .rejected := by
  obtain ⟨name, columns, key, rows⟩ := t
  cases declared.columns
  cases shape with
  | register => exact absurd rfl other
  | _ => rfl

end Rows

/-! ### Statements -/

section Statements

variable {db : Db} {t : Table}

theorem insert_path_eq (found : db.lookup "db_catalog" = some t) (declared : Declared .catalog t)
    (path : Text) : execute db (.insert false "db_catalog" (some ["path"]) [[.text path]]) =
      .ok (db.put { t with rows := t.rows ++ [pathRow path] }) := by
  have free : ∀ d ∈ t.columns, d.notNull = false := by
    rw [declared.columns]
    decide
  rw [insert_eq [pathRow path] found (by rw [List.mapM_cons, full_row_path declared]; rfl),
    List.foldlM_cons, Table.insert_row_keyless free declared.key]
  rfl

theorem insert_track_eq (found : db.lookup "db_catalog" = some t) (declared : Declared .catalog t)
    (s : Song) : execute db (.insert false "db_catalog" none [s.values]) =
      .ok (db.put { t with rows := t.rows ++ [s.values] }) := by
  have free : ∀ d ∈ t.columns, d.notNull = false := by
    rw [declared.columns]
    decide
  rw [insert_eq [s.values] found (by rw [List.mapM_cons, full_row_track declared]; rfl),
    List.foldlM_cons, Table.insert_row_keyless free declared.key]
  rfl

theorem update_duration_eq (found : db.lookup "db_catalog" = some t) (declared : Declared .catalog t)
    (path : Text) (millionths : Int) :
    let filter : List Condition := [{ operand := .column "path", value := .text path }]
    execute db (.update "db_catalog" [("duration", .real millionths)] filter) =
      .ok (db.put { t with
        rows := t.rows.map fun r => if t.selects filter r then r.set 7 (.real millionths) else r }) := by
  obtain ⟨name, columns, key, rows⟩ := t
  obtain ⟨⟨⟩, ⟨⟩⟩ := declared
  exact update_eq found rfl rfl rfl fun _ => rfl

theorem set_playlist_current_eq (found : db.lookup "_playlist" = some t) (declared : Declared .register t)
    (name : Text) (current : Int) :
    let filter : List Condition := [{ operand := .column "name", value := .text name }]
    execute db (.update "_playlist" [("current", .int current)] filter) =
      .ok (db.put { t with
        rows := t.rows.map fun r => if t.selects filter r then r.set 2 (.int current) else r }) := by
  obtain ⟨_, columns, key, rows⟩ := t
  obtain ⟨⟨⟩, ⟨⟩⟩ := declared
  exact update_eq found rfl rfl rfl fun _ => rfl

theorem insert_playlist_eq (found : db.lookup "_playlist" = some t) (declared : Declared .register t)
    (name source : Text) :
    execute db (.insert true "_playlist" (some ["name", "source"]) [[.text name, .text source]]) =
      .ok (db.put (t.replace [.text name, .text source, .int 0])) := by
  have free : ∀ d ∈ t.columns, d.notNull = false := by
    rw [declared.columns]
    decide
  rw [insert_eq [[.text name, .text source, .int 0]] found
    (by rw [List.mapM_cons, full_row_register declared]; rfl), Table.insert_all_replace free]
  rfl

theorem fill_playlist_eq {name : Text} (found : db.lookup name = some t) (declared : Declared .playlist t)
    (paths : List Text) :
    execute db (.insert true name none (paths.map fun p => [.text p])) =
      .ok (db.put ((paths.map fun p => [Value.text p]).foldl Table.replace t)) := by
  have free : ∀ d ∈ t.columns, d.notNull = false := by
    rw [declared.columns]
    decide
  have each : (fun p => t.fullRow none [.text p]) = fun p => (pure [.text p] : Except Fault Row) :=
    funext fun p => full_row_playlist declared p
  have built : (paths.map fun p => [Value.text p]).mapM (t.fullRow none) =
      .ok (paths.map fun p => [Value.text p]) := by
    rw [List.mapM_map]
    exact (congrArg (List.mapM · paths) each).trans List.mapM_pure
  rw [insert_eq _ found built, Table.insert_all_replace free]
  rfl

theorem select_track_eq (scan : Scan) (found : db.lookup "db_catalog" = some t)
    (declared : Declared .catalog t) (path : Text) :
    let columns : List Text :=
      ["title", "track_no", "album", "year", "artist", "favorite", "spotify_id", "file_hash"]
    let filter : List Condition := [{ operand := .column "path", value := .text path }]
    select scan db (.select false columns "db_catalog" filter) =
      .ok (((scan.rows (.select false columns "db_catalog" filter) t).filter (t.selects filter)).map
        fun r => columns.map (t.cell r)) := by
  obtain ⟨name, columns, key, rows⟩ := t
  obtain ⟨⟨⟩, ⟨⟩⟩ := declared
  exact select_eq scan ((source_eq (by decide)).trans found) rfl rfl

/-- Only the register has a column `current`. -/
theorem set_playlist_current_rejected {shape : Shape} (found : db.lookup "_playlist" = some t)
    (declared : Declared shape t) (other : shape ≠ .register) (current : Int) (filter : List Condition) :
    execute db (.update "_playlist" [("current", .int current)] filter) = .error .rejected := by
  refine update_rejected found ?_
  obtain ⟨name, columns, key, rows⟩ := t
  cases declared.columns
  cases shape with
  | register => exact absurd rfl other
  | _ => rfl

end Statements

/-! ### Databases of the program -/

/-- Every table is declared as the program declares tables. -/
def Shaped (db : Db) : Prop := ∀ t ∈ db.tables, ∃ shape, Declared shape t

/-- The statements of the modelled calls, and the declarations. -/
inductive Known : Stmt → Prop
  | create (name : Text) (shape : Shape) : Known (.createTable true name shape.columns shape.key)
  | fillPlaylist (name path : Text) (paths : List Text) :
    Known (.insert true name none ((path :: paths).map fun p => [.text p]))
  | insertPath (path : Text) : Known (.insert false "db_catalog" (some ["path"]) [[.text path]])
  | insertTrack (s : Song) : Known (.insert false "db_catalog" none [s.values])
  | updateDuration (path : Text) (millionths : Int) :
    Known (.update "db_catalog" [("duration", .real millionths)]
      [{ operand := .column "path", value := .text path }])
  | insertPlaylist (name source : Text) :
    Known (.insert true "_playlist" (some ["name", "source"]) [[.text name, .text source]])
  | setPlaylistCurrent (name : Text) (current : Int) :
    Known (.update "_playlist" [("current", .int current)]
      [{ operand := .column "name", value := .text name }])

theorem Call.known (c : Call) : ∀ s ∈ c.stmts, Known s := by
  cases c with
  | insertPath path => exact List.forall_mem_singleton.mpr (.insertPath path)
  | insertTrack s => exact List.forall_mem_singleton.mpr (.insertTrack s)
  | updateDuration path duration =>
    exact List.forall_mem_singleton.mpr (.updateDuration path duration.millionths)
  | addToPlaylist name paths =>
    cases paths with
    | nil => exact List.forall_mem_nil _
    | cons path paths =>
      exact List.forall_mem_cons.mpr ⟨.create name .playlist,
        List.forall_mem_singleton.mpr (.fillPlaylist name path paths)⟩
  | insertPlaylist name source => exact List.forall_mem_singleton.mpr (.insertPlaylist name source)
  | setPlaylistCurrent name current =>
    exact List.forall_mem_singleton.mpr (.setPlaylistCurrent name current)

theorem known_texts {calls : List Call} (plain : ∀ c ∈ calls, c.Plain) :
    ∀ q ∈ calls.flatMap Call.texts, ∃ stmt, Denotes q stmt ∧ Known stmt := by
  intro q member
  obtain ⟨c, held, inside⟩ := List.mem_flatMap.mp member
  obtain ⟨stmt, listed, denotes⟩ := Call.text_denotes (plain c held) q inside
  exact ⟨stmt, denotes, c.known stmt listed⟩

section Shaped

variable {db after : Db} {t u : Table} {s : Stmt}

theorem shaped_lookup {n : Text} (shaped : Shaped db) (found : db.lookup n = some t) :
    ∃ shape, Declared shape t := shaped t (Db.mem_of_lookup found)

theorem shaped_put {n : Text} (shaped : Shaped db) (found : db.lookup n = some t)
    (same : SameDeclaration t u) : Shaped (db.put u) := by
  intro v held
  rcases Db.mem_put held with rfl | old
  · obtain ⟨shape, declared⟩ := shaped_lookup shaped found
    exact ⟨shape, declared.of_same same⟩
  · exact shaped v old

theorem known_shaped (known : Known s) (shaped : Shaped db) (ran : execute db s = .ok after) :
    Shaped after := by
  have inserted {replace : Bool} {table : Text} {columns : Option (List Text)} {rows : List (List Value)}
      (ran : execute db (.insert replace table columns rows) = .ok after) : Shaped after := by
    obtain ⟨t, u, full, found, -, -, same, rfl⟩ := insert_ok ran
    exact shaped_put shaped found same
  have updated {table : Text} {sets : List (Text × Value)} {filter : List Condition}
      (ran : execute db (.update table sets filter) = .ok after) : Shaped after := by
    obtain ⟨t, rows, found, -, -, -, rfl⟩ := update_ok ran
    exact shaped_put shaped found ⟨rfl, rfl, rfl⟩
  cases known with
  | create name shape =>
    rcases create_ok ran with ⟨-, rfl⟩ | ⟨-, rfl⟩
    · exact shaped
    · intro v held
      rcases Db.mem_create held with rfl | old
      · exact ⟨shape, rfl, rfl⟩
      · exact shaped v old
  | fillPlaylist | insertPath | insertTrack | insertPlaylist => exact inserted ran
  | updateDuration | setPlaylistCurrent => exact updated ran

/-- What a known statement does to the catalog: one row more, other durations, or nothing. -/
theorem known_catalog (known : Known s) (found : db.lookup "db_catalog" = some t) (declared : Declared .catalog t)
    (ran : execute db s = .ok after) :
    (∃ path, s = .insert false "db_catalog" (some ["path"]) [[.text path]] ∧
      after = db.put { t with rows := t.rows ++ [pathRow path] }) ∨
    (∃ song : Song, s = .insert false "db_catalog" none [song.values] ∧
      after = db.put { t with rows := t.rows ++ [song.values] }) ∨
    (∃ path millionths, let filter : List Condition := [{ operand := .column "path", value := .text path }]
      s = .update "db_catalog" [("duration", .real millionths)] filter ∧
      after = db.put { t with
        rows := t.rows.map fun r => if t.selects filter r then r.set 7 (.real millionths) else r }) ∨
    (∀ table columns rows, s ≠ .insert false table columns rows) ∧ after.lookup "db_catalog" = some t := by
  have register : fold (text "_playlist") ≠ fold (text "db_catalog") := by decide
  cases known with
  | create name shape =>
    refine .inr (.inr (.inr ⟨nofun, ?_⟩))
    rcases create_ok ran with ⟨-, rfl⟩ | ⟨absent, rfl⟩
    · exact found
    · rw [Db.lookup_create_of_ne, found]
      intro same
      have congr : db.lookup name = db.lookup "db_catalog" := Db.lookup_congr same
      cases (absent.symm.trans congr).trans found
  | fillPlaylist name path paths =>
    refine .inr (.inr (.inr ⟨nofun, ?_⟩))
    by_cases same : fold name = fold (text "db_catalog")
    · have named : db.lookup name = some t := (Db.lookup_congr same).trans found
      have refused : execute db (.insert true name none ((path :: paths).map fun p => [.text p])) =
          .error .rejected :=
        insert_rejected named (full_row_rejected declared (by decide) (.text path))
      cases refused.symm.trans ran
    · exact (execute_frame ran same).trans found
  | insertPath path =>
    cases (insert_path_eq found declared path).symm.trans ran
    exact .inl ⟨path, rfl, rfl⟩
  | insertTrack song =>
    cases (insert_track_eq found declared song).symm.trans ran
    exact .inr (.inl ⟨song, rfl, rfl⟩)
  | updateDuration path millionths =>
    cases (update_duration_eq found declared path millionths).symm.trans ran
    exact .inr (.inr (.inl ⟨path, millionths, rfl, rfl⟩))
  | insertPlaylist name source => exact .inr (.inr (.inr ⟨nofun, (execute_frame ran register).trans found⟩))
  | setPlaylistCurrent name current =>
    exact .inr (.inr (.inr ⟨nofun, (execute_frame ran register).trans found⟩))

/-- In a database of the program every known statement has a modelled outcome. -/
theorem known_modelled (known : Known s) (shaped : Shaped db)
    (catalog : ∀ t, db.lookup "db_catalog" = some t → Declared .catalog t) :
    execute db s ≠ .error .unmodelled := by
  have rejected (refused : execute db s = .error .rejected) : execute db s ≠ .error .unmodelled := by
    rw [refused]
    simp
  have done {after : Db} (ran : execute db s = .ok after) : execute db s ≠ .error .unmodelled := by
    rw [ran]
    simp
  cases known with
  | create name shape =>
    rw [execute, createTable]
    split_ifs <;> simp
  | fillPlaylist name path paths =>
    cases found : db.lookup name with
    | none => exact rejected (insert_missing found)
    | some t =>
      obtain ⟨shape, declared⟩ := shaped_lookup shaped found
      by_cases playlist : shape = .playlist
      · subst playlist
        exact done (fill_playlist_eq found declared (path :: paths))
      · exact rejected (insert_rejected found (full_row_rejected declared playlist (.text path)))
  | insertPath path =>
    cases found : db.lookup "db_catalog" with
    | none => exact rejected (insert_missing found)
    | some t => exact done (insert_path_eq found (catalog t found) path)
  | insertTrack s =>
    cases found : db.lookup "db_catalog" with
    | none => exact rejected (insert_missing found)
    | some t => exact done (insert_track_eq found (catalog t found) s)
  | updateDuration path millionths =>
    cases found : db.lookup "db_catalog" with
    | none => exact rejected (update_missing found)
    | some t => exact done (update_duration_eq found (catalog t found) path millionths)
  | insertPlaylist name source =>
    cases found : db.lookup "_playlist" with
    | none => exact rejected (insert_missing found)
    | some t =>
      obtain ⟨shape, declared⟩ := shaped_lookup shaped found
      by_cases register : shape = .register
      · subst register
        exact done (insert_playlist_eq found declared name source)
      · exact rejected (insert_rejected found
          (full_row_unregistered declared register (.text name) (.text source)))
  | setPlaylistCurrent name current =>
    cases found : db.lookup "_playlist" with
    | none => exact rejected (update_missing found)
    | some t =>
      obtain ⟨shape, declared⟩ := shaped_lookup shaped found
      by_cases register : shape = .register
      · subst register
        exact done (set_playlist_current_eq found declared name current)
      · exact rejected (set_playlist_current_rejected found declared register current _)

end Shaped

end Sws.Database
