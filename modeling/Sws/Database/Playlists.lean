import Mathlib.Data.List.Perm.Basic
import Sws.Database.Queries
import Sws.Database.Tables

/-! Playlist tables and their register: what `REPLACE` leaves in them, and how `select_playlist` and
`tables` read them back. -/
namespace Sws.Database

open Sql

variable {t : Table}

/-! ### Keys -/

/-- The first column is the key of a playlist and of the register. -/
theorem conflicts_iff {shape : Shape} (declared : Declared shape t)
    (keyed : shape = .playlist ∨ shape = .register) (r s : Row) :
    t.Conflicts r s ↔ r[0]?.getD .null = s[0]?.getD .null ∧ r[0]?.getD .null ≠ .null := by
  obtain ⟨name, columns, key, rows⟩ := t
  have key : key ≠ [] ∧ ∀ r, Table.keyOf ⟨name, columns, key, rows⟩ r = [r[0]?.getD .null] := by
    obtain ⟨⟨⟩, ⟨⟩⟩ := declared
    rcases keyed with rfl | rfl
    · exact ⟨List.cons_ne_nil _ _, fun _ => rfl⟩
    · exact ⟨List.cons_ne_nil _ _, fun _ => rfl⟩
  simp [Table.Conflicts, key.1, key.2, eq_comm]

theorem register_cell (declared : Declared .register t) (r : Row) :
    t.cell r "name" = r[0]?.getD .null := by
  obtain ⟨name, columns, key, rows⟩ := t
  obtain ⟨⟨⟩, ⟨⟩⟩ := declared
  rfl

theorem playlist_cell (declared : Declared .playlist t) (r : Row) :
    t.cell r "path" = r[0]?.getD .null := by
  obtain ⟨name, columns, key, rows⟩ := t
  obtain ⟨⟨⟩, ⟨⟩⟩ := declared
  rfl

/-! ### Filling a playlist -/

/-- The rows of a playlist's table. -/
def pathRows (paths : List Text) : List Row := paths.map fun p => [.text p]

/-- The keys of a table after one more is put in by `REPLACE`. -/
def moved {α : Type} [DecidableEq α] (held : List α) (a : α) : List α := held.filter (· ≠ a) ++ [a]

theorem mem_moved {α : Type} [DecidableEq α] {held more : List α} {a : α} :
    a ∈ more.foldl moved held ↔ a ∈ held ∨ a ∈ more := by
  induction more generalizing held with
  | nil => simp
  | cons b more ih =>
    rw [List.foldl_cons, ih, moved]
    by_cases same : a = b <;> simp [same]

theorem nodup_moved {α : Type} [DecidableEq α] {held more : List α} (apart : held.Nodup) :
    (more.foldl moved held).Nodup := by
  induction more generalizing held with
  | nil => exact apart
  | cons b more ih =>
    rw [List.foldl_cons]
    apply ih
    rw [moved, List.nodup_append]
    refine ⟨apart.filter _, List.nodup_singleton b, ?_⟩
    intro a member c single same
    rw [List.mem_singleton.mp single] at same
    simpa [same] using (List.mem_filter.mp member).2

/-- The paths after one more is put in by `REPLACE`. -/
def replaced (held : List Text) (path : Text) : List Text := held.filter (· ≠ path) ++ [path]

theorem mem_replaced {held paths : List Text} {p : Text} :
    p ∈ paths.foldl replaced held ↔ p ∈ held ∨ p ∈ paths := mem_moved

/-- A playlist's table with these paths. -/
structure Listing (t : Table) (name : Text) (held : List Text) : Prop where
  name : t.name = name
  declared : Declared .playlist t
  rows : t.rows = pathRows held

/-- A playlist's table as its `CREATE TABLE` leaves it. -/
def newPlaylist (name : Text) : Table := { name := name, columns := playlistColumns, key := ["path"] }

theorem new_playlist_listing (name : Text) : Listing (newPlaylist name) name [] := ⟨rfl, ⟨rfl, rfl⟩, rfl⟩

theorem create_playlist_eq {db : Db} {name : Text} (free : db.lookup name = none)
    (own : (text "sqlite_").isPrefixOf (fold name) = false) :
    execute db (.createTable true name playlistColumns ["path"]) = .ok (db.create (newPlaylist name)) := by
  have distinct : ((newPlaylist name).columns.map fun d => fold d.name).Nodup := by
    simp [newPlaylist, playlistColumns]
  exact create_eq (t := newPlaylist name) free own distinct rfl

theorem Listing.replace {name : Text} {held : List Text} (listing : Listing t name held) (path : Text) :
    Listing (t.replace [.text path]) name (replaced held path) := by
  refine ⟨listing.name, ⟨listing.declared.columns, listing.declared.key⟩, ?_⟩
  have rows : t.rows.filter (fun s => ¬ t.Conflicts [.text path] s) = pathRows (held.filter (· ≠ path)) := by
    rw [listing.rows, pathRows, pathRows, List.filter_map]
    refine congrArg (List.map _) (List.filter_congr fun p _ => ?_)
    simp [conflicts_iff listing.declared (.inl rfl), eq_comm]
  rw [Table.replace, rows]
  simp [pathRows, replaced]

theorem Listing.fill {name : Text} {held : List Text} (listing : Listing t name held) (paths : List Text) :
    Listing ((pathRows paths).foldl Table.replace t) name (paths.foldl replaced held) := by
  induction paths generalizing t held with
  | nil => exact listing
  | cons path paths ih => exact ih (listing.replace path)

/-! ### The register -/

/-- The rows of the register for other playlists. -/
def others (t : Table) (names : List Text) : List Row :=
  t.rows.filter fun r => ∀ n ∈ names, t.cell r "name" ≠ .text n

theorem others_eq (declared : Declared .register t) (names : List Text) :
    others t names = t.rows.filter fun r => ∀ n ∈ names, r[0]?.getD .null ≠ .text n := by
  refine List.filter_congr fun r _ => ?_
  rw [register_cell declared]

/-- Registering a playlist leaves the other rows alone. -/
theorem others_replace (declared : Declared .register t) {name : Text} {names : List Text}
    (named : name ∈ names) (rest : List Value) :
    others (t.replace (.text name :: rest)) names = others t names := by
  have same : Declared .register (t.replace (.text name :: rest)) := ⟨declared.columns, declared.key⟩
  have gone : ¬ ∀ n ∈ names, Value.text name ≠ .text n := fun all => all name named rfl
  have last : List.filter (fun r : Row => decide (∀ n ∈ names, r[0]?.getD .null ≠ .text n))
      [.text name :: rest] = [] := by
    simpa using named
  rw [others_eq same, others_eq declared, Table.replace, List.filter_append, last, List.append_nil,
    List.filter_filter]
  refine List.filter_congr fun r _ => ?_
  simp only [conflicts_iff declared (.inr rfl)]
  by_cases other : ∀ n ∈ names, r[0]?.getD .null ≠ .text n
  · have apart : ¬ (Value.text name = r[0]?.getD .null) := fun same => other name named same.symm
    simp [apart]
  · simp only [other, decide_false, Bool.false_and]

theorem mem_others_row (declared : Declared .register t) {name name' source : Text} (other : name ≠ name')
    (held : [.text name, .text source, .int 0] ∈ t.rows) :
    [.text name, .text source, .int 0] ∈ others t [name'] := by
  rw [others_eq declared]
  exact List.mem_filter.mpr ⟨held, by simpa using other⟩

/-- The rows of the register for one playlist. -/
def ownRows (t : Table) (name : Text) : List Row := t.rows.filter fun r => t.cell r "name" = .text name

/-- What the register makes way for when a playlist is put in. -/
theorem register_conflicts (declared : Declared .register t) {name : Text} {rest : List Value} (s : Row) :
    t.Conflicts (.text name :: rest) s ↔ t.cell s "name" = .text name := by
  rw [conflicts_iff declared (.inr rfl), register_cell declared]
  constructor
  · rintro ⟨same, -⟩
    exact same.symm
  · intro same
    exact ⟨same.symm, by simp⟩

/-- A registered playlist has its new row alone. -/
theorem own_rows_replace (declared : Declared .register t) {name : Text} (rest : List Value) :
    ownRows (t.replace (.text name :: rest)) name = [.text name :: rest] := by
  have kept : Declared .register (t.replace (.text name :: rest)) := ⟨declared.columns, declared.key⟩
  have gone : t.rows.filter (fun s => decide (¬ t.Conflicts (.text name :: rest) s) &&
      decide (s[0]?.getD .null = .text name)) = [] := by
    refine List.filter_eq_nil_iff.mpr fun s _ => ?_
    simp [register_conflicts declared, register_cell declared]
  simp only [ownRows, register_cell kept]
  rw [Table.replace, List.filter_append, List.filter_filter]
  simp only [Bool.and_comm] at gone ⊢
  rw [gone]
  simp

/-- Putting the row in that is there already moves it at most. -/
theorem replace_perm (declared : Declared .register t) {name : Text} {rest : List Value}
    (own : ownRows t name = [.text name :: rest]) :
    t.rows.Perm (t.replace (.text name :: rest)).rows := by
  have apart : t.rows.filter (fun s => ¬ t.Conflicts (.text name :: rest) s) =
      t.rows.filter (fun s => !decide (t.cell s "name" = .text name)) :=
    List.filter_congr fun s _ => by simp [register_conflicts declared]
  rw [Table.replace, apart, ← own, ownRows]
  exact (List.filter_append_perm _ t.rows).symm.trans List.perm_append_comm

/-! ### Reading back -/

/-- Rows of one text are read back as their texts. -/
theorem first_column_rows (names : List Text) : firstColumn (.ok (pathRows names)) = some names := by
  have each : (fun n : Text => ((Value.text n :: ([] : Row)).head?.bind columnText)) = some := rfl
  rw [firstColumn, pathRows, List.mapM_map]
  exact (congrArg (List.mapM · names) each).trans (List.mapM_pure.trans (congrArg some (List.map_id names)))

theorem nodup_erase_dups {α : Type} [BEq α] [LawfulBEq α] (l : List α) : l.eraseDups.Nodup := by
  induction bound : l.length using Nat.strongRecOn generalizing l with
  | ind n ih =>
    cases l with
    | nil => simp
    | cons a l =>
      rw [List.eraseDups_cons, List.nodup_cons]
      refine ⟨by simp [List.mem_eraseDups], ih _ ?_ _ rfl⟩
      have shorter := List.length_filter_le (fun b => !b == a) l
      rw [← bound, List.length_cons]
      omega

theorem path_rows_of_texts {rows : List Row} (texts : ∀ r ∈ rows, ∃ p, r = [.text p]) :
    ∃ paths, rows = pathRows paths := by
  induction rows with
  | nil => exact ⟨[], rfl⟩
  | cons r rows ih =>
    obtain ⟨⟨p, rfl⟩, rest⟩ := List.forall_mem_cons.mp texts
    obtain ⟨paths, rfl⟩ := ih rest
    exact ⟨p :: paths, rfl⟩

/-- The first column of rows that are only in another order. -/
theorem first_column_perm {rows : List Row} {paths : List Text} (perm : rows.Perm (pathRows paths)) :
    ∃ out, firstColumn (.ok rows) = some out ∧ out.Perm paths := by
  obtain ⟨out, shape⟩ := path_rows_of_texts fun r member =>
    let ⟨p, _, same⟩ := List.mem_map.mp (perm.mem_iff.mp member)
    ⟨p, same.symm⟩
  refine ⟨out, by rw [shape, first_column_rows], ?_⟩
  rw [shape] at perm
  exact (List.map_perm_map_iff fun _ _ same => Value.text.inj (List.singleton_inj.mp same)).mp perm

theorem mem_path_rows {paths : List Text} {p : Text} : [.text p] ∈ pathRows paths ↔ p ∈ paths := by
  simp [pathRows]

/-- `select_playlist` reads the paths of any table that has such a column. -/
theorem select_playlist_eq (scan : Scan) {db : Db} {name : Text} (found : db.lookup name = some t)
    (known : (t.index? "path").isSome) (unclosed : ']' ∉ name) (clean : nul ∉ name)
    (own : fold name ≠ text "sqlite_master") :
    selectPlaylist scan db name = firstColumn (.ok
      (((scan.rows (.select true ["path"] name []) t).map fun r => [t.cell r "path"]).eraseDups)) := by
  have whole : nul ∉ selectPlaylistQuery name := mt nul_mem_select_playlist_query.mp clean
  have column : ((["path"] : List Text).any fun c => (t.index? c).isNone) = false := by simpa using known
  have all : t.selects [] = fun _ => true := rfl
  rw [selectPlaylist, (list_playlist_denotes unclosed).query_eq, if_neg whole,
    select_eq scan ((source_eq own).trans found) column rfl, all, List.filter_true]
  rfl

/-- `select_playlist` returns the paths of the table, each once. -/
theorem select_playlist_listing (scan : Scan) {db : Db} {name shown : Text} {held : List Text}
    (found : db.lookup name = some t) (listing : Listing t shown held) (unclosed : ']' ∉ name)
    (clean : nul ∉ name) (own : fold name ≠ text "sqlite_master") :
    ∃ paths, selectPlaylist scan db name = some paths ∧ paths.Nodup ∧ ∀ p, p ∈ paths ↔ p ∈ held := by
  have known : (t.index? "path").isSome := by
    obtain ⟨_, columns, key, rows⟩ := t
    obtain ⟨-, ⟨⟨⟩, -⟩, -⟩ := listing
    rfl
  have members (r : Row) : r ∈ ((scan.rows (.select true ["path"] name []) t).map
        fun r => [t.cell r "path"]).eraseDups ↔ ∃ p ∈ held, r = [.text p] := by
    simp [List.mem_eraseDups, Scan.mem_rows, listing.rows, pathRows, playlist_cell listing.declared, eq_comm]
  obtain ⟨paths, shape⟩ := path_rows_of_texts fun r member =>
    let ⟨p, _, same⟩ := (members r).mp member
    ⟨p, same⟩
  refine ⟨paths, ?_, ?_, fun p => ?_⟩
  · rw [select_playlist_eq scan found known unclosed clean own, shape, first_column_rows]
  · have apart := nodup_erase_dups ((scan.rows (.select true ["path"] name []) t).map
      fun r => [t.cell r "path"])
    rw [shape] at apart
    exact apart.of_map _
  · rw [← mem_path_rows, ← shape, members]
    simp

/-- `get_playlist_current` reads the position of the only row for the playlist. -/
theorem playlist_current_of_own_rows (scan : Scan) {db : Db} {name : Text} {source : Value} {position : Int}
    (found : db.lookup "_playlist" = some t) (declared : Declared .register t) (clean : nul ∉ name)
    (own : ownRows t name = [[.text name, source, .int position]]) :
    getPlaylistCurrent scan db name = some position := by
  have index (c : Text) : t.index? c = (⟨t.name, registerColumns, ["name"], []⟩ : Table).index? c := by
    rw [Table.index?, declared.columns]
    rfl
  have selected : t.selects [{ operand := .column "name", value := .text name }] =
      fun r => decide (t.cell r "name" = .text name) := by
    funext r
    by_cases same : t.cell r "name" = .text name <;> simp [Table.selects, Table.holds, same]
  have admitted : [({ operand := .column "name", value := .text name } : Condition)].forM t.admits =
      .ok () := by
    obtain ⟨_, columns, key, rows⟩ := t
    cases declared.columns
    rfl
  have known : ((["current"] : List Text).any fun c => (t.index? c).isNone) = false := by
    simp only [index]
    rfl
  have current : t.cell [.text name, source, .int position] "current" = .int position := by
    rw [Table.cell, index]
    rfl
  rw [getPlaylistCurrent, (get_playlist_current_denotes name).query_eq,
    if_neg (mt nul_mem_get_playlist_current_query.mp clean),
    select_eq scan ((source_eq (by decide)).trans found) known admitted, selected]
  dsimp only
  rw [Scan.filter_rows_eq_singleton own]
  simp [firstInt, current, columnInt]

/-- The conditions of `tables`. -/
def listed : List Condition :=
  [{ operand := .column "type", value := .text "table" },
   { operand := .substr "name" 1 1, negated := true, value := .text "_" }]

theorem selects_listed (db : Db) (n : Text) :
    db.master.selects listed [.text "table", .text n] = true ↔ n.head? ≠ some '_' := by
  have type : db.master.cell [.text "table", .text n] "type" = .text "table" := rfl
  have name : db.master.cell [.text "table", .text n] "name" = .text n := rfl
  have underscore : text "_" = ['_'] := by decide
  cases n with
  | nil => simp [Table.selects, listed, Table.holds, type, name, underscore]
  | cons c n => simp [Table.selects, listed, Table.holds, type, name, underscore]

/-- The names of the tables that are not the program's own. -/
def shownTables (db : Db) : List Text := (db.tables.filter (·.name.head? ≠ some '_')).map (·.name)

theorem nodup_shown_tables (db : Db) : (shownTables db).Nodup := by
  have names : (db.tables.map (·.name)).Nodup := by
    refine List.Nodup.of_map fold ?_
    rw [List.map_map]
    exact db.distinct
  exact (List.filter_sublist.map _).nodup names

theorem mem_shown_tables {db : Db} {n : Text} :
    n ∈ shownTables db ↔ n.head? ≠ some '_' ∧ ∃ t ∈ db.tables, t.name = n := by
  simp only [shownTables, List.mem_map, List.mem_filter, decide_eq_true_iff]
  constructor
  · rintro ⟨t, ⟨held, open_⟩, rfl⟩
    exact ⟨open_, t, held, rfl⟩
  · rintro ⟨open_, t, held, rfl⟩
    exact ⟨t, ⟨held, open_⟩, rfl⟩

/-- `tables` lists every table whose name does not begin with an underscore, once. -/
theorem tables_perm (scan : Scan) (db : Db) :
    ∃ names, tables scan db = some names ∧ names.Perm (shownTables db) := by
  have answered : query scan db tablesQuery = .ok
      (((scan.rows (.select false ["name"] "sqlite_master" listed) db.master).filter
        (db.master.selects listed)).map fun r => [db.master.cell r "name"]) := by
    rw [tables_query_denotes.query_eq, if_neg clean_tables_query]
    exact select_eq scan (if_pos (by decide)) rfl rfl
  have stored : (db.master.rows.filter (db.master.selects listed)).map (fun r => [db.master.cell r "name"]) =
      pathRows (shownTables db) := by
    have rows : db.master.rows = db.tables.map fun t => [.text "table", .text t.name] := rfl
    rw [rows, List.filter_map, List.map_map, shownTables, pathRows, List.map_map]
    refine congrArg₂ List.map rfl (List.filter_congr fun t _ => ?_)
    rw [Bool.eq_iff_iff, decide_eq_true_iff]
    exact selects_listed db t.name
  have perm := ((scan.perm (.select false ["name"] "sqlite_master" listed) db.master).filter
    (db.master.selects listed)).map fun r => [db.master.cell r "name"]
  rw [stored] at perm
  rw [tables, answered]
  exact first_column_perm perm

end Sws.Database
