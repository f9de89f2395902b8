import Sws.Database.Queries
import Sws.Database.Tables

/-! The rows of the catalog as records, and `select_track` over them. -/
namespace Sws.Database

open Sql

/-- A row of the catalog with a value of its declared type in every column. -/
structure Entry where
  path : Text
  title : Text := ""
  trackNo : Int := 0
  album : Text := ""
  year : Int := 0
  artist : Text := ""
  favorite : Int := 0
  /-- In millionths. -/
  duration : Int := 0
  spotifyId : Text := ""
  hash : Text := "-1"
  deriving DecidableEq, Repr

namespace Entry

def row (e : Entry) : Row :=
  [.text e.path, .text e.title, .int e.trackNo, .text e.album, .int e.year, .text e.artist,
    .int e.favorite, .real e.duration, .text e.spotifyId, .text e.hash]

/-- No text of the row contains NUL. -/
structure Clean (e : Entry) : Prop where
  path : nul ∉ e.path
  title : nul ∉ e.title
  album : nul ∉ e.album
  artist : nul ∉ e.artist
  spotifyId : nul ∉ e.spotifyId
  hash : nul ∉ e.hash

/-- The row that a song is inserted as. -/
def ofSong (s : Song) : Entry where
  path := s.path
  title := s.title
  trackNo := s.trackNo
  album := s.album
  year := s.year.toNat
  artist := s.artist
  favorite := s.favorite.toNat
  duration := s.duration.millionths
  spotifyId := s.spotifyId
  hash := s.md5

theorem row_injective : Function.Injective row := by
  rintro ⟨⟩ ⟨⟩ same
  simp only [row, List.cons.injEq, Value.text.injEq, Value.int.injEq, Value.real.injEq, and_true] at same
  simp [same]

theorem row_of_song (s : Song) : (ofSong s).row = s.values := rfl

/-- The song that is read from the row. -/
def song (e : Entry) (duration : Double) : Song where
  path := e.path
  title := e.title
  trackNo := e.trackNo
  album := e.album
  year := UInt16.ofInt e.year
  artist := e.artist
  favorite := e.favorite ≠ 0
  spotifyId := e.spotifyId
  duration := duration
  md5 := e.hash
  found := true

section Columns

variable {t : Table} (declared : Declared .catalog t) (e : Entry)
include declared

theorem cell_path : t.cell e.row "path" = .text e.path := by
  obtain ⟨name, columns, key, rows⟩ := t
  cases declared.columns
  rfl

/-- The columns `select_track` asks for. -/
theorem track_columns :
    (["title", "track_no", "album", "year", "artist", "favorite", "spotify_id", "file_hash"] :
        List Text).map (t.cell e.row) =
      [.text e.title, .int e.trackNo, .text e.album, .int e.year, .text e.artist, .int e.favorite,
        .text e.spotifyId, .text e.hash] := by
  obtain ⟨name, columns, key, rows⟩ := t
  cases declared.columns
  rfl

end Columns

end Entry

/-- The query of `select_track`, as it is read. -/
def trackStmt (path : Text) : Stmt :=
  .select false ["title", "track_no", "album", "year", "artist", "favorite", "spotify_id", "file_hash"]
    "db_catalog" [{ operand := .column "path", value := .text path }]

/-- The rows of a path in the order in which `select_track` meets them. -/
def metRows (scan : Scan) (t : Table) (path : Text) : List Row :=
  (scan.rows (trackStmt path) t).filter fun r => t.cell r "path" = .text path

/-- `select_track` meets this row first. -/
def Finds (scan : Scan) (db : Db) (path : Text) (e : Entry) : Prop :=
  ∃ t, db.lookup "db_catalog" = some t ∧ Declared .catalog t ∧ (metRows scan t path).head? = some e.row

section Select

variable {db : Db} {t : Table} {path : Text} {e : Entry}

theorem selects_path (t : Table) (path : Text) (r : Row) :
    t.selects [{ operand := .column "path", value := .text path }] r =
      decide (t.cell r "path" = .text path) := by
  by_cases own : t.cell r "path" = .text path <;> simp [Table.selects, Table.holds, own]

theorem mem_met_rows {scan : Scan} {r : Row} :
    r ∈ metRows scan t path ↔ r ∈ t.rows ∧ t.cell r "path" = .text path := by
  rw [metRows, List.mem_filter, Scan.mem_rows, decide_eq_true_eq]

theorem path_of_finds {scan : Scan} (finds : Finds scan db path e) : e.path = path := by
  obtain ⟨t, -, declared, first⟩ := finds
  have own := (mem_met_rows.mp (List.mem_of_mem_head? first)).2
  rw [e.cell_path declared] at own
  exact Value.text.inj own

theorem finds_unique {scan : Scan} {e' : Entry} (finds : Finds scan db path e) (finds' : Finds scan db path e') :
    e = e' := by
  obtain ⟨t, found, -, first⟩ := finds
  obtain ⟨t', found', -, first'⟩ := finds'
  cases found.symm.trans found'
  exact Entry.row_injective (Option.some.inj (first.symm.trans first'))

/-- `select_track` returns what the first row says. -/
theorem select_of_finds {scan : Scan} (finds : Finds scan db path e) (clean : nul ∉ path) (duration : Double) :
    selectTrack scan duration db path = some (db, e.song duration) := by
  have own := path_of_finds finds
  obtain ⟨t, found, declared, first⟩ := finds
  obtain ⟨rest, shape⟩ := List.head?_eq_some_iff.mp first
  have created : exec db createCatalog = some (db, true) := by
    rw [exec_create_catalog, found]
    rfl
  have whole : nul ∉ selectTrackQuery path := mt nul_mem_select_track_query.mp clean
  have read : query scan db (selectTrackQuery path) = .ok ((e.row :: rest).map fun r =>
      (["title", "track_no", "album", "year", "artist", "favorite", "spotify_id", "file_hash"] :
        List Text).map (t.cell r)) := by
    rw [(select_track_denotes _).query_eq, if_neg whole, select_track_eq scan found declared, ← shape]
    refine congrArg (fun rows => Except.ok (List.map _ rows)) (List.filter_congr fun r _ => ?_)
    exact selects_path t path r
  rw [List.map_cons, e.track_columns declared] at read
  rw [selectTrack, created]
  simp only [Option.bind_eq_bind, Option.bind_some, read]
  simp [songOfRow, columnText, columnInt, Entry.song, own]

end Select

end Sws.Database
