import Sws.Catalog
import Sws.Database.Draining

/-! A track as a record of its own, beside the record `db` keeps: the way from a song through a track
into the catalog and back. The rating is left out here as it is in `Song`. -/
namespace Sws

open Database Sql

structure Track where
  path : Text
  title : Text
  /-- An `unsigned char`. -/
  trackNo : UInt8
  album : Text
  year : UInt16
  artist : Text
  favorite : Bool
  duration : Double
  spotifyId : Text
  md5 : Text
  mimeType : Text
  deriving DecidableEq, Repr

namespace Track

/-- The constructor of `track` from a song. -/
def ofSong (files : Files) (s : Song) : Option Track := do
  let mimeType ← files.mime s.path
  return {
    path := s.path
    title := s.title
    trackNo := UInt8.ofInt s.trackNo
    album := s.album
    year := s.year
    artist := s.artist
    favorite := s.favorite
    duration := s.duration
    spotifyId := s.spotifyId
    md5 := s.md5
    mimeType := mimeType }

/-- `track::to_song`; a new song is not `found`. -/
def toSong (t : Track) : Song where
  path := t.path
  title := t.title
  trackNo := t.trackNo.toNat
  album := t.album
  year := t.year
  artist := t.artist
  favorite := t.favorite
  spotifyId := t.spotifyId
  duration := t.duration
  md5 := t.md5

/-- The fields that `select_track` reads back. -/
structure SameFields (s r : Song) : Prop where
  path : r.path = s.path
  title : r.title = s.title
  trackNo : r.trackNo = s.trackNo
  album : r.album = s.album
  year : r.year = s.year
  artist : r.artist = s.artist
  favorite : r.favorite = s.favorite
  spotifyId : r.spotifyId = s.spotifyId
  md5 : r.md5 = s.md5

/-- The track is constructed; once its statement is executed, `select_track` finds the song as it was, and the
catalog `t` has one row more; every other table is as it was. -/
def Restored (files : Files) (scan : Scan) (duration : Double) (db : Db) (t : Table) (s : Song) : Prop :=
  ∃ track after row read, ofSong files s = some track ∧
    execAll db (Call.insertTrack track.toSong).texts = some after ∧
    selectTrack scan duration after s.path = some (after, read) ∧ read.found = true ∧
    SameFields s read ∧ after.lookup "db_catalog" = some { t with rows := t.rows ++ [row] } ∧
    ∀ n, fold n ≠ fold "db_catalog" → after.lookup n = db.lookup n

/-! ### Widths -/

theorem track_no_restored_iff (n : Int) : ((UInt8.ofInt n).toNat : Int) = n ↔ 0 ≤ n ∧ n < 256 := by
  have narrowed : ((UInt8.ofInt n).toNat : Int) = n % 256 := by
    simp [UInt8.ofInt]
    omega
  rw [narrowed]
  omega

theorem year_restored (year : UInt16) : UInt16.ofInt year.toNat = year := by
  have bound := year.toNat_lt
  have same : ((year.toNat : Int) % 2 ^ 16).toNat = year.toNat := by omega
  rw [UInt16.ofInt, same, UInt16.ofNat_toNat]

/-! ### The catalog -/

/-- The row of a song answers a query for its path alone, if no row had the path before. -/
theorem rows_of_path (scan : Scan) (stmt : Stmt) {t : Table} {path : Text} {row : Row}
    (declared : Declared .catalog t) (head : row.head? = some (.text path))
    (absent : ∀ r ∈ t.rows, t.cell r "path" ≠ .text path) :
    ((scan.rows stmt { t with rows := t.rows ++ [row] }).filter
      (t.selects [{ operand := .column "path", value := .text path }])) = [row] := by
  have index : t.index? "path" = some 0 := by
    obtain ⟨name, columns, key, rows⟩ := t
    cases declared.columns
    rfl
  have cell : t.cell row "path" = .text path := by
    rw [List.head?_eq_getElem?] at head
    simp [Table.cell, index, head]
  have others : t.rows.filter (t.selects [{ operand := .column "path", value := .text path }]) = [] :=
    List.filter_eq_nil_iff.mpr fun r held => by
      simp [Table.selects, Table.holds, absent r held]
  have own : t.selects [{ operand := .column "path", value := .text path }] row = true := by
    simp [Table.selects, Table.holds, cell]
  refine Scan.filter_rows_eq_singleton ?_
  rw [List.filter_append, others, List.filter_singleton, own]
  rfl

/-- The columns `select_track` asks for, in a row of `insert_track`. -/
theorem columns_of_values {t : Table} (declared : Declared .catalog t) (s : Song) :
    (["title", "track_no", "album", "year", "artist", "favorite", "spotify_id", "file_hash"] :
        List Text).map (t.cell s.values) =
      [.text s.title, .int s.trackNo, .text s.album, .int s.year.toNat, .text s.artist,
        .int s.favorite.toNat, .text s.spotifyId, .text s.md5] := by
  obtain ⟨name, columns, key, rows⟩ := t
  cases declared.columns
  rfl

/-- A song that a row of the catalog was made from is read back as it is, `found`. -/
theorem song_of_values (s : Song) (duration : Double) :
    songOfRow s.path duration [.text s.title, .int s.trackNo, .text s.album, .int s.year.toNat,
      .text s.artist, .int s.favorite.toNat, .text s.spotifyId, .text s.md5] =
        some { s with duration := duration, found := true } := by
  simp [songOfRow, columnText, columnInt, year_restored]

section Catalog

variable {db : Db} {t : Table}

/-- `select_track` over a catalog that holds the path in the row of one song. -/
theorem select_of_inserted (scan : Scan) (duration : Double) {s : Song} (clean : nul ∉ s.path)
    (declared : Declared .catalog t) (absent : ∀ r ∈ t.rows, t.cell r "path" ≠ .text s.path)
    (found : db.lookup "db_catalog" = some { t with rows := t.rows ++ [s.values] }) :
    selectTrack scan duration db s.path = some (db, { s with duration := duration, found := true }) := by
  have created : exec db createCatalog = some (db, true) := by
    rw [exec_create_catalog, found]
    rfl
  have whole : nul ∉ selectTrackQuery s.path := mt nul_mem_select_track_query.mp clean
  have read : query scan db (selectTrackQuery s.path) = .ok [[.text s.title, .int s.trackNo,
      .text s.album, .int s.year.toNat, .text s.artist, .int s.favorite.toNat, .text s.spotifyId,
      .text s.md5]] := by
    have grown : Declared .catalog { t with rows := t.rows ++ [s.values] } := ⟨declared.1, declared.2⟩
    rw [(select_track_denotes _).query_eq, if_neg whole, select_track_eq scan found grown]
    refine congrArg Except.ok ?_
    rw [← columns_of_values declared s]
    exact congrArg (List.map _) (rows_of_path scan _ declared rfl absent)
  rw [selectTrack, created]
  simp only [Option.bind_eq_bind, Option.bind_some, read, song_of_values]
  rfl

/-- `select_track` of a path that no row has. -/
theorem select_of_unseen (scan : Scan) (duration : Double) {path : Text} (clean : nul ∉ path)
    (found : db.lookup "db_catalog" = some t) (declared : Declared .catalog t)
    (unseen : .text path ∉ Catalog.paths t) :
    selectTrack scan duration db path =
      some (db, { path := "", trackNo := -1, duration := duration, md5 := "-1", found := false }) := by
  have created : exec db createCatalog = some (db, true) := by
    rw [exec_create_catalog, found]
    rfl
  have query := Catalog.query_unseen scan found declared unseen clean
  rw [selectTrack, created]
  simp only [Option.bind_eq_bind, Option.bind_some, query]
  rfl

/-- The song a track gives back, written and read. -/
theorem read_after_insert {files : Files} (scan : Scan) (duration : Double) {s : Song} {track : Track}
    (made : ofSong files s = some track) (found : db.lookup "db_catalog" = some t) (declared : Declared .catalog t)
    (absent : ∀ r ∈ t.rows, t.cell r "path" ≠ .text s.path) (clean : s.Clean)
    (id : quote ∉ s.spotifyId) (hash : quote ∉ s.md5) :
    let written : Song := { s with trackNo := (UInt8.ofInt s.trackNo).toNat, found := false }
    ∃ after, execAll db (Call.insertTrack track.toSong).texts = some after ∧
      selectTrack scan duration after s.path =
        some (after, { written with duration := duration, found := true }) ∧
      after.lookup "db_catalog" = some { t with rows := t.rows ++ [written.values] } ∧
      ∀ n, fold n ≠ fold "db_catalog" → after.lookup n = db.lookup n := by
  intro written
  obtain ⟨mimeType, -, done⟩ := Option.bind_eq_some_iff.mp made
  have same : track.toSong = written := by
    cases done
    rfl
  rw [same]
  let grown : Table := { t with rows := t.rows ++ [written.values] }
  have denotes : Denotes (Database.insertTrack written) (.insert false "db_catalog" none [written.values]) :=
    insert_track_denotes id hash
  have free : nul ∉ Database.insertTrack written :=
    clean_insert_track ⟨clean.path, clean.title, clean.album, clean.artist, clean.spotifyId, clean.md5⟩
  have one : exec db (Database.insertTrack written) = some (db.put grown, true) := by
    rw [denotes.exec_eq, if_neg free, insert_track_eq found declared]
    rfl
  have name : fold t.name = fold "db_catalog" := Db.fold_name_of_lookup found
  have there : (db.put grown).lookup "db_catalog" = some grown := Db.lookup_put_self found name
  have read : selectTrack scan duration (db.put grown) s.path =
      some (db.put grown, { written with duration := duration, found := true }) :=
    select_of_inserted scan duration (s := written) clean.path declared absent there
  refine ⟨db.put grown, exec_all_cons one rfl, read, there, fun n other => ?_⟩
  exact Db.lookup_put_of_ne fun same => other (same.symm.trans name)

end Catalog

/-- Quotes in the fields that are escaped. -/
def quoted : Song :=
  { path := "it's.mp3", title := "It's", trackNo := 255, album := "'", artist := "''", md5 := "-1" }

/-- Files that libmagic can read. -/
def songs : Files where
  present _ := some true
  regular _ := some true
  lines _ := []
  mime _ := some "audio/mpeg"
  hash _ := "-1"

theorem lookup_empty_catalog :
    (Db.empty.create emptyCatalog).lookup "db_catalog" = some emptyCatalog :=
  Db.lookup_create_self rfl rfl

end Track

end Sws
