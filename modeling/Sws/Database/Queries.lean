import Sws.Database.Statements
import Sws.Sql.Engine

/-! The functions of `db` that read. Each has no result where SQLite's answer is outside the
fragment. -/
namespace Sws.Database

open Sql

/-- `sqlite3_column_text` of a value that is text or an integer; a NULL has no text. -/
def columnText : Value → Option Text
  | .text t => some t
  | .int n => some (decimal n)
  | .null | .real _ => none

/-- `sqlite3_column_int` of a value that is an integer or NULL. -/
def columnInt : Value → Option Int
  | .int n => some n
  | .null => some 0
  | .text _ | .real _ => none

/-- The loop of `db::select_playlist` and `db::tables` over the rows: their first columns. -/
def firstColumn (rows : Except Fault (List Row)) : Option (List Text) :=
  match rows with
  | .ok rows => rows.mapM fun r => r.head?.bind columnText
  | .error .rejected => some []
  | .error .unmodelled => none

def selectPlaylist (scan : Scan) (db : Db) (name : Text) : Option (List Text) :=
  firstColumn (query scan db (selectPlaylistQuery name))

def tables (scan : Scan) (db : Db) : Option (List Text) := firstColumn (query scan db tablesQuery)

/-- What a loop over rows reads is what it reads of one of them. -/
theorem mem_of_read {α β : Type} {f : α → Option β} {l : List α} {out : List β} (ran : l.mapM f = some out)
    (b : β) : b ∈ out ↔ ∃ a ∈ l, f a = some b := by
  induction l generalizing out with
  | nil =>
    cases ran
    simp
  | cons a l ih =>
    simp only [List.mapM_cons, Option.bind_eq_bind, Option.bind_eq_some_iff] at ran
    obtain ⟨c, first, rest, others, done⟩ := ran
    cases done
    rw [List.mem_cons, ih others, List.exists_mem_cons_iff, first, Option.some.injEq, eq_comm]

/-- The number in the first row, and `0` where there is none. -/
def firstInt (rows : Except Fault (List Row)) : Option Int :=
  match rows with
  | .ok (r :: _) => r.head?.bind columnInt
  | .ok [] | .error .rejected => some 0
  | .error .unmodelled => none

/-- The position stored for a playlist. -/
def getPlaylistCurrent (scan : Scan) (db : Db) (name : Text) : Option Int :=
  firstInt (query scan db (getPlaylistCurrentQuery name))

/-- The song `select_track` fills from a row. -/
def songOfRow (path : Text) (duration : Double) : Row → Option Song
  | [title, trackNo, album, year, artist, favorite, spotifyId, hash] => do
    return {
      path := path
      title := ← columnText title
      trackNo := ← columnInt trackNo
      album := ← columnText album
      year := UInt16.ofInt (← columnInt year)
      artist := ← columnText artist
      favorite := (← columnInt favorite) ≠ 0
      spotifyId := ← columnText spotifyId
      duration := duration
      md5 := ← columnText hash
      found := true }
  | _ => none

/-- `db::select_track`: it makes sure of the table first. No path leaves the duration initialized,
so its value is an argument. -/
def selectTrack (scan : Scan) (duration : Double) (db : Db) (path : Text) : Option (Db × Song) := do
  let (db, _) ← exec db createCatalog
  match query scan db (selectTrackQuery path) with
  | .ok (r :: _) => return (db, ← songOfRow path duration r)
  | .ok [] | .error .rejected =>
    return (db, { path := "", trackNo := -1, duration := duration, md5 := "-1", found := false })
  | .error .unmodelled => none

theorem select_track_db {scan : Scan} {duration : Double} {db after : Db} {path : Text} {s : Song}
    (selected : selectTrack scan duration db path = some (after, s)) :
    ∃ ok, exec db createCatalog = some (after, ok) := by
  rw [selectTrack, Option.bind_eq_bind, Option.bind_eq_some_iff] at selected
  obtain ⟨⟨created, ok⟩, ran, rest⟩ := selected
  refine ⟨ok, ran.trans ?_⟩
  dsimp only at rest
  split at rest
  · rw [Option.bind_eq_bind, Option.bind_eq_some_iff] at rest
    obtain ⟨song, -, same⟩ := rest
    cases same
    rfl
  · cases rest
    rfl
  · cases rest
    rfl
  · cases rest

end Sws.Database
