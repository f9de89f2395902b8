import Sws.Database.Tables

/-! `db::update_track`. The text it pushes is what stands to the right of the stray equals sign: it
begins with the track number, and no statement does. -/
namespace Sws.Database

open Sql

/-- The columns `update_track` is to set. -/
def Song.columns (s : Song) : List (Text × Value) :=
  [("title", .text s.title), ("track_no", .int s.trackNo), ("album", .text s.album),
   ("year", .int s.year.toNat), ("artist", .text s.artist), ("favorite", .int s.favorite.toNat),
   ("spotify_id", .text s.spotifyId), ("file_hash", .text s.md5)]

/-- The row of the song's path holds the song's fields, and nothing else has changed. -/
def RowUpdated (s : Song) (before after : Db) : Prop :=
  ∃ t u, before.lookup "db_catalog" = some t ∧ after.lookup "db_catalog" = some u ∧
    List.Forall₂ (fun r new => if t.cell r "path" = .text s.path
      then ∀ c ∈ s.columns, u.cell new c.1 = c.2 else new = r) t.rows u.rows ∧
    ∀ n, fold n ≠ text "db_catalog" → after.lookup n = before.lookup n

/-- The text is one `UPDATE`, and executing it updates the row. -/
def Updates (s : Song) (db : Db) : Prop :=
  (∃ table sets filter, single? (updateTrack s) = some (.update table sets filter)) ∧
    ∃ after ok, exec db (updateTrack s) = some (after, ok) ∧ RowUpdated s db after

/-- The text begins with the digits of the track number, or with a minus before them. -/
theorem lex_update_track (s : Song) :
    ∃ t ts, lex (cStr (updateTrack s)) = t :: ts ∧ t ≠ .sym .semi ∧ mayBegin t = false := by
  obtain ⟨rest, shape⟩ : ∃ rest, updateTrack s = (decimal s.trackNo ++ text ",") ++ rest :=
    ⟨_, by simp only [updateTrack, assigned, List.append_assoc]; rfl⟩
  have comma : Scans (.digits (digits s.trackNo)) (text ",")
      [.number (digits s.trackNo), .sym .comma] .start := scans_number_end rfl (by decide)
  have scanned := (scans_decimal start_opens_number s.trackNo).append comma
  have clean : nul ∉ decimal s.trackNo ++ text "," := by
    simp [nul_not_mem_decimal, show nul ∉ text "," by decide]
  have read : lex (cStr (updateTrack s)) =
      signTokens s.trackNo ++ .number (digits s.trackNo) :: .sym .comma :: lex (cStr rest) := by
    rw [shape, c_str_append clean, lex, Transducer.output_append, scanned]
    simp [finish, lex]
  cases number : s.trackNo with
  | ofNat n =>
    rw [number] at read
    exact ⟨_, _, read, Token.noConfusion, rfl⟩
  | negSucc n =>
    rw [number] at read
    exact ⟨_, _, read, by decide, rfl⟩

/-- **No track is ever updated.** For every song and every database the text pushed is rejected: it
is no statement, and executing it changes nothing. -/
theorem update_track_never_updates (s : Song) (db : Db) :
    exec db (updateTrack s) = some (db, false) ∧ ¬ Updates s db := by
  obtain ⟨t, ts, read, inside, bad⟩ := lex_update_track s
  obtain ⟨none, rejected⟩ := exec_bad_start read inside bad
  refine ⟨rejected db, ?_⟩
  rintro ⟨⟨table, sets, filter, one⟩, -⟩
  cases none.symm.trans one

/-- A catalog of one untitled track. -/
theorem titled_song_not_updated :
    ¬ ∀ (s : Song) (db : Db),
      (∃ t, db.lookup "db_catalog" = some t ∧
        (t.rows.filter fun r => t.cell r "path" = .text s.path).length = 1) → Updates s db := by
  intro all
  let catalog : Table := { emptyCatalog with rows := [pathRow "a.mp3"] }
  have free : Db.empty.lookup catalog.name = none := rfl
  have found : (Db.empty.create catalog).lookup "db_catalog" = some catalog := Db.lookup_create_self free rfl
  have one : (catalog.rows.filter fun r => catalog.cell r "path" = .text "a.mp3").length = 1 := by decide
  obtain ⟨⟨table, sets, filter, one⟩, -⟩ := all { path := "a.mp3", title := "A" } _ ⟨catalog, found, one⟩
  obtain ⟨t, ts, read, inside, bad⟩ := lex_update_track { path := "a.mp3", title := "A" }
  cases (exec_bad_start read inside bad).1.symm.trans one

end Sws.Database
