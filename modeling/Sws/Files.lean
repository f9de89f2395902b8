import Mathlib.Data.List.DropRight
import Sws.Database.Calls
import Sws.Database.Queries
import Sws.Player

/-! Files as the program sees them: which of them are playlists, what a playlist file becomes, and
what the construction of a track pushes. -/
namespace Sws

open Database

/-- What the file system and the libraries that read files answer at one moment. -/
structure Files where
  /-- `exists` of either filesystem library; it throws where the status of a file cannot be read. -/
  present : Text → Option Bool
  /-- `is_regular_file`, which throws likewise. -/
  regular : Text → Option Bool
  /-- What `getline` reads; a file that cannot be opened has no lines. -/
  lines : Text → List Text
  /-- `track::mime_info`; from the null pointer that libmagic returns for a file it cannot read no string
  can be made. -/
  mime : Text → Option Text
  /-- `track::file_hash`. -/
  hash : Text → Text

namespace Files

/-! ### Names -/

/-- `path::filename` of a path that does not end in a slash. -/
def filename (path : Text) : Text := path.rtakeWhile (· ≠ '/')

/-- `path::extension`: from the last dot on. -/
def extension (path : Text) : Text :=
  let name := filename path
  if name = text "." ∨ name = text ".." ∨ '.' ∉ name then "" else '.' :: name.rtakeWhile (· ≠ '.')

/-- `path::stem`: the file name without its extension. -/
def stem (path : Text) : Text :=
  let name := filename path
  name.take (name.length - (extension path).length)

/-- `playlist::is_playlist_file`. -/
def isPlaylistFile (path : Text) : Bool :=
  fold (extension path) = text ".m3u" ∨ fold (extension path) = text ".m3u8"

/-- The types of `track::is_audio_file`. -/
def audioType (mime : Text) : Bool := (text "audio").isPrefixOf mime ∨ (text "video").isPrefixOf mime

/-- `track::is_audio_file`. -/
def isAudioFile (files : Files) (path : Text) : Option Bool := (files.mime path).map audioType

/-! ### Playlists -/

/-- The loop over the lines of a playlist file. -/
def keep (files : Files) : List Text → Option (List Text)
  | [] => some []
  | line :: rest =>
    if line.head? = some '#' then files.keep rest
    else do
      let present ← files.present line
      let tracks ← files.keep rest
      return if present then line :: tracks else tracks

/-- The constructor of `playlist` from a file. -/
def playlist (files : Files) (path : Text) : Option (Player.Playlist × List Call) := do
  let present ← files.present path
  if present ∧ isPlaylistFile path then
    let tracks ← files.keep (files.lines path)
    return (⟨stem path, tracks⟩, [.addToPlaylist (stem path) tracks, .insertPlaylist (stem path) path])
  else return (⟨"", []⟩, [])

/-- The lines of a playlist file that are kept. -/
def tracks (files : Files) (path : Text) : List Text :=
  (files.lines path).filter fun line => line.head? ≠ some '#' ∧ files.present line = some true

/-- What the constructor of `playlist` makes of a file when it returns. -/
def playlistOf (files : Files) (path : Text) : Player.Playlist × List Call :=
  if files.present path = some true ∧ isPlaylistFile path then
    (⟨stem path, files.tracks path⟩,
      [.addToPlaylist (stem path) (files.tracks path), .insertPlaylist (stem path) path])
  else (⟨"", []⟩, [])

/-- The status of every line but the comments can be read. -/
def Readable (files : Files) (path : Text) : Prop :=
  ∀ line ∈ files.lines path, line.head? ≠ some '#' → (files.present line).isSome

/-- The constructor of `playlist` from the file returns. -/
def Loads (files : Files) (path : Text) : Prop :=
  (files.present path).isSome ∧
    (files.present path = some true → isPlaylistFile path = true → files.Readable path)

/-- Everything that a scan asks of a directory entry is answered. -/
def Answers (files : Files) (path : Text) : Prop :=
  (files.regular path).isSome ∧ (files.regular path = some true →
    if isPlaylistFile path then files.Loads path else (files.mime path).isSome)

/-- A scan of these entries comes to its end. -/
def Completes (files : Files) (entries : List Text) : Prop := ∀ path ∈ entries, files.Answers path

instance (files : Files) (path : Text) : Decidable (files.Readable path) :=
  inferInstanceAs (Decidable (∀ line ∈ files.lines path, line.head? ≠ some '#' → (files.present line).isSome))

instance (files : Files) (path : Text) : Decidable (files.Loads path) :=
  inferInstanceAs (Decidable (_ ∧ (_ → _ → files.Readable path)))

instance (files : Files) (path : Text) : Decidable (files.Answers path) :=
  inferInstanceAs (Decidable (_ ∧ (_ → ite _ (files.Loads path) _)))

instance (files : Files) (entries : List Text) : Decidable (files.Completes entries) :=
  inferInstanceAs (Decidable (∀ path ∈ entries, files.Answers path))

section Playlists

variable {files : Files} {path : Text}

theorem keep_eq (lines : List Text) : files.keep lines =
    if ∀ line ∈ lines, line.head? ≠ some '#' → (files.present line).isSome then
      some (lines.filter fun line => line.head? ≠ some '#' ∧ files.present line = some true)
    else none := by
  induction lines with
  | nil => simp [keep]
  | cons line lines ih =>
    rw [keep]
    by_cases comment : line.head? = some '#'
    · simp [comment, ih]
    · rw [if_neg comment, ih]
      cases present : files.present line with
      | none => simp [comment, present]
      | some there =>
        by_cases others : ∀ line ∈ lines, line.head? ≠ some '#' → (files.present line).isSome
        · rw [if_pos others, if_pos (List.forall_mem_cons.mpr ⟨fun _ => by rw [present]; rfl, others⟩)]
          cases there <;> simp [comment, present]
        · rw [if_neg others, if_neg fun all => others (List.forall_mem_cons.mp all).2]
          rfl

theorem keep_lines_eq :
    files.keep (files.lines path) = if files.Readable path then some (files.tracks path) else none :=
  keep_eq (files.lines path)

theorem playlist_eq : files.playlist path = if files.Loads path then some (files.playlistOf path) else none := by
  rw [playlist, playlistOf]
  cases present : files.present path with
  | none =>
    have stuck : ¬ files.Loads path := fun loads => by simpa [present] using loads.1
    rw [if_neg stuck]
    rfl
  | some there =>
    have answered : (files.present path).isSome = true := by rw [present]; rfl
    by_cases kind : there = true ∧ isPlaylistFile path = true
    · obtain ⟨rfl, file⟩ := kind
      have both : some true = some true ∧ isPlaylistFile path = true := ⟨rfl, file⟩
      rw [Option.bind_eq_bind, Option.bind_some, if_pos ⟨rfl, file⟩, if_pos both, keep_lines_eq]
      by_cases readable : files.Readable path
      · have loads : files.Loads path := ⟨answered, fun _ _ => readable⟩
        rw [if_pos loads, if_pos readable]
        rfl
      · have stuck : ¬ files.Loads path := fun loads => readable (loads.2 present file)
        rw [if_neg stuck, if_neg readable]
        rfl
    · have other : ¬ (some there = some true ∧ isPlaylistFile path = true) := by simpa using kind
      have loads : files.Loads path :=
        ⟨answered, fun exists_ file => absurd ⟨present.symm.trans exists_, file⟩ other⟩
      rw [Option.bind_eq_bind, Option.bind_some, if_neg kind, if_pos loads, if_neg other]
      rfl

theorem playlist_of_loads (loads : files.Loads path) : files.playlist path = some (files.playlistOf path) := by
  rw [playlist_eq, if_pos loads]

end Playlists

/-! ### Tracks -/

/-- The constructor of `track` from a path: it asks the database, and pushes. A path without a row
is inserted twice; a row whose hash differs is inserted again. -/
def track (files : Files) (scan : Sql.Scan) (duration : Double) (db : Sql.Db) (path : Text) :
    Option (Sql.Db × List Call) := do
  let present ← files.present path
  if present then
    let (db, s) ← selectTrack scan duration db path
    let first : List Call := if s.found then [] else [.insertPath path]
    let mime ← files.mime path
    let second : List Call :=
      if ¬ s.found then [.insertPath path]
      else if s.md5 ≠ files.hash path ∧ audioType mime then [.insertTrack s]
      else []
    return (db, first ++ second)
  else return (db, [])

/-- The construction itself changes the database only by making sure of the catalog. -/
theorem track_db {files : Files} {scan : Sql.Scan} {duration : Double} {db after : Sql.Db} {path : Text}
    {calls : List Call} (constructed : files.track scan duration db path = some (after, calls)) :
    after = db ∨ ∃ ok, Sql.exec db createCatalog = some (after, ok) := by
  simp only [track, Option.bind_eq_bind, Option.bind_eq_some_iff] at constructed
  obtain ⟨present, -, constructed⟩ := constructed
  split at constructed
  · simp only [Option.bind_eq_some_iff] at constructed
    obtain ⟨⟨middle, s⟩, selected, mime, -, rest⟩ := constructed
    cases rest
    exact .inr (select_track_db selected)
  · cases constructed
    exact .inl rfl

example : stem "/music/Road Trip.m3u" = text "Road Trip" ∧ isPlaylistFile "/music/Road Trip.M3U" := by
  decide

end Files

end Sws
