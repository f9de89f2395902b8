import Mathlib.Data.List.DropRight
import Sws.Lines
import Sws.Track

/-! Exporting a playlist and constructing it again from the file. -/
namespace Sws.Export

open Database Sql
open Player (Playlist)

/-- What stands before a newline and the path of a track that the catalog holds. -/
def info (t : Song) : Text :=
  "#EXTINF:-1," ++ (if t.artist.length > 0 then t.artist ++ text " - " else "") ++
    (if t.album.length > 0 then t.album ++ text " - " else "") ++
    (if t.title.length > 0 then t.title else "")

/-- What one turn of the loop writes. -/
def entry (t : Song) (path : Text) : Text :=
  (if t.found then info t ++ text "\n" else "") ++ path ++ text "\n"

/-- The loop over the tracks. The construction of a track asks the database and pushes, and then the
loop asks; other threads go on meanwhile, so `made` and `asked` tell the database that the two find
at each turn. -/
def exportTracks (files : Files) (scan : Scan) (duration : Double) (made asked : Nat → Db) :
    Nat → List Text → Option (Text × List Call)
  | _, [] => some ("", [])
  | i, s :: rest => do
    let (_, calls) ← files.track scan duration (made i) s
    let (_, t) ← selectTrack scan duration (asked i) s
    let (contents, more) ← exportTracks files scan duration made asked (i + 1) rest
    return (entry t s ++ contents, calls ++ more)

/-- `playlist::export_playlist`: the name of the file, its contents and what is pushed meanwhile. No
newline follows the header. -/
def exportPlaylist (files : Files) (scan : Scan) (duration : Double) (made asked : Nat → Db)
    (p : Playlist) : Option (Text × Text × List Call) := do
  let (contents, calls) ← exportTracks files scan duration made asked 0 p.tracks
  return (p.name ++ text ".m3u", "#EXTM3U" ++ contents, calls)

/-- What the loop finds for each track. -/
def songs (scan : Scan) (duration : Double) (asked : Nat → Db) :
    Nat → List Text → Option (List (Song × Text))
  | _, [] => some []
  | i, s :: rest => do
    let (_, t) ← selectTrack scan duration (asked i) s
    return (t, s) :: (← songs scan duration asked (i + 1) rest)

/-- The constructor of `playlist` keeps a line that is no comment and names an existing file. -/
def keeps (files : Files) (line : Text) : Bool := line.head? ≠ some '#' ∧ files.present line = some true

/-- It does not get past a line that is no comment and whose status cannot be read. -/
def blocks (files : Files) (line : Text) : Bool := line.head? ≠ some '#' ∧ files.present line = none

/-- The lines of this kind that a newline in the title, the album or the artist of a track makes of its info. -/
def stray (kind : Text → Bool) (t : Song) : List Text :=
  if t.found then (lines (info t ++ text "\n")).tail.filter kind else []

/-- The file gives back the tracks: the catalog holds the first, whose path then does not stand on
the line of the header, and no line of an info is kept. Otherwise one such line has to be the lost
path, and nothing but that path may come before it. -/
def Restores (files : Files) : List (Song × Text) → Prop
  | [] => True
  | (t, s) :: rest =>
    (t.found = true ∧ ∀ e ∈ (t, s) :: rest, stray (keeps files) e.1 = []) ∨
    (t.found = false ∧ ∃ before e after, rest = before ++ e :: after ∧ stray (keeps files) e.1 = [s] ∧
      (∀ b ∈ before, b.2 = s ∧ stray (keeps files) b.1 = []) ∧ ∀ a ∈ after, stray (keeps files) a.1 = [])

/-! ### Names -/

theorem filename_m3u {name : Text} (flat : '/' ∉ name) :
    Files.filename (name ++ text ".m3u") = name ++ text ".m3u" := by
  unfold Files.filename
  apply List.rtakeWhile_eq_self_iff.mpr
  intro c member
  have other : c ≠ '/' := by
    rintro rfl
    rcases List.mem_append.mp member with held | extension
    · exact flat held
    · exact absurd extension (by decide)
  simpa using other

theorem extension_m3u {name : Text} (flat : '/' ∉ name) :
    Files.extension (name ++ text ".m3u") = text ".m3u" := by
  have dotted : '.' ∈ name ++ text ".m3u" := List.mem_append_right _ (by decide)
  have long : 4 ≤ (name ++ text ".m3u").length := by
    rw [List.length_append]
    exact Nat.le_add_left 4 name.length
  have one : name ++ text ".m3u" ≠ text "." := fun same => absurd (same ▸ long) (by decide)
  have two : name ++ text ".m3u" ≠ text ".." := fun same => absurd (same ▸ long) (by decide)
  have shape : name ++ text ".m3u" = (name ++ ['.']) ++ ['m', '3', 'u'] := by
    rw [List.append_assoc]
    rfl
  have last : (name ++ text ".m3u").rtakeWhile (· ≠ '.') = ['m', '3', 'u'] := by
    simp [shape, List.rtakeWhile, List.takeWhile]
  rw [Files.extension, filename_m3u flat]
  simp only [one, two, dotted, not_true, or_self, if_false, last]
  rfl

theorem stem_m3u {name : Text} (flat : '/' ∉ name) : Files.stem (name ++ text ".m3u") = name := by
  rw [Files.stem, filename_m3u flat, extension_m3u flat]
  simp

theorem is_playlist_file_m3u {name : Text} (flat : '/' ∉ name) :
    Files.isPlaylistFile (name ++ text ".m3u") = true := by
  rw [Files.isPlaylistFile, extension_m3u flat]
  decide

/-! ### Lines -/

section Reading

variable {files : Files} {kind : Text → Bool}

/-- A path that the loop can write on a line of its own. -/
structure Writable (files : Files) (s : Text) : Prop where
  whole : '\n' ∉ s
  keeps : keeps files s = true

/-- No comment is of this kind. -/
def Passes (kind : Text → Bool) : Prop := ∀ x : Text, kind ('#' :: x) = false

theorem passes_keeps (files : Files) : Passes (keeps files) := fun x => by simp [keeps]

theorem passes_blocks (files : Files) : Passes (blocks files) := fun x => by simp [blocks]

/-- The info of a track begins a comment line. -/
theorem lines_info (t : Song) (more : Text) : ∃ line rest,
    lines (info t ++ '\n' :: more) = ('#' :: line) :: rest := by
  obtain ⟨x, shape⟩ : ∃ x, info t = '#' :: x := ⟨_, rfl⟩
  rw [shape, List.cons_append, lines, if_neg (by decide)]
  cases lines (x ++ '\n' :: more) with
  | nil => exact ⟨[], [], rfl⟩
  | cons line rest => exact ⟨line, rest, rfl⟩

/-- A line of its own for a path, and nothing of its info but stray lines. -/
theorem filter_entry (passes : Passes kind) {t : Song} {s : Text} (whole : '\n' ∉ s) (more : Text) :
    (lines (entry t s ++ more)).filter kind = stray kind t ++ [s].filter kind ++ (lines more).filter kind := by
  have own : (lines (s ++ '\n' :: more)).filter kind = [s].filter kind ++ (lines more).filter kind := by
    rw [Lines.lines_line whole, ← List.singleton_append, List.filter_append]
  by_cases found : t.found = true
  · have shape : entry t s ++ more = info t ++ '\n' :: (s ++ '\n' :: more) := by
      simp [entry, found, text]
    obtain ⟨line, rest, read⟩ := lines_info t []
    have comment : (lines (info t ++ ['\n'])).filter kind = stray kind t := by
      rw [stray, if_pos found, show text "\n" = ['\n'] from rfl, read,
        List.filter_cons_of_neg (by simp [passes line]), List.tail_cons]
    rw [shape, Lines.lines_append_newline, List.filter_append, comment, own, List.append_assoc]
  · have shape : entry t s ++ more = s ++ '\n' :: more := by
      simp [entry, found, text]
    rw [shape, own, stray, if_neg found, List.nil_append]

theorem filter_entries (passes : Passes kind) {entries : List (Song × Text)} (whole : ∀ e ∈ entries, '\n' ∉ e.2) :
    (lines (entries.flatMap fun e => entry e.1 e.2)).filter kind =
      entries.flatMap fun e => stray kind e.1 ++ [e.2].filter kind := by
  induction entries with
  | nil => rfl
  | cons e entries ih =>
    obtain ⟨own, others⟩ := List.forall_mem_cons.mp whole
    rw [List.flatMap_cons, filter_entry passes own, ih others, List.flatMap_cons]

/-- The header takes the line that follows it: the info of the first track, or its path. -/
theorem filter_contents (passes : Passes kind) {entries : List (Song × Text)} (whole : ∀ e ∈ entries, '\n' ∉ e.2) :
    (lines (text "#EXTM3U" ++ entries.flatMap fun e => entry e.1 e.2)).filter kind =
      match entries with
      | [] => []
      | (t, s) :: rest => (if t.found then stray kind t ++ [s].filter kind else []) ++
        rest.flatMap fun e => stray kind e.1 ++ [e.2].filter kind := by
  have header : '\n' ∉ text "#EXTM3U" := by decide
  have comment (x : Text) (more : List Text) :
      ((text "#EXTM3U" ++ x) :: more).filter kind = more.filter kind :=
    List.filter_cons_of_neg (by rw [show text "#EXTM3U" ++ x = '#' :: (text "EXTM3U" ++ x) from rfl, passes]; decide)
  cases entries with
  | nil =>
    have one : lines (text "#EXTM3U" ++ []) = [text "#EXTM3U" ++ []] := by decide
    rw [List.flatMap_nil, one]
    exact comment [] []
  | cons e rest =>
    obtain ⟨t, s⟩ := e
    obtain ⟨own, others⟩ := List.forall_mem_cons.mp whole
    rw [List.flatMap_cons]
    simp only
    by_cases found : t.found = true
    · have shape (more : Text) : entry t s ++ more = info t ++ '\n' :: (s ++ '\n' :: more) := by
        simp [entry, found, text]
      obtain ⟨line, tail, read⟩ := lines_info t (s ++ '\n' :: rest.flatMap fun e => entry e.1 e.2)
      rw [← shape] at read
      have same := List.filter_cons_of_neg (l := tail) (show ¬ kind ('#' :: line) = true by simp [passes line])
      rw [Lines.lines_append header read, comment, ← same, ← read, filter_entry passes own,
        filter_entries passes others, if_pos found]
    · have shape (more : Text) : text "#EXTM3U" ++ (entry t s ++ more) =
          (text "#EXTM3U" ++ s) ++ '\n' :: more := by
        simp [entry, found, text]
      have first : '\n' ∉ text "#EXTM3U" ++ s := fun member => (List.mem_append.mp member).elim header own
      rw [shape, Lines.lines_line first, comment, filter_entries passes others, if_neg found]
      rfl

/-- The lines that are kept. -/
theorem kept_contents {entries : List (Song × Text)} (writable : ∀ e ∈ entries, Writable files e.2) :
    (lines (text "#EXTM3U" ++ entries.flatMap fun e => entry e.1 e.2)).filter (keeps files) =
      match entries with
      | [] => []
      | (t, s) :: rest => (if t.found then stray (keeps files) t ++ [s] else []) ++
        rest.flatMap fun e => stray (keeps files) e.1 ++ [e.2] := by
  rw [filter_contents (passes_keeps files) fun e member => (writable e member).whole]
  cases entries with
  | nil => rfl
  | cons e rest =>
    obtain ⟨t, s⟩ := e
    obtain ⟨own, others⟩ := List.forall_mem_cons.mp writable
    have single {path : Text} (each : Writable files path) : [path].filter (keeps files) = [path] :=
      List.filter_cons_of_pos each.keeps
    have rows : (rest.flatMap fun e => stray (keeps files) e.1 ++ [e.2].filter (keeps files)) =
        rest.flatMap fun e => stray (keeps files) e.1 ++ [e.2] :=
      List.flatMap_congr fun e member => by rw [single (others e member)]
    simp only [single own, rows]

/-- No line of the file stops the import but a stray one. -/
theorem unblocked_contents_iff {entries : List (Song × Text)} (writable : ∀ e ∈ entries, Writable files e.2) :
    (lines (text "#EXTM3U" ++ entries.flatMap fun e => entry e.1 e.2)).filter (blocks files) = [] ↔
      ∀ e ∈ entries, stray (blocks files) e.1 = [] := by
  rw [filter_contents (passes_blocks files) fun e member => (writable e member).whole]
  have none {path : Text} (each : Writable files path) : [path].filter (blocks files) = [] := by
    have there := each.keeps
    simp only [keeps, decide_eq_true_eq] at there
    exact List.filter_cons_of_neg (by simp [blocks, there.2])
  cases entries with
  | nil => simp
  | cons e rest =>
    obtain ⟨t, s⟩ := e
    obtain ⟨own, others⟩ := List.forall_mem_cons.mp writable
    have rows : (rest.flatMap fun e => stray (blocks files) e.1 ++ [e.2].filter (blocks files)) =
        rest.flatMap fun e => stray (blocks files) e.1 :=
      List.flatMap_congr fun e member => by rw [none (others e member), List.append_nil]
    have first : (if t.found then stray (blocks files) t ++ [] else []) = stray (blocks files) t := by
      by_cases found : t.found = true <;> simp [stray, found]
    simp only [none own, rows, first, List.append_eq_nil_iff, List.flatMap_eq_nil_iff, List.forall_mem_cons]

/-- The lines that do not stop the import are those whose status can be read. -/
theorem readable_iff {name contents : Text} (written : files.lines name = lines contents) :
    files.Readable name ↔ (lines contents).filter (blocks files) = [] := by
  rw [Files.Readable, written, List.filter_eq_nil_iff]
  refine forall₂_congr fun line _ => ?_
  cases status : files.present line <;> simp [blocks, status]

end Reading

/-! ### What may come back -/

section Rows

variable {f : Song → List Text} {entries : List (Song × Text)} {s : Text}

theorem length_flat_map (f : Song → List Text) (entries : List (Song × Text)) :
    entries.length ≤ (entries.flatMap fun e => f e.1 ++ [e.2]).length := by
  induction entries with
  | nil => exact Nat.le_refl 0
  | cons e entries ih =>
    simp only [List.flatMap_cons, List.length_append, List.length_cons, List.length_nil]
    omega

/-- Paths with lines between them are the paths only if there are no such lines. -/
theorem flat_map_eq_iff :
    (entries.flatMap fun e => f e.1 ++ [e.2]) = entries.map Prod.snd ↔ ∀ e ∈ entries, f e.1 = [] := by
  induction entries with
  | nil => simp
  | cons e entries ih =>
    rw [List.flatMap_cons, List.map_cons, List.forall_mem_cons]
    cases lines : f e.1 with
    | nil => simpa using ih
    | cons line more =>
      refine iff_of_false (fun same => ?_) (fun none => List.cons_ne_nil _ _ none.1)
      have enough := length_flat_map f entries
      have lengths := congrArg List.length same
      simp only [List.length_append, List.length_cons, List.length_nil, List.length_map] at lengths
      omega

/-- A path is made up for by one line more, after nothing but the path itself. -/
theorem flat_map_eq_cons_iff :
    (entries.flatMap fun e => f e.1 ++ [e.2]) = s :: entries.map Prod.snd ↔
      ∃ before e after, entries = before ++ e :: after ∧ f e.1 = [s] ∧
        (∀ b ∈ before, b.2 = s ∧ f b.1 = []) ∧ ∀ a ∈ after, f a.1 = [] := by
  induction entries generalizing s with
  | nil => simp
  | cons e entries ih =>
    rw [List.flatMap_cons, List.map_cons]
    cases lines : f e.1 with
    | nil =>
      have first : [] ++ [e.2] ++ (entries.flatMap fun e => f e.1 ++ [e.2]) = s :: e.2 :: entries.map Prod.snd ↔
          e.2 = s ∧ (entries.flatMap fun e => f e.1 ++ [e.2]) = e.2 :: entries.map Prod.snd := by
        simp
      rw [first, ih]
      constructor
      · rintro ⟨same, before, x, after, rfl, supplied, early, late⟩
        refine ⟨e :: before, x, after, rfl, same ▸ supplied, ?_, late⟩
        exact List.forall_mem_cons.mpr ⟨⟨same, lines⟩, same ▸ early⟩
      · rintro ⟨before, x, after, shape, supplied, early, late⟩
        cases before with
        | nil =>
          obtain ⟨rfl, rfl⟩ := List.cons.inj shape
          cases lines.symm.trans supplied
        | cons b before =>
          obtain ⟨rfl, rfl⟩ := List.cons.inj shape
          obtain ⟨⟨same, -⟩, rest⟩ := List.forall_mem_cons.mp early
          exact ⟨same, before, x, after, rfl, same ▸ supplied, same ▸ rest, late⟩
    | cons line more =>
      cases more with
      | nil =>
        have first : [line] ++ [e.2] ++ (entries.flatMap fun e => f e.1 ++ [e.2]) =
            s :: e.2 :: entries.map Prod.snd ↔
              line = s ∧ (entries.flatMap fun e => f e.1 ++ [e.2]) = entries.map Prod.snd := by
          simp
        rw [first, flat_map_eq_iff]
        constructor
        · rintro ⟨rfl, none⟩
          exact ⟨[], e, entries, rfl, lines, by simp, none⟩
        · rintro ⟨before, x, after, shape, supplied, early, late⟩
          cases before with
          | nil =>
            obtain ⟨rfl, rfl⟩ := List.cons.inj shape
            exact ⟨List.singleton_inj.mp (lines.symm.trans supplied), late⟩
          | cons b before =>
            obtain ⟨rfl, rfl⟩ := List.cons.inj shape
            cases lines.symm.trans (early e List.mem_cons_self).2
      | cons second more =>
        -- Two lines more than paths are too many.
        refine iff_of_false (fun same => ?_) ?_
        · have enough := length_flat_map f entries
          have lengths := congrArg List.length same
          simp only [List.length_append, List.length_cons, List.length_nil, List.length_map] at lengths
          omega
        · rintro ⟨before, x, after, shape, supplied, early, late⟩
          cases before with
          | nil =>
            obtain ⟨rfl, rfl⟩ := List.cons.inj shape
            cases lines.symm.trans supplied
          | cons b before =>
            obtain ⟨rfl, rfl⟩ := List.cons.inj shape
            cases lines.symm.trans (early e List.mem_cons_self).2

end Rows

/-! ### Export and import -/

variable {files : Files} {scan : Scan} {duration : Double} {made asked : Nat → Db}

theorem contents_of_songs {present : Files} {i : Nat} {tracks : List Text} {entries : List (Song × Text)}
    {contents : Text} {calls : List Call} (found : songs scan duration asked i tracks = some entries)
    (exported : exportTracks present scan duration made asked i tracks = some (contents, calls)) :
    contents = (entries.flatMap fun e => entry e.1 e.2) ∧ entries.map Prod.snd = tracks := by
  induction tracks generalizing i entries contents calls with
  | nil =>
    cases found
    cases exported
    exact ⟨rfl, rfl⟩
  | cons s tracks ih =>
    simp only [songs, Option.bind_eq_bind, Option.bind_eq_some_iff, Option.pure_def,
      Option.some.injEq] at found
    simp only [exportTracks, Option.bind_eq_bind, Option.bind_eq_some_iff, Option.pure_def,
      Option.some.injEq, Prod.mk.injEq] at exported
    obtain ⟨⟨_, t⟩, asks, others, rest, rfl⟩ := found
    obtain ⟨-, -, ⟨_, u⟩, again, ⟨more, pushed⟩, onwards, rfl, -⟩ := exported
    cases asks.symm.trans again
    obtain ⟨rfl, rfl⟩ := ih rest onwards
    exact ⟨rfl, rfl⟩

/-- **A header without a newline.** A playlist whose tracks can each stand on a line is read back
from its export as it was exactly when no line of an info has an unreadable status, the catalog holds its first
track, and no line of an info is read as a path, save where such a line makes up for the first path. -/
theorem exported_playlist_restored_iff {present : Files} {p : Playlist} {entries : List (Song × Text)}
    {name contents : Text} {calls : List Call} (flat : '/' ∉ p.name)
    (writable : ∀ s ∈ p.tracks, Writable files s)
    (found : songs scan duration asked 0 p.tracks = some entries)
    (exported : exportPlaylist present scan duration made asked p = some (name, contents, calls))
    (there : files.present name = some true) (written : files.lines name = lines contents) :
    (files.playlist name).map Prod.fst = some p ↔
      (∀ e ∈ entries, stray (blocks files) e.1 = []) ∧ Restores files entries := by
  simp only [exportPlaylist, Option.bind_eq_bind, Option.bind_eq_some_iff, Option.pure_def,
    Option.some.injEq, Prod.mk.injEq] at exported
  obtain ⟨⟨body, pushed⟩, ran, rfl, rfl, -⟩ := exported
  obtain ⟨rfl, paths⟩ := contents_of_songs found ran
  have each : ∀ e ∈ entries, Writable files e.2 := fun e member =>
    writable e.2 (paths ▸ List.mem_map_of_mem member)
  have kept : files.tracks (p.name ++ text ".m3u") = _ :=
    (congrArg (List.filter (keeps files)) written).trans (kept_contents each)
  have legible := (readable_iff written).trans (unblocked_contents_iff each)
  have made : (files.playlistOf (p.name ++ text ".m3u")).1 =
      ⟨p.name, files.tracks (p.name ++ text ".m3u")⟩ := by
    rw [Files.playlistOf, if_pos ⟨there, is_playlist_file_m3u flat⟩, stem_m3u flat]
  have fields : (files.playlist (p.name ++ text ".m3u")).map Prod.fst = some p ↔
      (∀ e ∈ entries, stray (blocks files) e.1 = []) ∧ files.tracks (p.name ++ text ".m3u") = p.tracks := by
    rw [← legible, Files.playlist_eq]
    by_cases readable : files.Readable (p.name ++ text ".m3u")
    · have loads : files.Loads (p.name ++ text ".m3u") := ⟨by rw [there]; rfl, fun _ _ => readable⟩
      rw [if_pos loads, Option.map_some, Option.some.injEq, made, and_iff_right readable]
      exact ⟨fun same => congrArg Playlist.tracks same, fun same => same ▸ rfl⟩
    · have stuck : ¬ files.Loads (p.name ++ text ".m3u") := fun loads =>
        readable (loads.2 there (is_playlist_file_m3u flat))
      rw [if_neg stuck, Option.map_none]
      exact iff_of_false (fun same => by cases same) fun both => readable both.1
  rw [fields, kept, ← paths]
  refine and_congr_right fun _ => ?_
  cases entries with
  | nil => exact iff_of_true rfl trivial
  | cons e rest =>
    obtain ⟨t, s⟩ := e
    cases first : t.found with
    | true =>
      have shape : stray (keeps files) t ++ [s] ++ (rest.flatMap fun e => stray (keeps files) e.1 ++ [e.2]) =
          ((t, s) :: rest).flatMap fun e => stray (keeps files) e.1 ++ [e.2] := rfl
      simp only [Restores, first, if_true, true_and, Bool.true_eq_false, false_and, or_false]
      rw [shape, flat_map_eq_iff]
    | false =>
      simp only [Restores, first, Bool.false_eq_true, if_false, false_and, true_and, false_or,
        List.nil_append]
      exact flat_map_eq_cons_iff

/-- Two files, one of them a playlist of some contents. -/
def shelf (contents : Text) : Files where
  present path := some (path = text "a" ∨ path = text "m.m3u")
  regular path := some (path = text "a" ∨ path = text "m.m3u")
  lines _ := lines contents
  mime _ := some ""
  hash _ := ""

theorem writable_on_shelf (contents : Text) : ∀ s ∈ [text "a"], Writable (shelf contents) s := by
  intro s member
  cases List.mem_singleton.mp member
  exact ⟨by decide, rfl⟩

def untitled : Song := { path := "a", artist := "x\n", md5 := "" }

/-- A catalog that holds the song. -/
def held : Db := Db.empty.create { emptyCatalog with rows := [untitled.values] }

theorem select_held : selectTrack .stored ⟨0⟩ held "a" = some (held, { untitled with found := true }) :=
  Track.select_of_inserted (t := emptyCatalog) .stored ⟨0⟩ (s := untitled) (by decide)
    declared_empty_catalog (fun _ member => nomatch member) (Db.lookup_create_self rfl rfl)

/-- An artist with a newline: the line after it names no file. -/
theorem held_playlist_restored :
    ((shelf "#EXTM3U#EXTINF:-1,x\n - \na\n").playlist "m.m3u").map Prod.fst = some ⟨"m", ["a"]⟩ := by
  have found : songs .stored ⟨0⟩ (fun _ => held) 0 [text "a"] =
      some [({ untitled with found := true }, text "a")] := by
    simp only [songs, select_held, Option.bind_eq_bind, Option.bind_some]
    rfl
  have constructed : (shelf "").track .stored ⟨0⟩ held "a" = some (held, []) := by
    have there : (shelf "").present "a" = some true := rfl
    have kind : (shelf "").mime "a" = some "" := rfl
    simp only [Files.track, there, kind, select_held, Option.bind_eq_bind, Option.bind_some, if_true]
    rfl
  have exported : exportPlaylist (shelf "") .stored ⟨0⟩ (fun _ => held) (fun _ => held) ⟨"m", [text "a"]⟩ =
      some (text "m.m3u", text "#EXTM3U#EXTINF:-1,x\n - \na\n", []) := by
    simp only [exportPlaylist, exportTracks, constructed, select_held, Option.bind_eq_bind,
      Option.bind_some]
    rfl
  exact (exported_playlist_restored_iff (p := ⟨"m", [text "a"]⟩) (by decide)
    (writable_on_shelf _) found exported rfl rfl).mpr ⟨by decide, .inl ⟨rfl, by decide⟩⟩

/-- The catalog does not hold the only track, whose path is written on the line of the header. -/
theorem unknown_first_track_lost :
    ¬ ∀ (present files : Files) (scan : Scan) (duration : Double) (made asked : Nat → Db) (p : Playlist)
      (name contents : Text) (calls : List Call), '/' ∉ p.name → (∀ s ∈ p.tracks, Writable files s) →
      exportPlaylist present scan duration made asked p = some (name, contents, calls) →
      files.present name = some true → files.lines name = lines contents →
      (files.playlist name).map Prod.fst = some p := by
  intro all
  let db := Db.empty.create emptyCatalog
  have clean : nul ∉ text "a" := by decide
  have selected := Track.select_of_unseen .stored ⟨0⟩ clean Track.lookup_empty_catalog
    declared_empty_catalog (by decide)
  have constructed : (shelf "").track .stored ⟨0⟩ db "a" =
      some (db, [.insertPath "a", .insertPath "a"]) := by
    have there : (shelf "").present "a" = some true := rfl
    have kind : (shelf "").mime "a" = some "" := rfl
    simp only [db, Files.track, there, kind, selected, Option.bind_eq_bind, Option.bind_some, if_true]
    rfl
  have exported : exportPlaylist (shelf "") .stored ⟨0⟩ (fun _ => db) (fun _ => db) ⟨"m", [text "a"]⟩ =
      some (text "m.m3u", text "#EXTM3Ua\n", [.insertPath "a", .insertPath "a"]) := by
    simp only [exportPlaylist, exportTracks, constructed, selected, Option.bind_eq_bind,
      Option.bind_some, db]
    rfl
  have restored := all (shelf "") (shelf "#EXTM3Ua\n") .stored ⟨0⟩ (fun _ => db) (fun _ => db)
    ⟨"m", [text "a"]⟩ _ _ _ (by decide) (writable_on_shelf _) exported rfl rfl
  exact absurd (congrArg (Option.map Playlist.tracks) restored) (by decide)

end Sws.Export
