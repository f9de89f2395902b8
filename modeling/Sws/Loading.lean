import Sws.Durations
import Sws.Track

/-! The constructor of `track` from a path, with the members it sets and those it leaves. What it reads
of the catalog goes into a song, what it reads of the file into the track; and the one is pushed where
the other is new. -/
namespace Sws.Loading

open Database Sql

/-- What TagLib reads of a file. -/
structure Tags where
  title : Text
  track : UInt32
  album : Text
  year : UInt32
  artist : Text
  deriving DecidableEq, Repr

/-- The members of a track. -/
structure Members where
  path : Text
  title : Text
  trackNo : UInt8
  album : Text
  year : UInt16
  artist : Text
  favorite : Bool
  duration : Raw
  spotifyId : Text
  md5 : Text
  mimeType : Text
  deriving DecidableEq, Repr

/-- What lies in the memory of the members that no one initializes. -/
structure Memory where
  trackNo : UInt8
  year : UInt16
  favorite : Bool
  duration : Raw
  deriving DecidableEq, Repr

namespace Members

/-- A track before the first assignment: its strings are empty. -/
def fresh (memory : Memory) : Members where
  path := ""
  title := ""
  trackNo := memory.trackNo
  album := ""
  year := memory.year
  artist := ""
  favorite := memory.favorite
  duration := memory.duration
  spotifyId := ""
  md5 := ""
  mimeType := ""

/-- `track::get_tags`; a file may have none. -/
def getTags (m : Members) (tags : Option Tags) : Members :=
  match tags with
  | some tags => { m with
    title := tags.title
    trackNo := tags.track.toUInt8
    album := tags.album
    year := tags.year.toUInt16
    artist := tags.artist }
  | none => m

end Members

/-- A constructed track, what was pushed on the way, and the songs put into the queue for durations. -/
structure Loaded where
  track : Members
  db : Db
  calls : List Call
  durations : List Song

/-- The constructor of `track` from a path. The local song's duration is `stack` and stays so; where it
is no number its name is pushed in an `INSERT`, which is outside the fragment. -/
def load (files : Files) (tags : Text → Option Tags) (scan : Scan) (memory : Memory) (stack : Raw)
    (db : Db) (path : Text) : Option Loaded := do
  let m : Members := { Members.fresh memory with path := path }
  let present ← files.present path
  if ¬ present then
    let cleared : Members := { m with
      title := ""
      artist := ""
      trackNo := 0
      album := ""
      year := 0
      md5 := ""
      favorite := false
      spotifyId := ""
      mimeType := ""
      duration := .number 0 }
    return ⟨cleared, db, [], []⟩
  else
    let (db, s) ← selectTrack scan ⟨stack.millionths.getD 0⟩ db path
    let first : List Call := if ¬ s.found then [.insertPath path] else []
    let fileMd5 := files.hash path
    let mimeType ← files.mime path
    let m := { m with mimeType := mimeType }
    if ¬ s.found then return ⟨m, db, first ++ [.insertPath path], []⟩
    else if s.md5 ≠ fileMd5 ∧ Files.audioType mimeType then
      if stack.millionths.isSome then
        return ⟨m.getTags (tags path), db, first ++ [.insertTrack s], [s]⟩
      else none
    else if m.duration.atMostZero then return ⟨m, db, first, [s]⟩
    else
      return ⟨{ m with
        title := s.title
        trackNo := UInt8.ofInt s.trackNo
        album := s.album
        year := s.year
        artist := s.artist
        spotifyId := s.spotifyId
        duration := stack
        md5 := s.md5 }, db, first, []⟩

section Load

variable {files : Files} {tags : Text → Option Tags} {scan : Scan} {memory : Memory} {stack : Raw} {db : Db}
  {path : Text} {e : Entry}

/-- What is pushed is what the construction of a track pushes. -/
theorem load_pushes {millionths : Int} (finite : stack.millionths = some millionths) :
    (load files tags scan memory stack db path).map (fun l => (l.db, l.calls)) =
      files.track scan ⟨millionths⟩ db path := by
  simp only [load, Files.track, finite, Option.getD_some, Option.isSome_some, Option.bind_eq_bind]
  cases files.present path with
  | none => rfl
  | some there =>
    cases there with
    | false => rfl
    | true =>
      cases selectTrack scan ⟨millionths⟩ db path with
      | none => rfl
      | some read =>
        obtain ⟨db, s⟩ := read
        cases files.mime path with
        | none => rfl
        | some mimeType =>
          simp only [Option.bind_some, not_true_eq_false, if_false, if_true]
          split_ifs <;> simp_all

end Load

/-! ### A row that is current -/

/-- The track has what the row says. -/
structure Shows (m : Members) (e : Entry) : Prop where
  title : m.title = e.title
  trackNo : (m.trackNo.toNat : Int) = e.trackNo
  album : m.album = e.album
  year : (m.year.toNat : Int) = e.year
  artist : m.artist = e.artist
  favorite : m.favorite = decide (e.favorite ≠ 0)
  spotifyId : m.spotifyId = e.spotifyId
  duration : m.duration = .number (e.duration / 1000000)
  md5 : m.md5 = e.hash

/-- The memory says what the row says, where the row is not asked. -/
def Remembers (memory : Memory) (stack : Raw) (e : Entry) : Prop :=
  if memory.duration.atMostZero then
    (e.title = "" ∧ e.album = "" ∧ e.artist = "" ∧ e.spotifyId = "" ∧ e.hash = "") ∧
      (memory.trackNo.toNat : Int) = e.trackNo ∧ (memory.year.toNat : Int) = e.year ∧
      memory.favorite = decide (e.favorite ≠ 0) ∧ memory.duration = .number (e.duration / 1000000)
  else
    (0 ≤ e.trackNo ∧ e.trackNo < 256) ∧ (0 ≤ e.year ∧ e.year < 65536) ∧
      memory.favorite = decide (e.favorite ≠ 0) ∧ stack = .number (e.duration / 1000000)

section Current

variable {files : Files} {scan : Scan} {db : Db} {path : Text} {e : Entry}

theorem year_shown_iff (n : Int) : ((UInt16.ofInt n).toNat : Int) = n ↔ 0 ≤ n ∧ n < 65536 := by
  have narrowed : ((UInt16.ofInt n).toNat : Int) = n % 65536 := by
    simp [UInt16.ofInt]
    omega
  rw [narrowed]
  omega

/-- A track whose row is current is left as it is, or is given what the row says, and nothing is pushed. -/
theorem load_of_current (tags : Text → Option Tags) (present : files.present path = some true) {mimeType : Text}
    (type : files.mime path = some mimeType) (clean : nul ∉ path) (finds : Finds scan db path e)
    (current : e.hash = files.hash path) (memory : Memory) (stack : Raw) :
    ∃ l, load files tags scan memory stack db path = some l ∧ (l.db = db ∧ l.calls = []) ∧
      let m : Members := { Members.fresh memory with
        path := path
        mimeType := mimeType }
      l.track = if memory.duration.atMostZero then m else { m with
        title := e.title
        trackNo := UInt8.ofInt e.trackNo
        album := e.album
        year := UInt16.ofInt e.year
        artist := e.artist
        spotifyId := e.spotifyId
        duration := stack
        md5 := e.hash } := by
  have selected := select_of_finds finds clean ⟨stack.millionths.getD 0⟩
  have known : (e.song ⟨stack.millionths.getD 0⟩).found = true := rfl
  have same : ¬ (e.song ⟨stack.millionths.getD 0⟩).md5 ≠ files.hash path := not_not.mpr current
  simp only [load, present, selected, type, not_true_eq_false, if_false, Option.bind_eq_bind, Option.bind_some,
    known, same, false_and, Members.fresh]
  cases memory.duration.atMostZero with
  | true => exact ⟨_, rfl, ⟨rfl, rfl⟩, rfl⟩
  | false => exact ⟨_, rfl, ⟨rfl, rfl⟩, rfl⟩

/-- **Current rows.** Whatever the row, a track whose row is current has what the row says exactly when
libmagic can read its file and the memory that is not assigned says so already: that of `favorite` and of the
local duration, and that of every member where `duration` is not above zero. -/
theorem current_row_shown_iff (tags : Text → Option Tags) (present : files.present path = some true)
    (clean : nul ∉ path) (finds : Finds scan db path e) (current : e.hash = files.hash path)
    (memory : Memory) (stack : Raw) :
    (∃ l, load files tags scan memory stack db path = some l ∧ Shows l.track e) ↔
      (files.mime path).isSome ∧ Remembers memory stack e := by
  cases type : files.mime path with
  | none =>
    have selected := select_of_finds finds clean ⟨stack.millionths.getD 0⟩
    have fails : load files tags scan memory stack db path = none := by
      simp [load, present, selected, type]
    simp [fails]
  | some mimeType =>
  obtain ⟨l, ran, -, track⟩ := load_of_current tags present type clean finds current memory stack
  have only : (∃ l, load files tags scan memory stack db path = some l ∧ Shows l.track e) ↔ Shows l.track e := by
    simp [ran]
  rw [only, track, Option.isSome_some, eq_self_iff_true, true_and]
  cases low : memory.duration.atMostZero with
  | true =>
    rw [Remembers, if_pos low]
    constructor
    · rintro ⟨title, trackNo, album, year, artist, favorite, spotifyId, duration, md5⟩
      exact ⟨⟨title.symm, album.symm, artist.symm, spotifyId.symm, md5.symm⟩, trackNo, year, favorite,
        duration⟩
    · rintro ⟨⟨title, album, artist, spotifyId, md5⟩, trackNo, year, favorite, duration⟩
      exact ⟨title.symm, trackNo, album.symm, year, artist.symm, favorite, spotifyId.symm, duration,
        md5.symm⟩
  | false =>
    rw [Remembers, if_neg (Bool.eq_false_iff.mp low), ← Track.track_no_restored_iff, ← year_shown_iff]
    constructor
    · rintro ⟨-, trackNo, -, year, -, favorite, -, duration, -⟩
      exact ⟨trackNo, year, favorite, duration⟩
    · rintro ⟨trackNo, year, favorite, duration⟩
      exact ⟨rfl, trackNo, rfl, year, rfl, favorite, rfl, duration, rfl⟩

end Current

/-- A favorite of three minutes. -/
def loved : Entry where
  path := "/a.mp3"
  title := "A"
  trackNo := 7
  year := 1977
  favorite := 1
  duration := 180000000
  hash := "900150983cd24fb0d6963f7d28e17f72"

/-- A catalog of one row. -/
def single (e : Entry) : Db := Db.empty.create { emptyCatalog with rows := [e.row] }

theorem finds_single (e : Entry) : Finds .stored (single e) e.path e := by
  refine ⟨{ emptyCatalog with rows := [e.row] }, rfl, ⟨rfl, rfl⟩, ?_⟩
  have own : Table.cell { emptyCatalog with rows := [e.row] } e.row "path" = .text e.path := rfl
  simp [metRows, Scan.stored, own]

/-- Memory that happens to say what the row says. -/
theorem remembered_row_shown : ∃ l,
    load Durations.there (fun _ => none) .stored ⟨0, 0, true, .number 1⟩ (.number 180) (single loved) "/a.mp3" =
      some l ∧ Shows l.track loved := by
  have present : Durations.there.present loved.path = some true := rfl
  refine (current_row_shown_iff (fun _ => none) present (by decide) (finds_single loved) rfl
    ⟨0, 0, true, .number 1⟩ (.number 180)).mpr ⟨rfl, ?_⟩
  have seconds : (180 : Rat) = (180000000 : Int) / 1000000 := by norm_num
  rw [Remembers, if_neg (by decide)]
  exact ⟨by decide, by decide, rfl, congrArg Raw.number seconds⟩

/-- The member `favorite` is not assigned. -/
theorem favorite_row_not_shown : ¬ ∀ (files : Files) (tags : Text → Option Tags) (scan : Scan)
    (memory : Memory) (stack : Raw) (db : Db) (path : Text) (e : Entry), files.present path = some true →
    (files.mime path).isSome → nul ∉ path → Finds scan db path e → e.hash = files.hash path →
    ∃ l, load files tags scan memory stack db path = some l ∧ Shows l.track e := by
  intro all
  have clean : nul ∉ text "/a.mp3" := by decide
  obtain ⟨l, ran, shows⟩ := all Durations.there (fun _ => none) .stored ⟨0, 0, false, .number 1⟩ (.number 180)
    (single loved) "/a.mp3" loved rfl rfl clean (finds_single loved) rfl
  have present : Durations.there.present loved.path = some true := rfl
  obtain ⟨l', ran', -, track⟩ := load_of_current (fun _ => none) present rfl clean (finds_single loved) rfl
    ⟨0, 0, false, .number 1⟩ (.number 180)
  cases ran.symm.trans ran'
  have favorite := shows.favorite
  rw [track] at favorite
  exact absurd favorite (by decide)

/-! ### A row that is not current -/

/-- Nothing in the row ends a literal or a text when it is inserted again. -/
structure Inert (e : Entry) : Prop where
  title : nul ∉ e.title
  album : nul ∉ e.album
  artist : nul ∉ e.artist
  spotifyId : nul ∉ e.spotifyId
  hash : nul ∉ e.hash
  spotifyIdPlain : quote ∉ e.spotifyId
  hashPlain : quote ∉ e.hash

theorem Inert.of_duration {e : Entry} (inert : Inert e) {d : Int} : Inert { e with duration := d } :=
  ⟨inert.title, inert.album, inert.artist, inert.spotifyId, inert.hash, inert.spotifyIdPlain, inert.hashPlain⟩

/-- The rows of a path. -/
def rowsOf (t : Table) (path : Text) : List Row := t.rows.filter fun r => t.cell r "path" = .text path

/-- The rows of the path: this one was put in first, and there are so many. -/
def Leads (db : Db) (path : Text) (e : Entry) (n : Nat) : Prop :=
  ∃ t, db.lookup "db_catalog" = some t ∧ Declared .catalog t ∧ (rowsOf t path).head? = some e.row ∧
    (rowsOf t path).length = n

/-- The rows of a path are met in the order in which they were put in. -/
def Steady (scan : Scan) : Prop := ∀ t path, metRows scan t path = rowsOf t path

theorem steady_stored : Steady .stored := fun _ _ => rfl

/-- One construction of the track, and the durations its worker pushes before the queue is drained. -/
structure Visit where
  scan : Scan
  memory : Memory
  stack : Raw
  later : List (Text × Double)

namespace Visit

/-- Everything a visit pushes. -/
def texts (v : Visit) (l : Loaded) : List Text :=
  l.calls.flatMap Call.texts ++ v.later.map fun p => updateDuration p.1 p.2

/-- SQLite meets the rows in the order of the table, and what lies on the stack is a number. -/
structure Usual (v : Visit) : Prop where
  steady : Steady v.scan
  finite : v.stack.millionths.isSome

end Visit

/-- A construction and the execution of what was pushed. -/
def step (files : Files) (tags : Text → Option Tags) (path : Text) : Steps Db Visit := fun db v =>
  (load files tags v.scan v.memory v.stack db path).bind fun l => execAll l.db (v.texts l)

/-- A song has the tags, in the widths of a track. -/
structure Tagged (s : Song) (g : Tags) : Prop where
  title : s.title = g.title
  trackNo : s.trackNo = g.track.toUInt8.toNat
  album : s.album = g.album
  year : s.year = g.year.toUInt16
  artist : s.artist = g.artist

/-- After one visit `select_track` reads the file's hash and its tags, if it has any, and another visit inserts
nothing. -/
def BroughtUpToDate (files : Files) (tags : Text → Option Tags) (db : Db) (path : Text) (v w : Visit) : Prop :=
  ∃ l after duration read again, load files tags v.scan v.memory v.stack db path = some l ∧
    execAll l.db (v.texts l) = some after ∧ selectTrack w.scan duration after path = some (after, read) ∧
    read.md5 = files.hash path ∧ (∀ g, tags path = some g → Tagged read g) ∧
    load files tags w.scan w.memory w.stack after path = some again ∧ again.calls = []

section Leading

variable {files : Files} {tags : Text → Option Tags} {db after : Db} {path : Text} {n : Nat} {e : Entry}

theorem finds_of_leads (leads : Leads db path e n) {scan : Scan} (steady : Steady scan) : Finds scan db path e := by
  obtain ⟨t, found, declared, first, -⟩ := leads
  exact ⟨t, found, declared, by rw [steady]; exact first⟩

/-- The row that is met first is inserted again, behind the others. -/
theorem leads_insert (leads : Leads db path e n) (clean : nul ∉ path) (inert : Inert e) (duration : Double) :
    ∃ after, exec db (insertTrack (e.song duration)) = some (after, true) ∧ Leads after path e (n + 1) := by
  have own : e.path = path := path_of_finds (finds_of_leads leads steady_stored)
  obtain ⟨t, found, declared, first, length⟩ := leads
  let s := e.song duration
  let grown : Table := { t with rows := t.rows ++ [s.values] }
  have free : nul ∉ insertTrack s := by
    refine clean_insert_track ⟨?_, inert.title, inert.album, inert.artist, inert.spotifyId, inert.hash⟩
    show nul ∉ e.path
    rwa [own]
  have denotes : Denotes (insertTrack s) (.insert false "db_catalog" none [s.values]) :=
    insert_track_denotes inert.spotifyIdPlain inert.hashPlain
  have ran : exec db (insertTrack s) = some (db.put grown, true) := by
    rw [denotes.exec_eq, if_neg free, insert_track_eq found declared]
    rfl
  have there : (db.put grown).lookup "db_catalog" = some grown :=
    Db.lookup_put_self found (Db.fold_name_of_lookup (t := t) found)
  have new : (Entry.ofSong s).row = s.values := Entry.row_of_song s
  have cell : t.cell s.values "path" = .text path := by
    rw [← new, Entry.cell_path declared]
    exact congrArg Value.text own
  have rows : rowsOf grown path = rowsOf t path ++ [s.values] := by
    have same (r : Row) : grown.cell r "path" = t.cell r "path" := rfl
    simp only [rowsOf, same, grown, List.filter_append, List.filter_singleton, cell, decide_true]
    rfl
  refine ⟨db.put grown, ran, grown, there, ⟨declared.columns, declared.key⟩, ?_, ?_⟩
  · rw [rows, List.head?_append, first]
    rfl
  · rw [rows, List.length_append, length]
    rfl

/-- A duration is stored in the rows of its path, and in no others. -/
theorem leads_record (leads : Leads db path e n) (p : Text) (d : Double) :
    ∃ d', Leads (Durations.record db p d) path { e with duration := d' } n := by
  obtain ⟨t, found, declared, first, length⟩ := leads
  let change (r : Row) : Row :=
    if t.cell r "path" = .text p then r.set 7 (.real d.millionths) else r
  let changed : Table := { t with rows := t.rows.map change }
  have there : (db.put changed).lookup "db_catalog" = some changed :=
    Db.lookup_put_self found (Db.fold_name_of_lookup (t := t) found)
  have cell (r : Row) : changed.cell (change r) "path" = t.cell r "path" := by
    have kept : (change r)[0]? = r[0]? := by
      simp only [change]
      split_ifs
      · exact List.getElem?_set_ne (by decide)
      · rfl
    have same : Declared .catalog changed := ⟨declared.columns, declared.key⟩
    rw [Catalog.cell_path same, Catalog.cell_path declared, kept]
  have rows : rowsOf changed path = (rowsOf t path).map change := by
    have each (r : Row) : decide (changed.cell (change r) "path" = .text path) =
        decide (t.cell r "path" = .text path) := by rw [cell]
    simp only [rowsOf, changed, List.filter_map]
    exact congrArg (List.map change) (List.filter_congr fun r _ => each r)
  have moved : ∃ d', change e.row = { e with duration := d' : Entry }.row := by
    by_cases hit : t.cell e.row "path" = .text p
    · refine ⟨d.millionths, ?_⟩
      simp only [change, hit, if_true]
      rfl
    · exact ⟨e.duration, if_neg hit⟩
  obtain ⟨d', moved⟩ := moved
  rw [Durations.record_eq found]
  refine ⟨d', changed, there, ⟨declared.columns, declared.key⟩, ?_, ?_⟩
  · rw [rows, List.head?_map, first, ← moved]
    rfl
  · rw [rows, List.length_map, length]

theorem leads_update (leads : Leads db path e n) (p : Text) (d : Double) :
    ∃ after ok d', exec db (updateDuration p d) = some (after, ok) ∧ Leads after path { e with duration := d' } n := by
  by_cases cut : nul ∈ p
  · have short : nul ∈ updateDuration p d := Durations.nul_mem_update_duration.mpr cut
    exact ⟨db, false, e.duration, by rw [(update_duration_denotes p d).exec_eq, if_pos short], leads⟩
  · obtain ⟨d', recorded⟩ := leads_record leads p d
    obtain ⟨t, found, declared, -⟩ := leads
    exact ⟨_, true, d', Durations.exec_update_duration found declared cut d, recorded⟩

theorem leads_updates (leads : Leads db path e n) (later : List (Text × Double)) :
    ∃ after d', execAll db (later.map fun p => updateDuration p.1 p.2) = some after ∧
      Leads after path { e with duration := d' } n := by
  induction later generalizing db e with
  | nil => exact ⟨db, e.duration, rfl, leads⟩
  | cons p later ih =>
    obtain ⟨middle, ok, d, first, still⟩ := leads_update leads p.1 p.2
    obtain ⟨after, d', rest, last⟩ := ih still
    exact ⟨after, d', exec_all_cons first rest, last⟩

/-- The construction pushes the old song. -/
theorem load_of_outdated (tags : Text → Option Tags) (present : files.present path = some true)
    (audio : files.isAudioFile path = some true) (clean : nul ∉ path) (v : Visit) (finds : Finds v.scan db path e)
    (other : e.hash ≠ files.hash path) {millionths : Int} (finite : v.stack.millionths = some millionths) :
    ∃ l, load files tags v.scan v.memory v.stack db path = some l ∧ l.db = db ∧
      l.calls = [.insertTrack (e.song ⟨millionths⟩)] := by
  obtain ⟨mimeType, type, sound⟩ := Option.map_eq_some_iff.mp audio
  have selected := select_of_finds finds clean ⟨millionths⟩
  have known : (e.song ⟨millionths⟩).found = true := rfl
  have differs : (e.song ⟨millionths⟩).md5 ≠ files.hash path := other
  rw [load, finite, Option.getD_some, selected]
  simp only [present, type, not_true_eq_false, if_false, Option.bind_eq_bind, Option.bind_some, known, differs,
    sound, ne_eq, not_false_eq_true, and_self, if_true, Option.isSome_some]
  exact ⟨_, rfl, rfl, rfl⟩

/-- **One visit.** The row that is met first stays what it is but for its duration; if its hash is not the
file's, there is one row more. -/
theorem leads_step (tags : Text → Option Tags) (present : files.present path = some true)
    (audio : files.isAudioFile path = some true) (clean : nul ∉ path) (leads : Leads db path e n)
    (inert : Inert e) {v : Visit} (usual : v.Usual) :
    ∃ l after d, load files tags v.scan v.memory v.stack db path = some l ∧ execAll l.db (v.texts l) = some after ∧
      (l.calls = [] ↔ e.hash = files.hash path) ∧
      Leads after path { e with duration := d } (n + if e.hash = files.hash path then 0 else 1) := by
  have finds := finds_of_leads leads usual.steady
  by_cases current : e.hash = files.hash path
  · obtain ⟨mimeType, type, -⟩ := Option.map_eq_some_iff.mp audio
    obtain ⟨l, ran, ⟨same, calls⟩, -⟩ := load_of_current tags present type clean finds current v.memory v.stack
    obtain ⟨after, d, updated, last⟩ := leads_updates leads v.later
    refine ⟨l, after, d, ran, ?_, iff_of_true calls current, by rwa [if_pos current]⟩
    rw [Visit.texts, calls, same]
    exact updated
  · obtain ⟨millionths, number⟩ := Option.isSome_iff_exists.mp usual.finite
    obtain ⟨l, ran, same, calls⟩ := load_of_outdated tags present audio clean v finds current number
    obtain ⟨middle, inserted, grown⟩ := leads_insert leads clean inert ⟨millionths⟩
    obtain ⟨after, d, updated, last⟩ := leads_updates grown v.later
    refine ⟨l, after, d, ran, ?_, iff_of_false (by simp [calls]) current, by rwa [if_neg current]⟩
    rw [Visit.texts, calls, same]
    exact exec_all_cons inserted updated

theorem tagged_song_iff {g : Tags} (d d' : Double) : Tagged (e.song d) g ↔ Tagged (e.song d') g :=
  ⟨fun ⟨title, trackNo, album, year, artist⟩ => ⟨title, trackNo, album, year, artist⟩,
    fun ⟨title, trackNo, album, year, artist⟩ => ⟨title, trackNo, album, year, artist⟩⟩

/-- One visit brings the catalog up to date where it was so. -/
theorem brought_up_to_date_iff (tags : Text → Option Tags) (present : files.present path = some true)
    (audio : files.isAudioFile path = some true) (clean : nul ∉ path) (leads : Leads db path e n)
    (inert : Inert e) {v w : Visit} (first : v.Usual) (second : w.Usual) :
    BroughtUpToDate files tags db path v w ↔
      e.hash = files.hash path ∧ ∀ g, tags path = some g → Tagged (e.song ⟨0⟩) g := by
  obtain ⟨l, after, d, ran, drained, -, left⟩ := leads_step tags present audio clean leads inert first
  have selected (duration : Double) := select_of_finds (finds_of_leads left second.steady) clean duration
  constructor
  · rintro ⟨l', after', duration, read, again, ran', drained', selected', hash, tagged, -⟩
    cases ran.symm.trans ran'
    cases drained.symm.trans drained'
    cases (selected duration).symm.trans selected'
    exact ⟨hash, fun g held => (tagged_song_iff _ _).mp (tagged g held)⟩
  · rintro ⟨current, tagged⟩
    obtain ⟨again, -, -, ran', -, calls, -⟩ := leads_step tags present audio clean left inert.of_duration second
    exact ⟨l, after, ⟨0⟩, _, again, ran, drained, selected ⟨0⟩, current,
      fun g held => (tagged_song_iff _ _).mp (tagged g held), ran', calls.mpr current⟩

/-- **When loads converge.** Over any number of visits to an audio file, the row of its path that is met first
stays what it is but for its duration, and each visit leaves one row more unless that row has the file's hash.
From wherever the visits lead, one more brings the catalog up to date exactly when that row has the file's hash
and its tags already. -/
theorem loads_converge_iff (tags : Text → Option Tags) (present : files.present path = some true)
    (audio : files.isAudioFile path = some true) (clean : nul ∉ path) (leads : Leads db path e n)
    (inert : Inert e) (visits : List Visit) (usual : ∀ v ∈ visits, v.Usual) :
    ∃ after d, (step files tags path).run db visits = some after ∧
      Leads after path { e with duration := d }
        (n + if e.hash = files.hash path then 0 else visits.length) ∧
      ∀ v w : Visit, v.Usual → w.Usual → (BroughtUpToDate files tags after path v w ↔
        e.hash = files.hash path ∧ ∀ g, tags path = some g → Tagged (e.song ⟨0⟩) g) := by
  induction visits generalizing db e n with
  | nil =>
    refine ⟨db, e.duration, rfl, by simpa using leads, fun v w first second => ?_⟩
    exact brought_up_to_date_iff tags present audio clean leads inert first second
  | cons v visits ih =>
    obtain ⟨now, others⟩ := List.forall_mem_cons.mp usual
    obtain ⟨l, middle, d, ran, drained, -, left⟩ := leads_step tags present audio clean leads inert now
    obtain ⟨after, d', reached, last, converge⟩ := ih left inert.of_duration others
    refine ⟨after, d', Steps.run_cons_iff.mpr ⟨middle, by rw [step, ran, Option.bind_some, drained], reached⟩, ?_,
      converge⟩
    have count : n + (if e.hash = files.hash path then 0 else 1) +
        (if e.hash = files.hash path then 0 else visits.length) =
        n + if e.hash = files.hash path then 0 else (v :: visits).length := by
      rw [List.length_cons]
      split_ifs <;> omega
    rwa [count] at last

end Leading

/-- The row of a file that has changed since. -/
def old : Entry := { path := "/a.mp3", title := "Old" }

theorem inert_old : Inert old := ⟨by decide, by decide, by decide, by decide, by decide, by decide, by decide⟩

theorem leads_single : Leads (single old) "/a.mp3" old 1 := by
  have own : Table.cell { emptyCatalog with rows := [old.row] } old.row "path" = .text "/a.mp3" := rfl
  have rows : rowsOf { emptyCatalog with rows := [old.row] } "/a.mp3" = [old.row] := by
    simp [rowsOf, own]
  exact ⟨{ emptyCatalog with rows := [old.row] }, rfl, ⟨rfl, rfl⟩, by rw [rows]; rfl, by rw [rows]; rfl⟩

/-- A visit without anything in the way. -/
def plain : Visit := ⟨.stored, ⟨0, 0, false, .number 0⟩, .number 0, []⟩

theorem usual_plain : plain.Usual := ⟨steady_stored, rfl⟩

/-- Three visits leave four rows. -/
theorem three_visits_four_rows : ∃ after d,
    (step Durations.there (fun _ => some ⟨"New", 1, "", 2020, ""⟩) "/a.mp3").run (single old)
      [plain, plain, plain] = some after ∧ Leads after "/a.mp3" { old with duration := d } 4 := by
  have present : Durations.there.present "/a.mp3" = some true := rfl
  have usual : ∀ v ∈ [plain, plain, plain], v.Usual := fun v member => by
    simp only [List.mem_cons, List.not_mem_nil, or_false, or_self] at member
    exact member ▸ usual_plain
  obtain ⟨after, d, reached, last, -⟩ := loads_converge_iff (fun _ => some ⟨"New", 1, "", 2020, ""⟩) present
    (by decide) (by decide) leads_single inert_old _ usual
  exact ⟨after, d, reached, last⟩

theorem changed_file_not_brought_up_to_date : ¬ ∀ (files : Files) (tags : Text → Option Tags) (db : Db)
    (path : Text) (e : Entry) (n : Nat) (v w : Visit), files.present path = some true →
    files.isAudioFile path = some true → nul ∉ path → Leads db path e n → Inert e → e.hash ≠ files.hash path →
    v.Usual → w.Usual → BroughtUpToDate files tags db path v w := by
  intro all
  have present : Durations.there.present "/a.mp3" = some true := rfl
  have audio : Durations.there.isAudioFile "/a.mp3" = some true := by decide
  have clean : nul ∉ text "/a.mp3" := by decide
  have other : old.hash ≠ Durations.there.hash "/a.mp3" := by decide
  have tags : Text → Option Tags := fun _ => none
  have current := (brought_up_to_date_iff tags present audio clean leads_single inert_old usual_plain usual_plain).mp
    (all _ _ _ _ _ _ _ _ present audio clean leads_single inert_old other usual_plain usual_plain)
  exact other current.1

end Sws.Loading
