import Mathlib.Data.List.TakeWhile
import Sws.Database.Quoting
import Sws.Sql.Running

/-! The statement each text of `db` is, its arguments read back as they were given. -/
namespace Sws.Database

open Sql

/-! ### The tables of the program -/

def catalogColumns : List ColumnDef :=
  [{ name := "path", type := ["TEXT", "PRIMARY_KEY"], default := .text "" },
   { name := "title", type := ["TEXT"], default := .text "" },
   { name := "track_no", type := ["INTEGER"], default := .int 0 },
   { name := "album", type := ["TEXT"], default := .text "" },
   { name := "year", type := ["INTEGER"], default := .int 0 },
   { name := "artist", type := ["TEXT"], default := .text "" },
   { name := "favorite", type := ["INTEGER"], default := .int 0 },
   { name := "duration", type := ["REAL"], default := .int 0 },
   { name := "spotify_id", type := ["TEXT"], default := .text "" },
   { name := "file_hash", type := ["TEXT"], default := .text "-1" }]

def influencesColumns : List ColumnDef :=
  [{ name := "artist", type := ["TEXT"], notNull := true },
   { name := "influence", type := ["TEXT"], notNull := true }]

/-- `_playlist`. -/
def registerColumns : List ColumnDef :=
  [{ name := "name", type := ["TEXT"] },
   { name := "source", type := ["TEXT"], default := .text "" },
   { name := "current", type := ["INTEGER"], default := .int 0 }]

/-- The table of a playlist. -/
def playlistColumns : List ColumnDef := [{ name := "path", type := ["TEXT"] }]

/-- Fixed text that is one statement, by computation. -/
private theorem denotes_text {cs : Text} {s : Stmt} (one : nul ∉ cs ∧ single? cs = some s) :
    Denotes (text (String.ofList cs)) s := by
  rw [text_ofList]
  exact .of_single one.1 one.2

private theorem denotes_texts {a b c : Text} {s : Stmt}
    (one : nul ∉ a ++ b ++ c ∧ single? (a ++ b ++ c) = some s) :
    Denotes (text (String.ofList a) ++ text (String.ofList b) ++ text (String.ofList c)) s := by
  rw [text_ofList, text_ofList, text_ofList]
  exact .of_single one.1 one.2

set_option maxRecDepth 10000 in
/-- `PRIMARY_KEY` is one identifier, so it belongs to the type and the catalog has no key. -/
theorem create_catalog_denotes :
    Denotes createCatalog (.createTable true "db_catalog" catalogColumns []) :=
  denotes_texts ⟨by decide, by rfl⟩

set_option maxRecDepth 10000 in
theorem clean_create_catalog : nul ∉ createCatalog :=
  clean_append (clean_append (clean_text rfl) (clean_text rfl)) (clean_text rfl)

theorem create_influences_denotes :
    Denotes createInfluences (.createTable true "_influences" influencesColumns ["artist", "influence"]) :=
  denotes_text ⟨by decide, by rfl⟩

theorem create_playlists_denotes :
    Denotes createPlaylists (.createTable true "_playlist" registerColumns ["name"]) :=
  denotes_text ⟨by decide, by rfl⟩

/-! ### Statements with literals -/

theorem reads_insert_path (path : Text) :
    Reads .start (insertPath path) [.keyword .insert, .keyword .into, .id "db_catalog", .sym .lparen,
      .id "path", .sym .rparen, .keyword .values, .sym .lparen, .string path, .sym .rparen,
      .sym .semi] := by
  have before : Scans .start (text "INSERT INTO db_catalog (path) VALUES('")
      [.keyword .insert, .keyword .into, .id "db_catalog", .sym .lparen, .id "path", .sym .rparen,
        .keyword .values, .sym .lparen] (.quoted quote []) := scans_text rfl
  have after : Scans (.quoted quote path) (text "');") [.string path, .sym .rparen, .sym .semi]
      .start := scans_close rfl rfl
  have reads := Reads.literal before (clean_text rfl) (by simp) (Reads.close after (clean_text rfl))
  have shape : insertPath path = text "INSERT INTO db_catalog (path) VALUES('" ++
      (doubled quote path ++ text "');") := by
    simp [insertPath, escape_eq_doubled]
  rw [← shape] at reads
  exact reads

theorem insert_path_denotes (path : Text) :
    Denotes (insertPath path) (.insert false "db_catalog" (some ["path"]) [[.text path]]) :=
  .of_tokens (reads_insert_path path) rfl (by simp) rfl

theorem clean_insert_playlist {name source : Text} (named : nul ∉ name) (clean : nul ∉ source) :
    nul ∉ insertPlaylist name source := by
  have before : nul ∉ text "REPLACE INTO _playlist (name, source) VALUES ('" := clean_text rfl
  have between : nul ∉ text "','" := clean_text rfl
  have after : nul ∉ text "');" := clean_text rfl
  simp [insertPlaylist, escape_eq_doubled, mem_doubled, before, between, after, named, clean]

theorem reads_insert_playlist (name source : Text) :
    Reads .start (insertPlaylist name source) [.keyword .replace, .keyword .into, .id "_playlist",
      .sym .lparen, .id "name", .sym .comma, .id "source", .sym .rparen, .keyword .values,
      .sym .lparen, .string name, .sym .comma, .string source, .sym .rparen, .sym .semi] := by
  have before : Scans .start (text "REPLACE INTO _playlist (name, source) VALUES ('")
      [.keyword .replace, .keyword .into, .id "_playlist", .sym .lparen, .id "name", .sym .comma,
        .id "source", .sym .rparen, .keyword .values, .sym .lparen] (.quoted quote []) :=
    scans_text rfl
  have between : Scans (.quoted quote name) (text "','") [.string name, .sym .comma]
      (.quoted quote []) := scans_close rfl rfl
  have after : Scans (.quoted quote source) (text "');") [.string source, .sym .rparen, .sym .semi]
      .start := scans_close rfl rfl
  have reads := Reads.literal before (clean_text rfl) (by simp)
    (Reads.literal between (clean_text rfl) (by simp) (Reads.close after (clean_text rfl)))
  have shape : insertPlaylist name source =
      text "REPLACE INTO _playlist (name, source) VALUES ('" ++
        (doubled quote name ++ (text "','" ++ (doubled quote source ++ text "');"))) := by
    simp [insertPlaylist, escape_eq_doubled]
  rw [← shape] at reads
  exact reads

theorem insert_playlist_denotes (name source : Text) :
    Denotes (insertPlaylist name source)
      (.insert true "_playlist" (some ["name", "source"]) [[.text name, .text source]]) :=
  .of_tokens (reads_insert_playlist name source) rfl (by simp) rfl

/-! ### Numbers -/

theorem number_digits (i : Int) : number? (digits i) = some (.int i.natAbs) := by
  have all : (digits i).dropWhile Char.isDigit = [] :=
    List.dropWhile_eq_nil_iff.mpr fun c member => is_digit_of_mem_digits member
  rw [number?, all, digits, Nat.ofDigitChars_ten_toDigits]

theorem semi_not_mem_sign (i : Int) : .sym .semi ∉ signTokens i := by
  cases i <;> simp [signTokens]

theorem illegal_not_mem_sign (i : Int) : .illegal ∉ signTokens i := by
  cases i <;> simp [signTokens]

/-- A printed integer is one literal, sign included. -/
theorem atoms_decimal (i : Int) (rest : List Token) :
    atoms (signTokens i ++ .number (digits i) :: rest) = .lit (.int i) :: atoms rest := by
  cases i with
  | ofNat n =>
    simp [signTokens, atoms, numberAtom, number_digits]
  | negSucc n =>
    simp [signTokens, atoms, numberAtom, number_digits, Value.negate]
    omega

/-- The tokens of `db::set_playlist_current`, without the semicolon. -/
def currentTokens (name : Text) (current : Int) : List Token :=
  .keyword .update :: .id "_playlist" :: .keyword .set :: .id "current" :: .sym .eq ::
    (signTokens current).append
      [.number (digits current), .keyword .where, .id "name", .sym .eq, .string name]

theorem reads_set_playlist_current (name : Text) (current : Int) :
    Reads .start (setPlaylistCurrent name current) (currentTokens name current ++ [.sym .semi]) := by
  have head : Scans .start (text "UPDATE _playlist SET current=")
      [.keyword .update, .id "_playlist", .keyword .set, .id "current"] .equals :=
    scans_text rfl
  have clause : Scans (.digits (digits current)) (text " WHERE name='")
      [.number (digits current), .keyword .where, .id "name", .sym .eq] (.quoted quote []) :=
    scans_number_end rfl (by decide)
  have after : Scans (.quoted quote name) (text "';") [.string name, .sym .semi] .start :=
    scans_close rfl rfl
  have before := (head.append (scans_decimal equals_opens_number current)).append clause
  have clean : nul ∉ text "UPDATE _playlist SET current=" ++ decimal current ++ text " WHERE name='" :=
    clean_append (clean_append (clean_text rfl) (nul_not_mem_decimal current)) (clean_text rfl)
  have reads := Reads.literal before clean (by simp [finish, semi_not_mem_sign])
    (Reads.close after (clean_text rfl))
  have shape : setPlaylistCurrent name current = text "UPDATE _playlist SET current=" ++
      decimal current ++ text " WHERE name='" ++ (doubled quote name ++ text "';") := by
    simp [setPlaylistCurrent, escape_eq_doubled]
  rw [← shape] at reads
  simpa [currentTokens, finish] using reads

theorem set_playlist_current_denotes (name : Text) (current : Int) :
    Denotes (setPlaylistCurrent name current)
      (.update "_playlist" [("current", .int current)]
        [{ operand := .column "name", value := .text name }]) := by
  refine .of_reads (reads_set_playlist_current name current)
    (by simp [currentTokens, semi_not_mem_sign]) (parse_of_atoms ?_ rfl ?_)
  · simp [currentTokens, illegal_not_mem_sign]
  · simp [currentTokens, atoms, atoms_decimal, statement, assignments, conditions]

/-- The digits of a printed `double`, without its sign. -/
def doubleDigits (d : Double) : Text :=
  let n := d.millionths.natAbs
  let places := Nat.toDigits 10 (n % 1000000)
  Nat.toDigits 10 (n / 1000000) ++ '.' :: (List.replicate (6 - places.length) '0' ++ places)

def doubleSign (d : Double) : List Token := if d.millionths < 0 then [.sym .minus] else []

private theorem is_digit_of_mem_places {k n : Nat} {c : Char}
    (member : c ∈ List.replicate k '0' ++ Nat.toDigits 10 n) : c.isDigit := by
  rcases List.mem_append.mp member with zero | digit
  · rw [List.eq_of_mem_replicate zero]
    decide
  · exact Nat.isDigit_of_mem_toDigits (by omega) (by omega) digit

theorem double_to_string_eq (d : Double) :
    doubleToString d = (if d.millionths < 0 then text "-" else text "") ++ doubleDigits d := by
  have point : text "." = ['.'] := by decide
  simp [doubleToString, doubleDigits, point]

theorem scans_double {m : Mode} (opens : OpensNumber m) (d : Double) :
    Scans m (doubleToString d) (finish m ++ doubleSign d) (.fraction (doubleDigits d)) := by
  have places := scans_places (Nat.toDigits 10 (d.millionths.natAbs / 1000000))
    (List.replicate (6 - (Nat.toDigits 10 (d.millionths.natAbs % 1000000)).length) '0' ++
      Nat.toDigits 10 (d.millionths.natAbs % 1000000)) fun c member => is_digit_of_mem_places member
  rw [double_to_string_eq, doubleSign]
  by_cases negative : d.millionths < 0
  · have sign := (scans_minus_nat opens (d.millionths.natAbs / 1000000)).append places
    rw [if_pos negative, if_pos negative]
    simpa [doubleDigits, show text "-" = ['-'] by decide] using sign
  · have plain := (scans_nat opens.2 (d.millionths.natAbs / 1000000)).append places
    rw [if_neg negative, if_neg negative]
    simpa [doubleDigits, show text "" = [] by decide] using plain

/-- Padding to six places loses nothing. -/
theorem number_double (d : Double) : number? (doubleDigits d) = some (.real d.millionths.natAbs) := by
  let n := d.millionths.natAbs
  let places := Nat.toDigits 10 (n % 1000000)
  have digit : ∀ c ∈ Nat.toDigits 10 (n / 1000000), c.isDigit = true := fun c member =>
    Nat.isDigit_of_mem_toDigits (by omega) (by omega) member
  have point : Char.isDigit '.' = false := by decide
  have short : places.length ≤ 6 := (Nat.length_toDigits_le_iff (by omega) (by omega)).mpr (by omega)
  have six : (List.replicate (6 - places.length) '0' ++ places).length = 6 := by simp; omega
  have all : (List.replicate (6 - places.length) '0' ++ places).all Char.isDigit = true :=
    List.all_eq_true.mpr fun c member => is_digit_of_mem_places member
  have after : (doubleDigits d).dropWhile Char.isDigit =
      '.' :: (List.replicate (6 - places.length) '0' ++ places) := by
    rw [doubleDigits, List.dropWhile_append_of_pos digit, List.dropWhile_cons, point]
    rfl
  have before : (doubleDigits d).takeWhile Char.isDigit = Nat.toDigits 10 (n / 1000000) := by
    rw [doubleDigits, List.takeWhile_append_of_pos digit, List.takeWhile_cons, point]
    simp [n]
  have value : Nat.ofDigitChars 10
      (Nat.toDigits 10 (n / 1000000) ++ (List.replicate (6 - places.length) '0' ++ places)) 0 = n := by
    have exponent : places.length + (6 - places.length) = 6 := by omega
    rw [Nat.ofDigitChars_append, Nat.ofDigitChars_append, Nat.ofDigitChars_ten_toDigits,
      Nat.ofDigitChars_replicate_zero, Nat.ofDigitChars_eq_ofDigitChars_zero,
      Nat.ofDigitChars_ten_toDigits, ← Nat.mul_assoc, ← Nat.pow_add, exponent]
    omega
  rw [number?, after]
  simp only [all, six, and_self, ↓reduceIte, before, value, n]

theorem atoms_double (d : Double) (rest : List Token) :
    atoms (doubleSign d ++ .number (doubleDigits d) :: rest) = .lit (.real d.millionths) :: atoms rest := by
  by_cases negative : d.millionths < 0
  · have value : -(d.millionths.natAbs : Int) = d.millionths := by omega
    simp only [doubleSign, negative, ↓reduceIte, List.singleton_append, atoms, numberAtom, number_double,
      Value.negate, value]
  · have value : (d.millionths.natAbs : Int) = d.millionths := by omega
    simp only [doubleSign, negative, ↓reduceIte, List.nil_append, atoms, numberAtom, number_double, id,
      value]

theorem nul_not_mem_double (d : Double) : nul ∉ doubleToString d := by
  intro member
  rw [double_to_string_eq, List.mem_append] at member
  rcases member with sign | digits
  · split at sign
    · exact absurd sign (show nul ∉ text "-" from clean_text rfl)
    · exact absurd sign (show nul ∉ text "" by decide)
  · rw [doubleDigits, List.mem_append, List.mem_cons] at digits
    rcases digits with whole | point | places
    · exact absurd (Nat.isDigit_of_mem_toDigits (b := 10) (by omega) (by omega) whole) (by decide)
    · exact absurd point (by decide)
    · exact absurd (is_digit_of_mem_places places) (by decide)

theorem semi_not_mem_double_sign (d : Double) : .sym .semi ∉ doubleSign d := by
  rw [doubleSign]
  split <;> simp

theorem illegal_not_mem_double_sign (d : Double) : .illegal ∉ doubleSign d := by
  rw [doubleSign]
  split <;> simp

/-- A literal and a number, each with the comma after it. -/
def numberTokens (a : Text) (i : Int) : List Token :=
  .string a :: .sym .comma :: (signTokens i).append [.number (digits i), .sym .comma]

/-- A number between two literals. -/
theorem scans_number_between (a : Text) (i : Int) :
    Scans (.quoted quote a) (text "', " ++ decimal i ++ text ", '") (numberTokens a i)
      (.quoted quote []) := by
  have before : Scans (.quoted quote a) (text "', ") [.string a, .sym .comma] .start :=
    scans_close rfl rfl
  have after : Scans (.digits (digits i)) (text ", '") [.number (digits i), .sym .comma]
      (.quoted quote []) := scans_number_end rfl (by decide)
  exact (before.append (scans_decimal start_opens_number i)).append after

/-- The values of a song, in the order of the columns. -/
def Song.values (s : Song) : List Value :=
  [.text s.path, .text s.title, .int s.trackNo, .text s.album, .int s.year.toNat, .text s.artist,
    .int s.favorite.toNat, .real s.duration.millionths, .text s.spotifyId, .text s.md5]

/-- The tokens of `db::insert_track` after the path, without the semicolon. -/
def Song.valueTokens (s : Song) : List Token :=
  (numberTokens s.title s.trackNo).append <| (numberTokens s.album s.year.toNat).append <|
    (numberTokens s.artist s.favorite.toNat).append <| (doubleSign s.duration).append
    [.number (doubleDigits s.duration), .sym .comma, .string s.spotifyId, .sym .comma, .string s.md5,
      .sym .rparen]

def Song.insertTokens (s : Song) : List Token :=
  .keyword .insert :: .keyword .into :: .id "db_catalog" :: .keyword .values :: .sym .lparen ::
    .string s.path :: .sym .comma :: s.valueTokens

theorem reads_insert_track {s : Song} (id : quote ∉ s.spotifyId) (hash : quote ∉ s.md5) :
    Reads .start (insertTrack s) (s.insertTokens ++ [.sym .semi]) := by
  have head : Scans .start (text "INSERT INTO db_catalog VALUES(")
      [.keyword .insert, .keyword .into, .id "db_catalog", .keyword .values, .sym .lparen]
      .start := scans_text rfl
  have opening : Scans .start (text "'") [] (.quoted quote []) := scans_text rfl
  have between (a : Text) : Scans (.quoted quote a) (text "', '") [.string a, .sym .comma]
      (.quoted quote []) := scans_close rfl rfl
  have next : Scans (.digits (digits s.favorite.toNat)) (text ", ")
      [.number (digits s.favorite.toNat), .sym .comma] .start := scans_number_end rfl (by decide)
  have last : Scans (.fraction (doubleDigits s.duration)) (text ", '")
      [.number (doubleDigits s.duration), .sym .comma] (.quoted quote []) := scans_fraction_end rfl (by decide)
  have artist : Scans (.quoted quote s.artist) (text "', ") [.string s.artist, .sym .comma] .start :=
    scans_close rfl rfl
  have numbers := (((artist.append (scans_decimal start_opens_number s.favorite.toNat)).append next).append
    (scans_double start_opens_number s.duration)).append last
  have close : Scans (.quoted quote s.md5) (text "');") [.string s.md5, .sym .rparen, .sym .semi] .start :=
    scans_close rfl rfl
  have closing : text "');" = text "'" ++ text ");" := by decide
  rw [closing] at close
  have comma : nul ∉ text ", " := clean_text rfl
  have open_ : nul ∉ text ", '" := clean_text rfl
  have shut : nul ∉ text "', " := clean_text rfl
  have clean (i : Int) : nul ∉ text "', " ++ decimal i ++ text ", '" := by
    simp [nul_not_mem_decimal, open_, shut]
  have clean₂ : nul ∉ text "', " ++ decimal s.favorite.toNat ++ text ", " ++ doubleToString s.duration ++
      text ", '" := by
    simp [nul_not_mem_decimal, nul_not_mem_double, comma, open_, shut]
  have clean₃ : nul ∉ text "'" ++ text ");" := clean_append (clean_text rfl) (clean_text rfl)
  have reads := Reads.fixed head (clean_text rfl) (by simp) (Reads.literal opening (clean_text rfl) (by simp)
    (Reads.literal (between s.path) (clean_text rfl) (by simp)
      (Reads.literal (scans_number_between s.title s.trackNo) (clean _) (by simp [numberTokens, semi_not_mem_sign])
        (Reads.literal (scans_number_between s.album s.year.toNat) (clean _) (by simp [numberTokens, semi_not_mem_sign])
          (Reads.literal numbers clean₂ (by simp [finish, semi_not_mem_sign, semi_not_mem_double_sign])
            (Reads.literal (between s.spotifyId) (clean_text rfl) (by simp) (Reads.close close clean₃)))))))
  have shape : insertTrack s = text "INSERT INTO db_catalog VALUES(" ++ (text "'" ++ (doubled quote s.path ++
      (text "', '" ++ (doubled quote s.title ++
      ((text "', " ++ decimal s.trackNo ++ text ", '") ++ (doubled quote s.album ++
      ((text "', " ++ decimal s.year.toNat ++ text ", '") ++ (doubled quote s.artist ++
      ((text "', " ++ decimal s.favorite.toNat ++ text ", " ++ doubleToString s.duration ++ text ", '") ++
      (doubled quote s.spotifyId ++ (text "', '" ++ (doubled quote s.md5 ++
      (text "'" ++ text ");"))))))))))))) := by
    have whole : insertTrack s =
        text "INSERT INTO db_catalog VALUES(" ++ s.escape.toQueryString ++ text ");" := rfl
    rw [doubled_of_not_mem id, doubled_of_not_mem hash, whole]
    unfold Song.toQueryString
    simp only [Song.escape, escape_eq_doubled, ofBool, List.append_assoc]
  rw [← shape] at reads
  simpa [Song.insertTokens, Song.valueTokens, numberTokens, finish] using reads

/-- `db::insert_track`, where the fields it does not escape need no escaping. -/
theorem insert_track_denotes {s : Song} (id : quote ∉ s.spotifyId) (hash : quote ∉ s.md5) :
    Denotes (insertTrack s) (.insert false "db_catalog" none [s.values]) := by
  refine .of_reads (reads_insert_track id hash) ?_ (parse_of_atoms ?_ rfl ?_)
  · simp [Song.insertTokens, Song.valueTokens, numberTokens, semi_not_mem_sign, semi_not_mem_double_sign]
  · simp [Song.insertTokens, Song.valueTokens, numberTokens, illegal_not_mem_sign,
      illegal_not_mem_double_sign]
  · simp [Song.insertTokens, Song.valueTokens, numberTokens, atoms, atoms_decimal, atoms_double,
      statement, insertion, rowList, Song.values]

/-- No string of the song contains NUL. -/
structure Song.Clean (s : Song) : Prop where
  path : nul ∉ s.path
  title : nul ∉ s.title
  album : nul ∉ s.album
  artist : nul ∉ s.artist
  spotifyId : nul ∉ s.spotifyId
  md5 : nul ∉ s.md5

theorem clean_insert_track {s : Song} (clean : s.Clean) : nul ∉ insertTrack s := by
  have add {before x after : Text} (done : nul ∉ before) (free : nul ∉ x) (more : nul ∉ after) :
      nul ∉ before ++ x ++ after := clean_append (clean_append done free) more
  have open_ : nul ∉ text "'" := clean_text rfl
  have between : nul ∉ text "', '" := clean_text rfl
  have shut : nul ∉ text "', " := clean_text rfl
  have reopen : nul ∉ text ", '" := clean_text rfl
  have comma : nul ∉ text ", " := clean_text rfl
  have path := add open_ (clean_escape.mpr clean.path) between
  have title := add path (clean_escape.mpr clean.title) shut
  have trackNo := add title (nul_not_mem_decimal s.trackNo) reopen
  have album := add trackNo (clean_escape.mpr clean.album) shut
  have year := add album (nul_not_mem_decimal s.year.toNat) reopen
  have artist := add year (clean_escape.mpr clean.artist) shut
  have favorite := add artist (nul_not_mem_decimal s.favorite.toNat) comma
  have duration := add favorite (nul_not_mem_double s.duration) reopen
  have spotifyId := add duration clean.spotifyId between
  have values : nul ∉ s.escape.toQueryString := add spotifyId clean.md5 open_
  exact add (clean_text rfl) values (clean_text rfl)

theorem nul_mem_insert_track (s : Song) : nul ∈ insertTrack s ↔
    ∃ t ∈ [s.path, s.title, s.album, s.artist, s.spotifyId, s.md5], nul ∈ t := by
  simp only [List.exists_mem_cons_iff, List.not_mem_nil, false_and, exists_false, or_false]
  constructor
  · intro cut
    by_contra free
    simp only [not_or] at free
    obtain ⟨path, title, album, artist, spotifyId, md5⟩ := free
    exact clean_insert_track ⟨path, title, album, artist, spotifyId, md5⟩ cut
  · intro held
    have kept {v : Text} (cut : nul ∈ v) : nul ∈ escape v := mem_doubled.mpr cut
    refine List.mem_append_left _ (List.mem_append_right _ ?_)
    unfold Song.toQueryString Song.escape
    rcases held with path | title | album | artist | spotifyId | md5
    · iterate 19 refine List.mem_append_left _ ?_
      exact List.mem_append_right _ (kept path)
    · iterate 17 refine List.mem_append_left _ ?_
      exact List.mem_append_right _ (kept title)
    · iterate 13 refine List.mem_append_left _ ?_
      exact List.mem_append_right _ (kept album)
    · iterate 9 refine List.mem_append_left _ ?_
      exact List.mem_append_right _ (kept artist)
    · iterate 3 refine List.mem_append_left _ ?_
      exact List.mem_append_right _ spotifyId
    · exact List.mem_append_left _ (List.mem_append_right _ md5)

theorem clean_of_clean_insert {s : Song} (whole : nul ∉ insertTrack s) : s.Clean := by
  rw [nul_mem_insert_track] at whole
  simp only [List.exists_mem_cons_iff, List.not_mem_nil, false_and, exists_false, or_false, not_or] at whole
  obtain ⟨path, title, album, artist, spotifyId, md5⟩ := whole
  exact ⟨path, title, album, artist, spotifyId, md5⟩

/-- The tokens of `db::update_duration`, without the semicolon. -/
def durationTokens (path : Text) (d : Double) : List Token :=
  .keyword .update :: .id "db_catalog" :: .keyword .set :: .id "duration" :: .sym .eq ::
    (doubleSign d).append
      [.number (doubleDigits d), .keyword .where, .id "path", .sym .eq, .string path]

theorem reads_update_duration (path : Text) (d : Double) :
    Reads .start (updateDuration path d) (durationTokens path d ++ [.sym .semi]) := by
  have head : Scans .start (text "UPDATE db_catalog SET duration = ")
      [.keyword .update, .id "db_catalog", .keyword .set, .id "duration", .sym .eq] .start :=
    scans_text rfl
  have clause : Scans (.fraction (doubleDigits d)) (text " WHERE path='")
      [.number (doubleDigits d), .keyword .where, .id "path", .sym .eq] (.quoted quote []) :=
    scans_fraction_end rfl (by decide)
  have after : Scans (.quoted quote path) (text "';") [.string path, .sym .semi] .start :=
    scans_close rfl rfl
  have before := (head.append (scans_double start_opens_number d)).append clause
  have clean : nul ∉ text "UPDATE db_catalog SET duration = " ++ doubleToString d ++ text " WHERE path='" :=
    clean_append (clean_append (clean_text rfl) (nul_not_mem_double d)) (clean_text rfl)
  have reads := Reads.literal before clean (by simp [finish, semi_not_mem_double_sign])
    (Reads.close after (clean_text rfl))
  have shape : updateDuration path d = text "UPDATE db_catalog SET duration = " ++
      doubleToString d ++ text " WHERE path='" ++ (doubled quote path ++ text "';") := by
    simp [updateDuration, escape_eq_doubled]
  rw [← shape] at reads
  simpa [durationTokens, finish] using reads

theorem update_duration_denotes (path : Text) (d : Double) :
    Denotes (updateDuration path d)
      (.update "db_catalog" [("duration", .real d.millionths)]
        [{ operand := .column "path", value := .text path }]) := by
  refine .of_reads (reads_update_duration path d)
    (by simp [durationTokens, semi_not_mem_double_sign]) (parse_of_atoms ?_ rfl ?_)
  · simp [durationTokens, illegal_not_mem_double_sign]
  · simp [durationTokens, atoms, atoms_double, statement, assignments, conditions]

/-! ### Statements with a bracketed name -/

/-- `CREATE TABLE`, as `db::add_to_playlist` pushes it. -/
theorem create_playlist_denotes {name : Text} (unclosed : ']' ∉ name) :
    Denotes (creation.text name) (.createTable true name playlistColumns ["path"]) :=
  .of_tokens (creation.reads_text unclosed) rfl (by simp [Bracketed.tokens, creation, Bracketed.fixed]) rfl

theorem row_list_rows (row : List Value) (path : Text) (paths : List Text) :
    rowList row (atoms (rowTokens path ++ (paths.flatMap fun p => .sym .comma :: rowTokens p))).tail =
      some ((row ++ [.text path]) :: paths.map fun p => [.text p]) := by
  induction paths generalizing row path with
  | nil => rfl
  | cons next paths ih =>
    have rest := ih [] next
    simp only [rowTokens, List.cons_append, List.nil_append, List.flatMap_cons, List.map_cons] at rest ⊢
    simp only [atoms, List.tail_cons, rowList] at rest ⊢
    rw [rest]
    rfl

theorem rows_tokens_cons (path : Text) (paths : List Text) :
    rowsTokens (path :: paths) = rowTokens path ++ paths.flatMap fun p => .sym .comma :: rowTokens p := by
  induction paths generalizing path with
  | nil => simp [rowsTokens]
  | cons next paths ih =>
    have tail : rowsTokens (path :: next :: paths) = rowTokens path ++ .sym .comma :: rowsTokens (next :: paths) := by
      simp [rowsTokens, List.intercalate]
    rw [tail, ih, List.flatMap_cons, List.cons_append]

/-- `REPLACE`, as `db::add_to_playlist` pushes it: one row for each path. -/
theorem fill_playlist_denotes {name : Text} (unclosed : ']' ∉ name) {paths : List Text}
    (held : paths ≠ []) :
    Denotes ((replacements paths held).text name)
      (.insert true name none (paths.map fun p => [.text p])) := by
  obtain ⟨path, paths, rfl⟩ := List.exists_cons_of_ne_nil held
  let tokens : List Token :=
    .keyword .replace :: .keyword .into :: .quotedId name :: .keyword .values :: rowsTokens (path :: paths)
  have whole : Reads .start ((replacements (path :: paths) held).text name) (tokens ++ [.sym .semi]) := by
    have reads := (replacements (path :: paths) held).reads_text unclosed
    simpa [tokens, Bracketed.tokens, replacements] using reads
  have rows := row_list_rows [] path paths
  refine .of_reads whole ?_ (parse_of_atoms (by simp [tokens, illegal_not_mem_rows]) rfl ?_)
  · simp [tokens, rows_tokens_cons, rowTokens]
  · simp only [tokens, rows_tokens_cons, rowTokens, List.cons_append, List.nil_append, atoms,
      List.tail_cons] at rows ⊢
    simp [statement, insertion, rows]

/-! ### Queries -/

theorem nul_mem_select_playlist_query {name : Text} : nul ∈ selectPlaylistQuery name ↔ nul ∈ name := by
  have before : nul ∉ text "SELECT DISTINCT path FROM [" := clean_text rfl
  have after : nul ∉ text "];" := clean_text rfl
  simp [selectPlaylistQuery, before, after]

theorem list_playlist_denotes {name : Text} (unclosed : ']' ∉ name) :
    Denotes (selectPlaylistQuery name) (.select true ["path"] name []) := by
  have shape : selectPlaylistQuery name = listing.text name := by
    simp [Bracketed.text, listing, Bracketed.fixed, selectPlaylistQuery]
  rw [shape]
  exact .of_tokens (listing.reads_text unclosed) rfl
    (by simp [Bracketed.tokens, listing, Bracketed.fixed]) rfl

theorem clean_tables_query : nul ∉ tablesQuery := clean_text rfl

theorem tables_query_denotes : Denotes tablesQuery (.select false ["name"] "sqlite_master"
    [{ operand := .column "type", value := .text "table" },
     { operand := .substr "name" 1 1, negated := true, value := .text "_" }]) :=
  denotes_text ⟨by decide, by rfl⟩

theorem reads_get_playlist_current (name : Text) :
    Reads .start (getPlaylistCurrentQuery name) [.keyword .select, .id "current", .keyword .from,
      .id "_playlist", .keyword .where, .id "name", .sym .eq, .string name, .sym .semi] := by
  have before : Scans .start (text "SELECT current from _playlist WHERE name='")
      [.keyword .select, .id "current", .keyword .from, .id "_playlist", .keyword .where, .id "name",
        .sym .eq] (.quoted quote []) := scans_text rfl
  have after : Scans (.quoted quote name) (text "';") [.string name, .sym .semi] .start :=
    scans_close rfl rfl
  have reads := Reads.literal before (clean_text rfl) (by simp) (Reads.close after (clean_text rfl))
  have shape : getPlaylistCurrentQuery name = text "SELECT current from _playlist WHERE name='" ++
      (doubled quote name ++ text "';") := by
    simp [getPlaylistCurrentQuery, escape_eq_doubled]
  rw [← shape] at reads
  exact reads

theorem get_playlist_current_denotes (name : Text) :
    Denotes (getPlaylistCurrentQuery name) (.select false ["current"] "_playlist"
      [{ operand := .column "name", value := .text name }]) :=
  .of_tokens (reads_get_playlist_current name) rfl (by simp) rfl

theorem nul_mem_get_playlist_current_query {name : Text} :
    nul ∈ getPlaylistCurrentQuery name ↔ nul ∈ name := by
  have before : nul ∉ text "SELECT current from _playlist WHERE name='" := clean_text rfl
  have after : nul ∉ text "';" := clean_text rfl
  simp [getPlaylistCurrentQuery, escape_eq_doubled, mem_doubled, before, after]

theorem nul_mem_set_playlist_current {name : Text} {current : Int} :
    nul ∈ setPlaylistCurrent name current ↔ nul ∈ name := by
  have before : nul ∉ text "UPDATE _playlist SET current=" := clean_text rfl
  have clause : nul ∉ text " WHERE name='" := clean_text rfl
  have after : nul ∉ text "';" := clean_text rfl
  simp [setPlaylistCurrent, escape_eq_doubled, mem_doubled, before, clause, after, nul_not_mem_decimal]

theorem nul_mem_select_track_query {path : Text} : nul ∈ selectTrackQuery path ↔ nul ∈ path := by
  have columns : nul ∉
      text "SELECT title, track_no, album, year, artist, favorite, spotify_id, file_hash from db_catalog " :=
    clean_text rfl
  have clause : nul ∉ text "WHERE path='" := clean_text rfl
  have after : nul ∉ text "';" := clean_text rfl
  simp [selectTrackQuery, escape_eq_doubled, mem_doubled, columns, clause, after]

theorem nul_mem_insert_path {path : Text} : nul ∈ insertPath path ↔ nul ∈ path := by
  have before : nul ∉ text "INSERT INTO db_catalog (path) VALUES('" := clean_text rfl
  have after : nul ∉ text "');" := clean_text rfl
  simp [insertPath, escape_eq_doubled, mem_doubled, before, after]

set_option maxRecDepth 2000 in
theorem reads_select_track (path : Text) :
    Reads .start (selectTrackQuery path) [.keyword .select, .id "title", .sym .comma, .id "track_no",
      .sym .comma, .id "album", .sym .comma, .id "year", .sym .comma, .id "artist", .sym .comma,
      .id "favorite", .sym .comma, .id "spotify_id", .sym .comma, .id "file_hash", .keyword .from,
      .id "db_catalog", .keyword .where, .id "path", .sym .eq, .string path, .sym .semi] := by
  have columns : Scans .start
      (text "SELECT title, track_no, album, year, artist, favorite, spotify_id, file_hash from db_catalog ")
      [.keyword .select, .id "title", .sym .comma, .id "track_no", .sym .comma, .id "album", .sym .comma,
        .id "year", .sym .comma, .id "artist", .sym .comma, .id "favorite", .sym .comma, .id "spotify_id",
        .sym .comma, .id "file_hash", .keyword .from, .id "db_catalog"] .start := scans_text rfl
  have clause : Scans .start (text "WHERE path='") [.keyword .where, .id "path", .sym .eq]
      (.quoted quote []) := scans_text rfl
  have after : Scans (.quoted quote path) (text "';") [.string path, .sym .semi] .start :=
    scans_close rfl rfl
  have reads := Reads.fixed columns (clean_text rfl) (by simp)
    (Reads.literal clause (clean_text rfl) (by simp) (Reads.close after (clean_text rfl)))
  have shape : selectTrackQuery path =
      text "SELECT title, track_no, album, year, artist, favorite, spotify_id, file_hash from db_catalog " ++
        (text "WHERE path='" ++ (doubled quote path ++ text "';")) := by
    simp only [selectTrackQuery, escape_eq_doubled, List.append_assoc]
  rw [← shape] at reads
  exact reads

theorem select_track_denotes (path : Text) :
    Denotes (selectTrackQuery path) (.select false ["title", "track_no", "album", "year", "artist",
      "favorite", "spotify_id", "file_hash"] "db_catalog"
      [{ operand := .column "path", value := .text path }]) :=
  .of_tokens (reads_select_track path) rfl (by simp) rfl

end Sws.Database
