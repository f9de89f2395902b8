import Sws.Sql.Scanning

/-! The SQL texts `db` builds, each under the name of the function that pushes or compiles it. -/
namespace Sws.Database

open Sql (doubled quote)

/-- A `double` the program computes: durations are quotients of 64-bit integers, so they are
finite, and only the six decimals of `std::to_string` are ever looked at. -/
structure Double where
  millionths : Int
  deriving DecidableEq, Repr

def doubleToString (d : Double) : Text :=
  let n := d.millionths.natAbs
  let places := Nat.toDigits 10 (n % 1000000)
  (if d.millionths < 0 then text "-" else text "") ++ Nat.toDigits 10 (n / 1000000) ++ "." ++
    List.replicate (6 - places.length) '0' ++ places

/-- `db::song`, less the rating, which no statement contains. -/
structure Song where
  path : Text
  title : Text := ""
  trackNo : Int := 0
  album : Text := ""
  year : UInt16 := 0
  artist : Text := ""
  favorite : Bool := false
  spotifyId : Text := ""
  duration : Double := ⟨0⟩
  md5 : Text := ""
  found : Bool := false
  deriving DecidableEq, Repr

/-- `db::escape`: every single quote twice. -/
def escape (s : Text) : Text := s.flatMap fun c => if c = quote then [quote, quote] else [c]

theorem escape_eq_doubled (s : Text) : escape s = doubled quote s := rfl

/-- `std::to_string` of a `bool`. -/
def ofBool (b : Bool) : Text := decimal b.toNat

/-! ### The constructor -/

def createCatalog : Text :=
  "CREATE TABLE IF NOT EXISTS db_catalog (path TEXT PRIMARY_KEY DEFAULT '', title TEXT DEFAULT '', " ++
  "track_no INTEGER DEFAULT 0, album TEXT DEFAULT '', year INTEGER DEFAULT 0, artist TEXT DEFAULT '', " ++
  "favorite INTEGER DEFAULT 0, duration REAL DEFAULT 0, spotify_id TEXT DEFAULT '', file_hash TEXT DEFAULT '-1');"

def createInfluences : Text :=
  "CREATE TABLE IF NOT EXISTS _influences (artist TEXT NOT NULL, influence TEXT NOT NULL, PRIMARY KEY (artist, influence));"

def createPlaylists : Text :=
  "CREATE TABLE IF NOT EXISTS _playlist (name TEXT PRIMARY KEY, source TEXT DEFAULT '', current INTEGER DEFAULT 0);"

/-- `db::db`: the statements pushed when the database is opened. -/
def opening : List Text := [createCatalog, createInfluences, createPlaylists]

/-! ### Catalog -/

def insertPath (path : Text) : Text :=
  "INSERT INTO db_catalog (path) VALUES('" ++ escape path ++ "');"

/-- `song::escape`: the identifier and the hash stay as they are. -/
def Song.escape (s : Song) : Song :=
  { s with
    path := Database.escape s.path
    title := Database.escape s.title
    album := Database.escape s.album
    artist := Database.escape s.artist }

def Song.toQueryString (s : Song) : Text :=
  "'" ++ s.path ++ "', '" ++ s.title ++ "', " ++ decimal s.trackNo ++ ", '" ++ s.album ++ "', " ++
    decimal s.year.toNat ++ ", '" ++ s.artist ++ "', " ++ ofBool s.favorite ++ ", " ++
    doubleToString s.duration ++ ", '" ++ s.spotifyId ++ "', '" ++ s.md5 ++ "'"

def insertTrack (s : Song) : Text :=
  "INSERT INTO db_catalog VALUES(" ++ s.escape.toQueryString ++ ");"

/-- `std::string::operator=` on the temporary that holds the left operand; the value of the
expression is what was assigned. -/
def assigned (_temporary value : Text) : Text := value

/-- `db::update_track`. In `"track_no"=to_string(..)` the equals sign stands outside the
literal: everything before it is one operand of an assignment, everything after it the other. -/
def updateTrack (s : Song) : Text :=
  assigned ("UPDATE db_catalog SET title='" ++ escape s.title ++ "'," ++ "track_no")
    (decimal s.trackNo ++ "," ++
      "album='" ++ escape s.album ++ "'," ++
      "year=" ++ decimal s.year.toNat ++ "," ++
      "artist='" ++ escape s.artist ++ "'," ++
      "favorite=" ++ ofBool s.favorite ++ "," ++
      "duration=" ++ doubleToString s.duration ++ "," ++
      "spotify_id='" ++ s.spotifyId ++ "'," ++
      "file_hash='" ++ escape s.md5 ++ "' " ++
      "WHERE path = '" ++ escape s.path ++ "';")

/-- `db::update_duration` with a path and a duration. -/
def updateDuration (path : Text) (duration : Double) : Text :=
  "UPDATE db_catalog SET duration = " ++ doubleToString duration ++ " WHERE path='" ++ escape path ++ "';"

def removeTrack (path : Text) : Text := "DELETE FROM db_catalog WHERE path='" ++ escape path ++ "';"

/-- The query of `db::select_track`. -/
def selectTrackQuery (path : Text) : Text :=
  "SELECT title, track_no, album, year, artist, favorite, spotify_id, file_hash from db_catalog " ++
  "WHERE path='" ++ escape path ++ "';"

/-! ### Playlists -/

/-- `db::add_to_playlist` with one path. -/
def addPathToPlaylist (name path : Text) : List Text :=
  ["REPLACE INTO [" ++ name ++ "] VALUES('" ++ escape path ++ "');"]

/-- `db::add_to_playlist` with a list of paths; an empty list pushes nothing. -/
def addToPlaylist (name : Text) (paths : List Text) : List Text :=
  if paths.length = 0 then []
  else
    let head : Text := "REPLACE INTO [" ++ name ++ "] VALUES "
    let all : Text := paths.flatMap fun s => "('" ++ escape s ++ "'),"
    let vals : Text := all.take (all.length - 1) ++ ";"
    let query : Text := "CREATE TABLE IF NOT EXISTS [" ++ name ++ "] (path TEXT PRIMARY KEY);"
    [query, head ++ vals]

def insertPlaylist (name source : Text) : Text :=
  "REPLACE INTO _playlist (name, source) VALUES ('" ++ escape name ++ "','" ++ escape source ++ "');"

def setPlaylistCurrent (name : Text) (current : Int) : Text :=
  "UPDATE _playlist SET current=" ++ decimal current ++ " WHERE name='" ++ escape name ++ "';"

/-- `db::remove_from_playlist` with one path. -/
def removePathFromPlaylist (name path : Text) : List Text :=
  ["DELETE FROM [" ++ name ++ "] WHERE path='" ++ escape path ++ "';"]

/-- `db::remove_from_playlist` with a list of paths: one statement for each. -/
def removeFromPlaylist (name : Text) (paths : List Text) : List Text :=
  paths.map fun path => "DELETE FROM [" ++ name ++ "] WHERE path='" ++ escape path ++ "';"

def removePlaylist (name : Text) : Text := "DROP TABLE IF EXISTS [" ++ name ++ "];"

/-- The query of `db::select_playlist`. -/
def selectPlaylistQuery (name : Text) : Text := "SELECT DISTINCT path FROM [" ++ name ++ "];"

/-- The query of `db::get_playlist_source`. -/
def getPlaylistSourceQuery (name : Text) : Text :=
  "SELECT source from _playlist WHERE name='" ++ escape name ++ "';"

/-- The query of `db::get_playlist_current`. -/
def getPlaylistCurrentQuery (name : Text) : Text :=
  "SELECT current from _playlist WHERE name='" ++ escape name ++ "';"

/-- The query of `db::tables`. -/
def tablesQuery : Text :=
  "SELECT name FROM sqlite_master WHERE type='table' AND SUBSTR(name,1,1)!='_';"

end Sws.Database
