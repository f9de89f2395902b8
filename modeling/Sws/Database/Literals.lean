import Sws.Database.Reading

/-! The statements whose strings all go through `db::escape`: whatever the strings hold, the tokens are
those of the template, with the strings for its literals. -/
namespace Sws.Database

open Sql

/-- A `double` as `std::to_string` prints it, also one that no duration is. -/
inductive Printed
  | finite (d : Double)
  | infinite (negative : Bool)
  | nan (negative : Bool)
  deriving DecidableEq, Repr

namespace Printed

def toText : Printed → Text
  | .finite d => doubleToString d
  | .infinite negative => if negative then text "-inf" else "inf"
  | .nan negative => if negative then text "-nan" else "nan"

/-- SQLite reads the name of a value that is no number as an identifier. -/
def tokens : Printed → List Token
  | .finite d => doubleSign d ++ [.number (doubleDigits d)]
  | .infinite negative => if negative then [.sym .minus, .id "inf"] else [.id "inf"]
  | .nan negative => if negative then [.sym .minus, .id "nan"] else [.id "nan"]

end Printed

/-- `db::update_duration` with a path and any `double`. -/
def updateDurationPrinted (path : Text) (d : Printed) : Text :=
  "UPDATE db_catalog SET duration = " ++ d.toText ++ " WHERE path='" ++ escape path ++ "';"

theorem update_duration_printed (path : Text) (d : Double) :
    updateDurationPrinted path (.finite d) = updateDuration path d := rfl

/-- A function of `db` whose string arguments are all escaped. -/
inductive Escaping
  | insertPath (path : Text)
  | insertPlaylist (name source : Text)
  | setPlaylistCurrent (name : Text) (current : Int)
  | removeTrack (path : Text)
  | selectTrack (path : Text)
  | getPlaylistSource (name : Text)
  | getPlaylistCurrent (name : Text)
  | updateDuration (path : Text) (d : Printed)
  deriving DecidableEq, Repr

namespace Escaping

/-- The text the function builds. -/
def sql : Escaping → Text
  | .insertPath path => Database.insertPath path
  | .insertPlaylist name source => Database.insertPlaylist name source
  | .setPlaylistCurrent name current => Database.setPlaylistCurrent name current
  | .removeTrack path => Database.removeTrack path
  | .selectTrack path => selectTrackQuery path
  | .getPlaylistSource name => getPlaylistSourceQuery name
  | .getPlaylistCurrent name => getPlaylistCurrentQuery name
  | .updateDuration path d => updateDurationPrinted path d

def arguments : Escaping → List Text
  | .insertPath path | .removeTrack path | .selectTrack path | .updateDuration path _ => [path]
  | .insertPlaylist name source => [name, source]
  | .setPlaylistCurrent name _ | .getPlaylistSource name | .getPlaylistCurrent name => [name]

/-- The tokens of the template, with the arguments for its literals. -/
def tokens : Escaping → List Token
  | .insertPath path =>
    [.keyword .insert, .keyword .into, .id "db_catalog", .sym .lparen, .id "path", .sym .rparen,
      .keyword .values, .sym .lparen, .string path, .sym .rparen, .sym .semi]
  | .insertPlaylist name source =>
    [.keyword .replace, .keyword .into, .id "_playlist", .sym .lparen, .id "name", .sym .comma,
      .id "source", .sym .rparen, .keyword .values, .sym .lparen, .string name, .sym .comma,
      .string source, .sym .rparen, .sym .semi]
  | .setPlaylistCurrent name current =>
    [.keyword .update, .id "_playlist", .keyword .set, .id "current", .sym .eq] ++ signTokens current ++
      [.number (digits current), .keyword .where, .id "name", .sym .eq, .string name, .sym .semi]
  | .removeTrack path =>
    [.keyword .delete, .keyword .from, .id "db_catalog", .keyword .where, .id "path", .sym .eq,
      .string path, .sym .semi]
  | .selectTrack path =>
    [.keyword .select, .id "title", .sym .comma, .id "track_no", .sym .comma, .id "album", .sym .comma,
      .id "year", .sym .comma, .id "artist", .sym .comma, .id "favorite", .sym .comma,
      .id "spotify_id", .sym .comma, .id "file_hash", .keyword .from, .id "db_catalog",
      .keyword .where, .id "path", .sym .eq, .string path, .sym .semi]
  | .getPlaylistSource name =>
    [.keyword .select, .id "source", .keyword .from, .id "_playlist", .keyword .where, .id "name",
      .sym .eq, .string name, .sym .semi]
  | .getPlaylistCurrent name =>
    [.keyword .select, .id "current", .keyword .from, .id "_playlist", .keyword .where, .id "name",
      .sym .eq, .string name, .sym .semi]
  | .updateDuration path d =>
    [.keyword .update, .id "db_catalog", .keyword .set, .id "duration", .sym .eq] ++ d.tokens ++
      [.keyword .where, .id "path", .sym .eq, .string path, .sym .semi]

end Escaping

/-! ### The remaining texts -/

theorem reads_remove_track (path : Text) :
    Reads .start (removeTrack path) [.keyword .delete, .keyword .from, .id "db_catalog",
      .keyword .where, .id "path", .sym .eq, .string path, .sym .semi] := by
  have before : Scans .start (text "DELETE FROM db_catalog WHERE path='")
      [.keyword .delete, .keyword .from, .id "db_catalog", .keyword .where, .id "path", .sym .eq]
      (.quoted quote []) := scans_text rfl
  have after : Scans (.quoted quote path) (text "';") [.string path, .sym .semi] .start :=
    scans_close rfl rfl
  have reads := Reads.literal before (clean_text rfl) (by simp) (Reads.close after (clean_text rfl))
  have shape : removeTrack path = text "DELETE FROM db_catalog WHERE path='" ++
      (doubled quote path ++ text "';") := by
    simp [removeTrack, escape_eq_doubled]
  rw [← shape] at reads
  exact reads

theorem reads_get_playlist_source (name : Text) :
    Reads .start (getPlaylistSourceQuery name) [.keyword .select, .id "source", .keyword .from,
      .id "_playlist", .keyword .where, .id "name", .sym .eq, .string name, .sym .semi] := by
  have before : Scans .start (text "SELECT source from _playlist WHERE name='")
      [.keyword .select, .id "source", .keyword .from, .id "_playlist", .keyword .where, .id "name",
        .sym .eq] (.quoted quote []) := scans_text rfl
  have after : Scans (.quoted quote name) (text "';") [.string name, .sym .semi] .start :=
    scans_close rfl rfl
  have reads := Reads.literal before (clean_text rfl) (by simp) (Reads.close after (clean_text rfl))
  have shape : getPlaylistSourceQuery name = text "SELECT source from _playlist WHERE name='" ++
      (doubled quote name ++ text "';") := by
    simp [getPlaylistSourceQuery, escape_eq_doubled]
  rw [← shape] at reads
  exact reads

/-- A value that is no number is a word before the condition. -/
theorem reads_update_duration_word (path : Text) {number w : Text} {sign : List Token}
    (scans : Scans .start number sign (.word w)) (clean : nul ∉ number) (single : .sym .semi ∉ sign)
    (clause : Scans (.word w) (text " WHERE path='")
      [.id w, .keyword .where, .id "path", .sym .eq] (.quoted quote [])) :
    Reads .start (text "UPDATE db_catalog SET duration = " ++ number ++ text " WHERE path='" ++
        (doubled quote path ++ text "';"))
      ([.keyword .update, .id "db_catalog", .keyword .set, .id "duration", .sym .eq] ++
        (sign ++ [.id w]) ++ [.keyword .where, .id "path", .sym .eq, .string path, .sym .semi]) := by
  have head : Scans .start (text "UPDATE db_catalog SET duration = ")
      [.keyword .update, .id "db_catalog", .keyword .set, .id "duration", .sym .eq] .start :=
    scans_text rfl
  have after : Scans (.quoted quote path) (text "';") [.string path, .sym .semi] .start :=
    scans_close rfl rfl
  have before := (head.append scans).append clause
  have whole : nul ∉ text "UPDATE db_catalog SET duration = " ++ number ++ text " WHERE path='" :=
    clean_append (clean_append (clean_text rfl) clean) (clean_text rfl)
  have reads := Reads.literal before whole (by simp [single]) (Reads.close after (clean_text rfl))
  simpa [finish] using reads

theorem reads_update_duration_printed (path : Text) (d : Printed) :
    Reads .start (updateDurationPrinted path d) (Escaping.tokens (.updateDuration path d)) := by
  have shape (number : Text) : text "UPDATE db_catalog SET duration = " ++ number ++
      text " WHERE path='" ++ escape path ++ text "';" = text "UPDATE db_catalog SET duration = " ++
        number ++ text " WHERE path='" ++ (doubled quote path ++ text "';") := by
    simp [escape_eq_doubled]
  cases d with
  | finite d =>
    rw [update_duration_printed]
    simpa [durationTokens, Escaping.tokens, Printed.tokens] using reads_update_duration path d
  | infinite negative =>
    have clause : Scans (.word ['i', 'n', 'f']) (text " WHERE path='")
        [.id "inf", .keyword .where, .id "path", .sym .eq] (.quoted quote []) := scans_text rfl
    rw [updateDurationPrinted, shape]
    cases negative with
    | true =>
      have scans : Scans .start (text "-inf") [.sym .minus] (.word ['i', 'n', 'f']) :=
        scans_text rfl
      exact reads_update_duration_word path scans (clean_text rfl) (by simp) clause
    | false =>
      have scans : Scans .start (text "inf") [] (.word ['i', 'n', 'f']) := scans_text rfl
      exact reads_update_duration_word path scans (clean_text rfl) (by simp) clause
  | nan negative =>
    have clause : Scans (.word ['n', 'a', 'n']) (text " WHERE path='")
        [.id "nan", .keyword .where, .id "path", .sym .eq] (.quoted quote []) := scans_text rfl
    rw [updateDurationPrinted, shape]
    cases negative with
    | true =>
      have scans : Scans .start (text "-nan") [.sym .minus] (.word ['n', 'a', 'n']) :=
        scans_text rfl
      exact reads_update_duration_word path scans (clean_text rfl) (by simp) clause
    | false =>
      have scans : Scans .start (text "nan") [] (.word ['n', 'a', 'n']) := scans_text rfl
      exact reads_update_duration_word path scans (clean_text rfl) (by simp) clause

theorem nul_not_mem_printed (d : Printed) : nul ∉ d.toText := by
  cases d with
  | finite d => exact nul_not_mem_double d
  | infinite negative => cases negative <;> exact clean_text rfl
  | nan negative => cases negative <;> exact clean_text rfl

namespace Escaping

theorem reads_sql (c : Escaping) : Reads .start c.sql c.tokens := by
  cases c with
  | insertPath path => exact reads_insert_path path
  | insertPlaylist name source => exact reads_insert_playlist name source
  | setPlaylistCurrent name current =>
    simpa [currentTokens, tokens, sql] using reads_set_playlist_current name current
  | removeTrack path => exact reads_remove_track path
  | selectTrack path => exact reads_select_track path
  | getPlaylistSource name => exact reads_get_playlist_source name
  | getPlaylistCurrent name => exact reads_get_playlist_current name
  | updateDuration path d => exact reads_update_duration_printed path d

theorem clean_sql {c : Escaping} (clean : ∀ a ∈ c.arguments, nul ∉ a) : nul ∉ c.sql := by
  have around {before after : Text} (a : Text) (free : nul ∉ a) (head : nul ∉ before)
      (tail : nul ∉ after) : nul ∉ before ++ escape a ++ after :=
    clean_append (clean_append head (clean_escape.mpr free)) tail
  cases c with
  | insertPath path => exact around path (clean path List.mem_cons_self) (clean_text rfl) (clean_text rfl)
  | insertPlaylist name source =>
    exact clean_insert_playlist (clean name List.mem_cons_self)
      (clean source (List.mem_cons_of_mem _ List.mem_cons_self))
  | setPlaylistCurrent name current =>
    exact mt nul_mem_set_playlist_current.mp (clean name List.mem_cons_self)
  | removeTrack path => exact around path (clean path List.mem_cons_self) (clean_text rfl) (clean_text rfl)
  | selectTrack path => exact mt nul_mem_select_track_query.mp (clean path List.mem_cons_self)
  | getPlaylistSource name => exact around name (clean name List.mem_cons_self) (clean_text rfl) (clean_text rfl)
  | getPlaylistCurrent name =>
    exact mt nul_mem_get_playlist_current_query.mp (clean name List.mem_cons_self)
  | updateDuration path d =>
    have head : nul ∉ text "UPDATE db_catalog SET duration = " ++ d.toText ++ text " WHERE path='" :=
      clean_append (clean_append (clean_text rfl) (nul_not_mem_printed d)) (clean_text rfl)
    exact around path (clean path List.mem_cons_self) head (clean_text rfl)

end Escaping

/-- **Escaping.** An escaped string between quotes is one literal that stands for the string, whatever
follows that does not begin with a quote; and each statement whose strings are all escaped has the
tokens of its template, with its arguments for the literals. -/
theorem escaped_arguments_are_literals :
    (∀ s rest : Text, nul ∉ s → rest.head? ≠ some quote →
      lex (cStr (text "'" ++ escape s ++ text "'" ++ rest)) = .string s :: lex (cStr rest)) ∧
    ∀ c : Escaping, (∀ a ∈ c.arguments, nul ∉ a) → lex (cStr c.sql) = c.tokens := by
  refine ⟨fun s rest clean apart => ?_, fun c clean => ?_⟩
  · have whole : nul ∉ text "'" ++ escape s ++ text "'" :=
      clean_append (clean_append (clean_text rfl) (clean_escape.mpr clean)) (clean_text rfl)
    have still : (cStr rest).head? ≠ some quote := by
      cases rest with
      | nil => exact apart
      | cons c rest =>
        by_cases stop : c = nul
        · simp [cStr, stop]
        · simpa [cStr, stop] using apart
    rw [c_str_append whole, ← lex_literal s still, escape_eq_doubled]
    simp [text, quote]
  · have free := Escaping.clean_sql clean
    rw [c_str_of_no_nul free]
    exact (Escaping.reads_sql c).whole free

/-- A name that is nothing but quotes, and a source that begins and ends with one. -/
theorem quotes_are_literals :
    lex (cStr (insertPlaylist "''" "'s'")) = [.keyword .replace, .keyword .into, .id "_playlist",
      .sym .lparen, .id "name", .sym .comma, .id "source", .sym .rparen, .keyword .values, .sym .lparen,
      .string "''", .sym .comma, .string "'s'", .sym .rparen, .sym .semi] :=
  escaped_arguments_are_literals.2 (.insertPlaylist "''" "'s'") (by decide)

end Sws.Database
