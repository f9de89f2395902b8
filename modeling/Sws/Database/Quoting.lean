import Sws.Database.Statements

/-! What SQLite reads in the statements that carry a playlist's name between brackets. The
arguments are escaped for string literals; the name is not escaped at all, and a bracketed
identifier has no escape: it ends at its first closing bracket. -/
namespace Sws.Database

open Sql

/-! ### Texts without NUL -/

theorem clean_text {cs : Text} (clean : cs.contains nul = false) : nul ∉ text (String.ofList cs) := by
  rw [text_ofList]
  simpa using clean

theorem clean_escape {s : Text} : nul ∉ escape s ↔ nul ∉ s := not_congr mem_doubled

theorem clean_append {s t : Text} (left : nul ∉ s) (right : nul ∉ t) : nul ∉ s ++ t := by
  simp [left, right]

/-! ### The values of a `REPLACE` -/

/-- One parenthesized path, with the comma after it. -/
def rowText (path : Text) : Text := "('" ++ escape path ++ "'),"

def rowTokens (path : Text) : List Token := [.sym .lparen, .string path, .sym .rparen]

/-- Dropping the last comma leaves every row whole. -/
theorem values_take (paths : List Text) (last : Text) :
    ((paths ++ [last]).flatMap rowText).take (((paths ++ [last]).flatMap rowText).length - 1) =
      paths.flatMap rowText ++ ("('" ++ escape last ++ "')") := by
  have comma : rowText last = ("('" ++ escape last ++ "')") ++ [','] := by
    rw [rowText, List.append_assoc, List.append_assoc (text "('" ++ escape last)]
    rfl
  rw [List.flatMap_append, List.flatMap_singleton, comma, ← List.append_assoc, ← List.dropLast_eq_take,
    List.dropLast_concat]

/-! ### One text with a name between brackets -/

/-- A statement with the name between `head` and `tail`. The tail holds the arguments; where one
of them contains a NUL, the statement is cut inside a literal. -/
structure Bracketed where
  head : Text
  keywords : List Token
  tail : Text
  rest : List Token
  clean : nul ∉ head
  single : .sym .semi ∉ keywords
  legal : .illegal ∉ keywords ++ rest
  opens : Scans .start head keywords (.bracket [])
  reads : ∀ n, Reads (.bracket n) tail (.quotedId n :: rest)

namespace Bracketed

variable (b : Bracketed)

def text (name : Text) : Text := b.head ++ (name ++ b.tail)

def tokens (name : Text) : List Token := b.keywords ++ .quotedId name :: b.rest

theorem reads_text {name : Text} (unclosed : ']' ∉ name) : Reads .start (b.text name) (b.tokens name) :=
  .bracket b.opens b.clean b.single unclosed (b.reads name)

/-- SQLite reads the statement as meant exactly when the name has no closing bracket and no
argument has a NUL. -/
theorem lex_text_iff {name : Text} (clean : nul ∉ name) :
    lex (cStr (b.text name)) = b.tokens name ↔ ']' ∉ name ∧ nul ∉ b.tail := by
  constructor
  · intro same
    have unclosed : ']' ∉ name := by
      intro closed
      obtain ⟨before, after, shape, misread⟩ := lex_bracket_closed b.opens closed (cStr b.tail)
      rw [text, c_str_append b.clean, c_str_append clean, misread, tokens,
        List.append_cancel_left_eq, List.cons.injEq, Token.quotedId.injEq] at same
      have lengths := congrArg List.length (same.1.trans shape)
      simp at lengths
    refine ⟨unclosed, fun cut => ?_⟩
    obtain ⟨before, output, -⟩ := (b.reads_text unclosed).cut (by simp [text, cut])
    have legal := b.legal
    have member : .illegal ∈ b.tokens name := by
      rw [← same, lex, output]
      exact List.mem_append_right _ List.mem_cons_self
    simp_all [tokens]
  · rintro ⟨unclosed, whole⟩
    have all : nul ∉ b.text name := by simp [text, b.clean, clean, whole]
    rw [c_str_of_no_nul all]
    exact (b.reads_text unclosed).whole all

/-- A text with a clean name is cut where its tail is. -/
theorem nul_mem_text {b : Bracketed} {name : Text} (clean : nul ∉ name) :
    nul ∈ b.text name ↔ nul ∈ b.tail := by
  simp [text, b.clean, clean]

end Bracketed

/-! ### The statements -/

/-- `db::remove_from_playlist`. -/
def deletion (path : Text) : Bracketed where
  head := "DELETE FROM ["
  keywords := [.keyword .delete, .keyword .from]
  tail := text "] WHERE path='" ++ (escape path ++ text "';")
  rest := [.keyword .where, .id "path", .sym .eq, .string path, .sym .semi]
  clean := clean_text rfl
  single := by decide
  legal := by simp
  opens := scans_text rfl
  reads := fun n => by
    have before : Scans (.bracket n) (text "] WHERE path='")
        [.quotedId n, .keyword .where, .id "path", .sym .eq] (.quoted quote []) :=
      scans_bracket_close rfl
    have after : Scans (.quoted quote path) (text "';") [.string path, .sym .semi] .start :=
      scans_close rfl rfl
    exact .literal before (clean_text rfl) (by simp) (.close after (clean_text rfl))

/-- `db::add_to_playlist` with one path. -/
def replacement (path : Text) : Bracketed where
  head := "REPLACE INTO ["
  keywords := [.keyword .replace, .keyword .into]
  tail := text "] VALUES('" ++ (escape path ++ text "');")
  rest := [.keyword .values, .sym .lparen, .string path, .sym .rparen, .sym .semi]
  clean := clean_text rfl
  single := by decide
  legal := by simp
  opens := scans_text rfl
  reads := fun n => by
    have before : Scans (.bracket n) (text "] VALUES('") [.quotedId n, .keyword .values, .sym .lparen]
        (.quoted quote []) := scans_bracket_close rfl
    have after : Scans (.quoted quote path) (text "');") [.string path, .sym .rparen, .sym .semi] .start :=
      scans_close rfl rfl
    exact .literal before (clean_text rfl) (by simp) (.close after (clean_text rfl))

/-- A statement whose tail is fixed. -/
def Bracketed.fixed (head : Text) (keywords : List Token) (tail : Text) (rest : List Token)
    (clean : nul ∉ head) (single : .sym .semi ∉ keywords) (legal : .illegal ∉ keywords ++ rest)
    (opens : Scans .start head keywords (.bracket []))
    (closes : ∀ n, Scans (.bracket n) tail (.quotedId n :: rest) .start)
    (cleanTail : nul ∉ tail) : Bracketed where
  head := head
  keywords := keywords
  tail := tail
  rest := rest
  clean := clean
  single := single
  legal := legal
  opens := opens
  reads := fun n => by simpa [finish] using Reads.close (closes n) cleanTail

/-- `CREATE TABLE`, the first of the two statements of `db::add_to_playlist` with a list. -/
def creation : Bracketed :=
  .fixed "CREATE TABLE IF NOT EXISTS ["
    [.keyword .create, .keyword .table, .keyword .if, .keyword .not, .keyword .exists]
    "] (path TEXT PRIMARY KEY);"
    [.sym .lparen, .id "path", .id "TEXT", .keyword .primary, .keyword .key, .sym .rparen, .sym .semi]
    (clean_text rfl) (by decide) (by decide) (scans_text rfl)
    (fun _ => scans_bracket_close rfl) (clean_text rfl)

/-- `db::remove_playlist`. -/
def removal : Bracketed :=
  .fixed "DROP TABLE IF EXISTS [" [.keyword .drop, .keyword .table, .keyword .if, .keyword .exists]
    "];" [.sym .semi] (clean_text rfl) (by decide) (by decide) (scans_text rfl)
    (fun _ => scans_bracket_close rfl) (clean_text rfl)

/-- The query of `db::select_playlist`. -/
def listing : Bracketed :=
  .fixed "SELECT DISTINCT path FROM [" [.keyword .select, .keyword .distinct, .id "path", .keyword .from]
    "];" [.sym .semi] (clean_text rfl) (by decide) (by decide) (scans_text rfl)
    (fun _ => scans_bracket_close rfl) (clean_text rfl)

/-- The rows of `VALUES`, separated by commas. -/
def rowsTokens (paths : List Text) : List Token := [.sym .comma].intercalate (paths.map rowTokens)

theorem rows_tokens_concat (paths : List Text) (last : Text) :
    rowsTokens (paths ++ [last]) =
      (paths.flatMap fun p => rowTokens p ++ [.sym .comma]) ++ rowTokens last := by
  induction paths with
  | nil => rfl
  | cons path paths ih =>
    have tail : rowsTokens ((path :: paths) ++ [last]) =
        rowTokens path ++ [.sym .comma] ++ rowsTokens (paths ++ [last]) := by
      cases paths <;> simp [rowsTokens, List.intercalate, List.intersperse]
    rw [tail, ih]
    simp

theorem illegal_not_mem_rows (paths : List Text) : .illegal ∉ rowsTokens paths := by
  rcases List.eq_nil_or_concat' paths with rfl | ⟨init, last, rfl⟩
  · simp [rowsTokens]
  · simp [rows_tokens_concat, rowTokens]

/-- The values of `db::add_to_playlist` with a list: the trailing comma cut, the semicolon put. -/
def values (paths : List Text) : Text :=
  let all := paths.flatMap rowText
  all.take (all.length - 1) ++ ";"

theorem values_concat (paths : List Text) (last : Text) :
    values (paths ++ [last]) = paths.flatMap rowText ++ (text "('" ++ (escape last ++ text "');")) := by
  have closing : text "');" = text "')" ++ text ";" := by decide
  rw [values, values_take, closing]
  simp

theorem reads_values {paths : List Text} (held : paths ≠ []) :
    Reads .start (values paths) (rowsTokens paths ++ [.sym .semi]) := by
  obtain ⟨init, last, rfl⟩ := (List.eq_nil_or_concat' paths).resolve_left held
  rw [values_concat, rows_tokens_concat]
  have opening : Scans .start (text "('") [.sym .lparen] (.quoted quote []) := scans_text rfl
  have closing : Scans (.quoted quote last) (text "');") [.string last, .sym .rparen, .sym .semi]
      .start := scans_close rfl rfl
  induction init with
  | nil =>
    have row := Reads.literal opening (clean_text rfl) (by simp) (Reads.close closing (clean_text rfl))
    simpa [rowTokens, finish, escape_eq_doubled] using row
  | cons path init ih =>
    have between : Scans (.quoted quote path) (text "'),") [.string path, .sym .rparen, .sym .comma]
        .start := scans_close rfl rfl
    have row := Reads.literal opening (clean_text rfl) (by simp)
      (Reads.fixed between (clean_text rfl) (by simp) (ih (by simp)))
    simpa [rowText, rowTokens, escape_eq_doubled] using row

theorem clean_values_iff {paths : List Text} (held : paths ≠ []) :
    nul ∉ values paths ↔ ∀ p ∈ paths, nul ∉ p := by
  obtain ⟨init, last, rfl⟩ := (List.eq_nil_or_concat' paths).resolve_left held
  have opening : nul ∉ text "('" := clean_text rfl
  have between : nul ∉ text "')," := clean_text rfl
  have closing : nul ∉ text "');" := clean_text rfl
  simp [values_concat, rowText, opening, between, closing, clean_escape, or_imp, forall_and]

/-- The second statement of `db::add_to_playlist` with a list. -/
def replacements (paths : List Text) (held : paths ≠ []) : Bracketed where
  head := "REPLACE INTO ["
  keywords := [.keyword .replace, .keyword .into]
  tail := text "] VALUES " ++ values paths
  rest := .keyword .values :: (rowsTokens paths ++ [.sym .semi])
  clean := clean_text rfl
  single := by decide
  legal := by simpa using illegal_not_mem_rows paths
  opens := scans_text rfl
  reads := fun n => by
    have before : Scans (.bracket n) (text "] VALUES ") [.quotedId n, .keyword .values] .start :=
      scans_bracket_close rfl
    exact .fixed before (clean_text rfl) (by simp) (reads_values held)

theorem clean_deletion {path : Text} : nul ∉ (deletion path).tail ↔ nul ∉ path := by
  have before : nul ∉ text "] WHERE path='" := clean_text rfl
  have after : nul ∉ text "';" := clean_text rfl
  simp [deletion, before, after, clean_escape]

theorem clean_replacement {path : Text} : nul ∉ (replacement path).tail ↔ nul ∉ path := by
  have before : nul ∉ text "] VALUES('" := clean_text rfl
  have after : nul ∉ text "');" := clean_text rfl
  simp [replacement, before, after, clean_escape]

/-- The calls that put a playlist's name between brackets. -/
inductive NamedCall
  | addPath (path : Text)
  | addPaths (paths : List Text)
  | removePath (path : Text)
  | removePaths (paths : List Text)
  | remove
  | select
  deriving DecidableEq, Repr

namespace NamedCall

/-- The SQL texts of the call. -/
def texts (name : Text) : NamedCall → List Text
  | .addPath path => addPathToPlaylist name path
  | .addPaths paths => addToPlaylist name paths
  | .removePath path => removePathFromPlaylist name path
  | .removePaths paths => removeFromPlaylist name paths
  | .remove => [removePlaylist name]
  | .select => [selectPlaylistQuery name]

/-- The strings the call puts into literals. -/
def arguments : NamedCall → List Text
  | .addPath path | .removePath path => [path]
  | .addPaths paths | .removePaths paths => paths
  | .remove | .select => []

def deleteTokens (name path : Text) : List Token :=
  [.keyword .delete, .keyword .from, .quotedId name, .keyword .where, .id "path", .sym .eq,
    .string path, .sym .semi]

/-- The single statement each text is meant to be. -/
def intended (name : Text) : NamedCall → List (List Token)
  | .addPath path =>
    [[.keyword .replace, .keyword .into, .quotedId name, .keyword .values, .sym .lparen,
      .string path, .sym .rparen, .sym .semi]]
  | .addPaths [] => []
  | .addPaths (path :: paths) =>
    [[.keyword .create, .keyword .table, .keyword .if, .keyword .not, .keyword .exists,
        .quotedId name, .sym .lparen, .id "path", .id "TEXT", .keyword .primary, .keyword .key,
        .sym .rparen, .sym .semi],
      [.keyword .replace, .keyword .into, .quotedId name, .keyword .values] ++
        rowsTokens (path :: paths) ++ [.sym .semi]]
  | .removePath path => [deleteTokens name path]
  | .removePaths paths => paths.map (deleteTokens name)
  | .remove =>
    [[.keyword .drop, .keyword .table, .keyword .if, .keyword .exists, .quotedId name, .sym .semi]]
  | .select =>
    [[.keyword .select, .keyword .distinct, .id "path", .keyword .from, .quotedId name, .sym .semi]]

/-- The statements of the call, each with its bracketed name. -/
def parts : NamedCall → List Bracketed
  | .addPath path => [replacement path]
  | .addPaths [] => []
  | .addPaths (path :: paths) => [creation, replacements (path :: paths) (List.cons_ne_nil _ _)]
  | .removePath path => [deletion path]
  | .removePaths paths => paths.map deletion
  | .remove => [removal]
  | .select => [listing]

theorem texts_eq (call : NamedCall) (name : Text) :
    call.texts name = call.parts.map fun b => b.text name := by
  cases call with
  | addPath path => simp [texts, parts, addPathToPlaylist, replacement, Bracketed.text]
  | addPaths paths =>
    cases paths with
    | nil => rfl
    | cons path paths =>
      have rows : (fun s => text "('" ++ escape s ++ text "'),") = rowText := rfl
      simp only [texts, parts, addToPlaylist, creation, replacements, Bracketed.fixed, Bracketed.text,
        values, rows, List.length_cons, Nat.succ_ne_zero, ↓reduceIte, List.map_cons, List.map_nil]
      simp only [List.append_assoc]
  | removePath path =>
    simp [texts, parts, removePathFromPlaylist, deletion, Bracketed.text]
  | removePaths paths =>
    simp [texts, parts, removeFromPlaylist, deletion, Bracketed.text]
  | remove => simp [texts, parts, removePlaylist, removal, Bracketed.fixed, Bracketed.text]
  | select => simp [texts, parts, selectPlaylistQuery, listing, Bracketed.fixed, Bracketed.text]

/-- A statement is cut exactly when one of the arguments has a NUL. -/
theorem clean_tails_iff (call : NamedCall) :
    (∀ b ∈ call.parts, nul ∉ b.tail) ↔ ∀ a ∈ call.arguments, nul ∉ a := by
  cases call with
  | addPath path => simp [parts, arguments, clean_replacement]
  | addPaths paths =>
    cases paths with
    | nil => simp [parts, arguments]
    | cons path paths =>
      have fixedTail : nul ∉ creation.tail := clean_text rfl
      simp only [parts, arguments, List.forall_mem_cons, List.not_mem_nil, false_implies,
        implies_true, and_true, fixedTail, not_false_eq_true, true_and]
      rw [replacements, List.mem_append, not_or, clean_values_iff (List.cons_ne_nil _ _)]
      simp [show nul ∉ text "] VALUES " from clean_text rfl]
  | removePath path => simp [parts, arguments, clean_deletion]
  | removePaths paths => simp [parts, arguments, clean_deletion]
  | remove => simpa [parts, arguments] using show nul ∉ removal.tail from clean_text rfl
  | select => simpa [parts, arguments] using show nul ∉ listing.tail from clean_text rfl

theorem intended_eq (call : NamedCall) (name : Text) :
    call.intended name = call.parts.map fun b => b.tokens name := by
  cases call with
  | addPaths paths => cases paths <;> simp [intended, parts, Bracketed.tokens, creation, replacements, Bracketed.fixed]
  | removePaths paths => simp [intended, parts, deleteTokens, Bracketed.tokens, deletion]
  | _ => rfl

/-- **Bracketed names are not protected.** For every name without NUL and all arguments, the
texts of a call are read as the intended statements exactly when the call pushes nothing, or the
name has no closing bracket and no argument has a NUL. -/
theorem named_call_lexes_as_intended_iff (name : Text) (clean : nul ∉ name) (call : NamedCall) :
    (call.texts name).map (fun q => lex (cStr q)) = call.intended name ↔
      call.texts name = [] ∨ (']' ∉ name ∧ ∀ a ∈ call.arguments, nul ∉ a) := by
  rw [texts_eq, intended_eq, List.map_map, List.map_inj_left, ← clean_tails_iff, List.map_eq_nil_iff]
  simp only [Function.comp_apply, Bracketed.lex_text_iff _ clean]
  constructor
  · intro read
    by_cases empty : call.parts = []
    · exact Or.inl empty
    · obtain ⟨b, held⟩ := List.exists_mem_of_ne_nil _ empty
      exact Or.inr ⟨(read b held).1, fun c member => (read c member).2⟩
  · rintro (empty | ⟨unclosed, whole⟩) b held
    · simp [empty] at held
    · exact ⟨unclosed, whole b held⟩

theorem plain_name_lexes_as_intended :
    ((NamedCall.removePath "a.mp3").texts "Rock").map (fun q => lex (cStr q)) =
      (NamedCall.removePath "a.mp3").intended "Rock" :=
  (named_call_lexes_as_intended_iff "Rock" (by decide) (.removePath "a.mp3")).mpr
    (.inr ⟨by decide, by decide⟩)

/-- A file may well be called `Mix [live].m3u`. -/
theorem bracketed_name_misread :
    ¬ ∀ (name : Text) (call : NamedCall), name ≠ [] → nul ∉ name →
      (call.texts name).map (fun q => lex (cStr q)) = call.intended name := by
  intro all
  have read := all (text "Mix [live]") .remove (by decide) (by decide)
  exact absurd read (by decide +kernel)

end NamedCall

end Sws.Database
