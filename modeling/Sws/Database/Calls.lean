import Sws.Database.Reading

/-! The calls that push statements, each with its texts and the statements these are meant to be. -/
namespace Sws.Database

open Sql

inductive Call
  | insertPath (path : Text)
  | insertTrack (s : Song)
  | updateDuration (path : Text) (duration : Double)
  | addToPlaylist (name : Text) (paths : List Text)
  | insertPlaylist (name source : Text)
  | setPlaylistCurrent (name : Text) (current : Int)
  deriving DecidableEq, Repr

namespace Call

def texts : Call → List Text
  | .insertPath path => [Database.insertPath path]
  | .insertTrack s => [Database.insertTrack s]
  | .updateDuration path duration => [Database.updateDuration path duration]
  | .addToPlaylist name paths => Database.addToPlaylist name paths
  | .insertPlaylist name source => [Database.insertPlaylist name source]
  | .setPlaylistCurrent name current => [Database.setPlaylistCurrent name current]

def stmts : Call → List Stmt
  | .insertPath path => [.insert false "db_catalog" (some ["path"]) [[.text path]]]
  | .insertTrack s => [.insert false "db_catalog" none [s.values]]
  | .updateDuration path duration =>
    [.update "db_catalog" [("duration", .real duration.millionths)]
      [{ operand := .column "path", value := .text path }]]
  | .addToPlaylist _ [] => []
  | .addToPlaylist name paths =>
    [.createTable true name playlistColumns ["path"], .insert true name none (paths.map fun p => [.text p])]
  | .insertPlaylist name source =>
    [.insert true "_playlist" (some ["name", "source"]) [[.text name, .text source]]]
  | .setPlaylistCurrent name current =>
    [.update "_playlist" [("current", .int current)] [{ operand := .column "name", value := .text name }]]

/-- What the code puts into a text as it is needs no quoting. -/
def Plain : Call → Prop
  | .insertTrack s => quote ∉ s.spotifyId ∧ quote ∉ s.md5
  | .addToPlaylist name paths => paths ≠ [] → ']' ∉ name
  | _ => True

/-- The texts of a plain call are read as the statements they are meant to be. -/
theorem texts_denote {c : Call} (plain : c.Plain) : List.Forall₂ Denotes c.texts c.stmts := by
  cases c with
  | insertPath path => exact .cons (insert_path_denotes path) .nil
  | insertTrack s => exact .cons (insert_track_denotes plain.1 plain.2) .nil
  | updateDuration path duration => exact .cons (update_duration_denotes path duration) .nil
  | addToPlaylist name paths =>
    cases paths with
    | nil => exact .nil
    | cons path paths =>
      have shape := (NamedCall.addPaths (path :: paths)).texts_eq name
      simp only [NamedCall.texts, NamedCall.parts, List.map_cons, List.map_nil] at shape
      rw [texts, shape]
      have held := List.cons_ne_nil path paths
      exact .cons (create_playlist_denotes (plain held)) (.cons (fill_playlist_denotes (plain held) held) .nil)
  | insertPlaylist name source => exact .cons (insert_playlist_denotes name source) .nil
  | setPlaylistCurrent name current => exact .cons (set_playlist_current_denotes name current) .nil

theorem text_denotes {c : Call} (plain : c.Plain) : ∀ q ∈ c.texts, ∃ s ∈ c.stmts, Denotes q s := by
  have each := texts_denote plain
  generalize c.texts = texts, c.stmts = stmts at each
  induction each with
  | nil => simp
  | cons denotes _ ih =>
    simp only [List.forall_mem_cons, List.exists_mem_cons_iff]
    exact ⟨.inl denotes, fun q member => .inr (ih q member)⟩

end Call

/-! ### A list of paths -/

/-- Without a NUL in the name or in a path neither text is cut. -/
theorem clean_add_to_playlist {name : Text} {paths : List Text} (named : nul ∉ name)
    (clean : ∀ p ∈ paths, nul ∉ p) : ∀ q ∈ addToPlaylist name paths, nul ∉ q := by
  have shape := (NamedCall.addPaths paths).texts_eq name
  have tails := (NamedCall.clean_tails_iff (.addPaths paths)).mpr clean
  rw [NamedCall.texts] at shape
  rw [shape, List.forall_mem_map]
  intro b part cut
  exact tails b part ((Bracketed.nul_mem_text named).mp cut)

theorem singles_of_denotes {texts : List Text} {stmts : List Stmt}
    (denote : List.Forall₂ Denotes texts stmts) (clean : ∀ q ∈ texts, nul ∉ q) :
    texts.map single? = stmts.map some := by
  induction denote with
  | nil => rfl
  | cons denotes _ ih =>
    obtain ⟨first, others⟩ := List.forall_mem_cons.mp clean
    rw [List.map_cons, List.map_cons, denotes.whole first, ih others]

/-- **A list of paths comes back whole.** The texts of `add_to_playlist` are two statements with
nothing left over: the table under the name, and one row of one column for each path, in order. -/
theorem add_to_playlist_rows {name : Text} {paths : List Text} (held : paths ≠ [])
    (clean : ∀ p ∈ paths, nul ∉ p) (unclosed : ']' ∉ name) (named : nul ∉ name) :
    (addToPlaylist name paths).map single? =
      [some (.createTable true name playlistColumns ["path"]),
        some (.insert true name none (paths.map fun p => [.text p]))] := by
  have plain : (Call.addToPlaylist name paths).Plain := fun _ => unclosed
  have singles := singles_of_denotes (Call.texts_denote plain) (clean_add_to_playlist named clean)
  obtain ⟨path, rest, rfl⟩ := List.exists_cons_of_ne_nil held
  exact singles

/-- Paths made of the delimiters. -/
theorem delimiters_come_back :
    (addToPlaylist "Mix" ["a'),('b", "];--"]).map single? =
      [some (.createTable true "Mix" playlistColumns ["path"]),
        some (.insert true "Mix" none [[.text "a'),('b"], [.text "];--"]])] :=
  add_to_playlist_rows (by decide) (by decide) (by decide) (by decide)

/-- A NUL in the name ends both texts inside the brackets. -/
theorem name_with_nul_cut :
    ¬ ∀ (name : Text) (paths : List Text), paths ≠ [] → (∀ p ∈ paths, nul ∉ p) → ']' ∉ name →
      (addToPlaylist name paths).map single? =
        [some (.createTable true name playlistColumns ["path"]),
          some (.insert true name none (paths.map fun p => [.text p]))] := by
  intro all
  have read := all ['a', nul, 'b'] ["x"] (by decide) (by decide) (by decide)
  exact absurd read (by decide +kernel)

end Sws.Database
