import Sws.Distinct
import Sws.Views

/-! One run of `player::populate` over a traversal of the library: what it adds to the catalog and to
the playlists, what it has inserted, and what a second run adds. -/
namespace Sws.Traversal

open Database
open Player (Playlist)
open Resume (populate populate_eq visited)
open Views (Accepts Lists playlistOf pushed visited_cons pushed_cons queries_visited)
open Distinct (extend added)

variable {files : Files} {entries : List Text} {s : Catalog.State} {path : Text}

instance : DecidablePred (Accepts files) := fun _ => inferInstanceAs (Decidable (_ ∧ _ ∧ _))

instance : DecidablePred (Lists files) := fun _ => inferInstanceAs (Decidable (_ ∧ _))

/-- The path of a call of `db::insert_path`. -/
def insertion : Call → Option Text
  | .insertPath path => some path
  | _ => none

/-! ### One entry -/

theorem insertions_playlist (files : Files) (path : Text) :
    (files.playlistOf path).2.filterMap insertion = [] := by
  unfold Files.playlistOf
  split <;> rfl

theorem entered_of_accepts (accepts : Accepts files path) :
    (Catalog.entered files s path).1.catalog = extend id s.catalog path ∧
      (Catalog.entered files s path).1.playlists = s.playlists ∧
      (Catalog.entered files s path).2.filterMap insertion = added id s.catalog [path] := by
  obtain ⟨regular, other, audio⟩ := accepts
  simp only [Catalog.entered, regular, other, audio, extend, added, List.map_id, id_eq, true_and]
  by_cases held : path ∈ s.catalog
  · simp [held]
  · simp [held, insertion]

theorem entered_of_lists (lists : Lists files path) :
    (Catalog.entered files s path).1.catalog = s.catalog ∧
      (Catalog.entered files s path).1.playlists =
        extend (·.name) s.playlists (playlistOf files path) ∧
      (Catalog.entered files s path).2.filterMap insertion = [] := by
  have none := insertions_playlist files path
  have same : (files.playlistOf path).1 = playlistOf files path := rfl
  simp only [Catalog.entered, lists.1, lists.2, ↓reduceIte, extend, same]
  by_cases there : (playlistOf files path).name ∈ s.playlists.map (·.name)
  · have found : s.playlists.any fun p => p.name = (playlistOf files path).name := by simpa using there
    rw [if_pos there, if_pos found, List.filterMap_append, none]
    exact ⟨rfl, rfl, rfl⟩
  · have missing : ¬ s.playlists.any fun p => p.name = (playlistOf files path).name := by simpa using there
    rw [if_neg there, if_neg missing]
    exact ⟨rfl, rfl, none⟩

/-- What is no regular file, and what is neither a playlist nor audio, is passed over. -/
theorem entered_of_other (noAudio : ¬ Accepts files path) (noList : ¬ Lists files path) :
    Catalog.entered files s path = (s, []) := by
  unfold Catalog.entered
  split_ifs with regular playlist new
  · exact absurd ⟨regular, playlist⟩ noList
  · exact absurd ⟨regular, playlist, new.1⟩ noAudio
  · rfl
  · rfl

/-! ### The traversal -/

/-- The catalog grows by the audio files it does not hold. -/
theorem catalog_visited_eq : (visited files entries s).catalog =
    (entries.filter (Accepts files)).foldl (extend id) s.catalog := by
  induction entries generalizing s with
  | nil => rfl
  | cons path entries ih =>
    rw [visited_cons, ih, Catalog.push, List.filter_cons]
    by_cases accepts : Accepts files path
    · simp only [accepts, decide_true, ↓reduceIte, List.foldl_cons, (entered_of_accepts accepts).1]
    · simp only [accepts, decide_false, Bool.false_eq_true, ↓reduceIte]
      by_cases lists : Lists files path
      · rw [(entered_of_lists lists).1]
      · rw [entered_of_other accepts lists]

/-- The playlists grow by those of the playlist files with new names. -/
theorem playlists_visited_eq : (visited files entries s).playlists =
    ((entries.filter (Lists files)).map (playlistOf files)).foldl (extend (·.name)) s.playlists := by
  induction entries generalizing s with
  | nil => rfl
  | cons path entries ih =>
    rw [visited_cons, ih, Catalog.push, List.filter_cons]
    by_cases lists : Lists files path
    · simp only [lists, decide_true, ↓reduceIte, List.map_cons, List.foldl_cons, (entered_of_lists lists).2.1]
    · simp only [lists, decide_false, Bool.false_eq_true, ↓reduceIte]
      by_cases accepts : Accepts files path
      · rw [(entered_of_accepts accepts).2.1]
      · rw [entered_of_other accepts lists]

/-- The paths inserted are those the catalog grows by. -/
theorem insertions_pushed : (pushed files s entries).filterMap insertion =
    added id s.catalog (entries.filter (Accepts files)) := by
  induction entries generalizing s with
  | nil => rfl
  | cons path entries ih =>
    rw [pushed_cons, List.filterMap_append, ih, Catalog.push, List.filter_cons]
    by_cases accepts : Accepts files path
    · obtain ⟨catalog, -, inserts⟩ := entered_of_accepts (s := s) accepts
      simp only [accepts, decide_true, ↓reduceIte, catalog, inserts, added, extend]
      split_ifs <;> rfl
    · simp only [accepts, decide_false, Bool.false_eq_true, ↓reduceIte]
      by_cases lists : Lists files path
      · obtain ⟨catalog, -, inserts⟩ := entered_of_lists (s := s) lists
        rw [catalog, inserts, List.nil_append]
      · rw [entered_of_other accepts lists]
        rfl

/-- An `INSERT` statement; what else a scan pushes creates or replaces. -/
def inserts (q : Text) : Bool := (text "INSERT").isPrefixOf q

/-- The inserting texts are those of the calls of `db::insert_path`. -/
theorem inserts_texts : ((pushed files s entries).flatMap Call.texts).filter inserts =
    ((pushed files s entries).filterMap insertion).map insertPath := by
  have each (c : Call) (held : c ∈ pushed files s entries) :
      c.texts.filter inserts = (insertion c).toList.map insertPath := by
    rcases Views.calls_pushed held with ⟨path, -, -, rfl⟩ | ⟨name, source, rfl⟩ | ⟨path, -, -, -, rfl⟩
    · simp only [Call.texts, addToPlaylist]
      split_ifs <;> rfl
    · rfl
    · rfl
  revert each
  generalize pushed files s entries = calls
  intro each
  induction calls with
  | nil => rfl
  | cons c calls ih =>
    obtain ⟨own, others⟩ := List.forall_mem_cons.mp each
    rw [List.flatMap_cons, List.filter_append, own, ih others, List.filterMap_cons]
    cases insertion c <;> rfl

/-- A scan of these entries comes to its end, adds nothing and has nothing inserted. -/
structure Settled (files : Files) (entries : List Text) (s : Catalog.State) : Prop where
  ended : ∃ t, populate files entries s = some t ∧ t.catalog = s.catalog ∧ t.playlists = s.playlists
  insertions : (pushed files s entries).filterMap insertion = []

theorem settled_visited {t : Catalog.State} (completes : files.Completes entries)
    (catalog : t.catalog = (visited files entries s).catalog)
    (playlists : t.playlists = (visited files entries s).playlists) : Settled files entries t where
  ended := by
    refine ⟨visited files entries t, by rw [populate_eq, if_pos completes], ?_, ?_⟩
    · rw [catalog_visited_eq, Distinct.foldl_eq_append, catalog, catalog_visited_eq,
        Distinct.added_again, List.append_nil]
    · rw [playlists_visited_eq, Distinct.foldl_eq_append, playlists, playlists_visited_eq,
        Distinct.added_again, List.append_nil]
  insertions := by rw [insertions_pushed, catalog, catalog_visited_eq, Distinct.added_again]

/-- The audio files among the entries that are not in the catalog, in order. -/
def newcomers (files : Files) (catalog entries : List Text) : List Text :=
  entries.filter fun path => Accepts files path ∧ path ∉ catalog

theorem added_eq_newcomers (once : entries.Nodup) (catalog : List Text) :
    added id catalog (entries.filter (Accepts files)) = newcomers files catalog entries := by
  have distinct : ((entries.filter (Accepts files)).map id).Nodup := by
    rw [List.map_id]
    exact once.filter _
  rw [Distinct.added_eq_filter distinct, List.filter_filter, newcomers]
  refine List.filter_congr fun path _ => ?_
  simp only [List.map_id, id_eq, Bool.decide_and, Bool.and_comm]

/-- What a scan that starts in `s` and leaves `t` makes of the entries: the audio files that were not in the
catalog are added to it in order, each is inserted once and nothing else is, the names of the playlists stay
distinct, and a second scan adds nothing, whatever has been executed meanwhile. -/
structure Cataloged (files : Files) (entries : List Text) (s t : Catalog.State) : Prop where
  tracks : t.catalog.Nodup
  names : (t.playlists.map (·.name)).Nodup
  catalog : t.catalog = s.catalog ++ newcomers files s.catalog entries
  queries : t.queries = s.queries ++ (pushed files s entries).flatMap Call.texts
  insertions : (pushed files s entries).filterMap insertion = newcomers files s.catalog entries
  texts : ((pushed files s entries).flatMap Call.texts).filter inserts =
    (newcomers files s.catalog entries).map insertPath
  again : ∀ db queries, Settled files entries { t with db := db, queries := queries }

theorem cataloged_visited (completes : files.Completes entries) (once : entries.Nodup) (tracks : s.catalog.Nodup)
    (names : (s.playlists.map (·.name)).Nodup) : Cataloged files entries s (visited files entries s) where
  tracks := by
    have start : (s.catalog.map id).Nodup := by rwa [List.map_id]
    have kept : (((entries.filter (Accepts files)).foldl (extend id) s.catalog).map id).Nodup :=
      Distinct.nodup_foldl start
    rwa [List.map_id, ← catalog_visited_eq] at kept
  names := by
    rw [playlists_visited_eq]
    exact Distinct.nodup_foldl names
  catalog := by rw [catalog_visited_eq, Distinct.foldl_eq_append, added_eq_newcomers once]
  queries := queries_visited
  insertions := by rw [insertions_pushed, added_eq_newcomers once]
  texts := by rw [inserts_texts, insertions_pushed, added_eq_newcomers once]
  again := fun _ _ => settled_visited completes rfl rfl

/-- **A scan catalogs each audio file once, if it comes to its end.** Whatever the order of the traversal, it
does so exactly when everything that it asks of its entries is answered. -/
theorem populate_catalogs_once_iff (once : entries.Nodup) (tracks : s.catalog.Nodup)
    (names : (s.playlists.map (·.name)).Nodup) :
    (∃ t, populate files entries s = some t ∧ Cataloged files entries s t) ↔ files.Completes entries := by
  constructor
  · rintro ⟨t, ended, -⟩
    rw [populate_eq] at ended
    exact (Option.ite_none_right_eq_some.mp ended).1
  · intro completes
    exact ⟨_, by rw [populate_eq, if_pos completes], cataloged_visited completes once tracks names⟩

/-- A track the catalog holds, a new one, and a playlist file. -/
theorem library_cataloged_once : ∃ t,
    populate Resume.library ["/b.mp3", "/Rock.m3u", "/a.mp3"] ⟨.empty, [], ["/a.mp3"], []⟩ = some t ∧
      Cataloged Resume.library ["/b.mp3", "/Rock.m3u", "/a.mp3"] ⟨.empty, [], ["/a.mp3"], []⟩ t :=
  (populate_catalogs_once_iff (by decide) (by decide) (by decide)).mpr (by decide)

/-- A symbolic link to itself, which the traversal yields and whose status cannot be read. -/
def looped : Files := { Resume.library with regular := fun path => if path = "/loop" then none else some true }

/-- The audio file after the link is not cataloged. -/
theorem link_ends_scan : ¬ ∀ (files : Files) (entries : List Text) (s : Catalog.State),
    entries.Nodup → s.catalog.Nodup → (s.playlists.map (·.name)).Nodup →
      ∃ t, populate files entries s = some t ∧ Cataloged files entries s t := by
  intro all
  obtain ⟨t, ended, -⟩ := all looped ["/loop", "/b.mp3"] ⟨.empty, [], [], []⟩ (by decide) (by decide) (by decide)
  have stuck : ¬ looped.Completes ["/loop", "/b.mp3"] := by decide
  rw [populate_eq, if_neg stuck] at ended
  cases ended

end Sws.Traversal
