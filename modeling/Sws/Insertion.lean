import Mathlib.Data.List.Dedup
import Sws.Editing

/-! `insert_after`: where the new tracks come to stand, and what a save leaves on its way. -/
namespace Sws.Insertion

open Database Sql Import Refresh Editing
open Player (Playlist)

/-- Where `insert_after` puts its iterator. -/
def position (tracks : List Text) (curr : UInt32) : Nat :=
  if curr.toNat > tracks.length then tracks.length else curr.toNat

/-- `playlist::insert_after`, with the texts that a save pushes. The loop goes backwards over the new
paths and puts each one before the element at the iterator, which stays where it is. -/
def insertAfter (p : Playlist) (curr : UInt32) (paths : List Text) (save : Bool) : Playlist × List Text :=
  let it := position p.tracks curr
  let before := paths.reverse.foldl (fun before path => before ++ [path]) (p.tracks.take it)
  let p := { p with tracks := before ++ p.tracks.drop it }
  (p, if save then removePlaylist p.name :: addToPlaylist p.name p.tracks else [])

section Order

variable (p : Playlist) (curr : UInt32) (paths : List Text) (save : Bool)

theorem foldl_emplace (before : List Text) :
    paths.foldl (fun before path => before ++ [path]) before = before ++ paths := by
  induction paths generalizing before with
  | nil => simp
  | cons path paths ih =>
    rw [List.foldl_cons, ih]
    simp

/-- The paths come to stand in reverse, before the element at the index. -/
theorem tracks_insert_after : (insertAfter p curr paths save).1.tracks =
    p.tracks.take curr.toNat ++ paths.reverse ++ p.tracks.drop curr.toNat := by
  have taken : p.tracks.take (position p.tracks curr) = p.tracks.take curr.toNat := by
    unfold position
    split_ifs with beyond
    · rw [List.take_of_length_le (Nat.le_of_lt beyond), List.take_length]
    · rfl
  have dropped : p.tracks.drop (position p.tracks curr) = p.tracks.drop curr.toNat := by
    unfold position
    split_ifs with beyond
    · rw [List.drop_of_length_le (Nat.le_of_lt beyond), List.drop_length]
    · rfl
  simp only [insertAfter, foldl_emplace, taken, dropped]

/-- **Insertion.** The new tracks stand in order right after the element at the index, or at the end
where there is none, exactly when that element, if there is one, and the new tracks read the same
backwards. -/
theorem inserts_after_iff : (insertAfter p curr paths save).1.tracks =
      p.tracks.take (min (curr.toNat + 1) p.tracks.length) ++ paths ++
        p.tracks.drop (min (curr.toNat + 1) p.tracks.length) ↔
    (p.tracks[curr.toNat]?.toList ++ paths).reverse = p.tracks[curr.toNat]?.toList ++ paths := by
  rw [tracks_insert_after]
  cases here : p.tracks[curr.toNat]? with
  | none =>
    have beyond : p.tracks.length ≤ curr.toNat := List.getElem?_eq_none_iff.mp here
    have last : min (curr.toNat + 1) p.tracks.length = p.tracks.length := by omega
    rw [last, List.take_of_length_le beyond, List.drop_of_length_le beyond, List.take_length,
      List.drop_length, List.append_nil, List.append_nil, List.append_cancel_left_eq]
    rfl
  | some x =>
    obtain ⟨inside, same⟩ := List.getElem?_eq_some_iff.mp here
    have next : min (curr.toNat + 1) p.tracks.length = curr.toNat + 1 := by omega
    have split : p.tracks.drop curr.toNat = x :: p.tracks.drop (curr.toNat + 1) := by
      rw [List.drop_eq_getElem_cons inside, same]
    have taken : p.tracks.take (curr.toNat + 1) = p.tracks.take curr.toNat ++ [x] := by
      rw [List.take_succ_eq_append_getElem inside, same]
    have left : p.tracks.take curr.toNat ++ paths.reverse ++ x :: p.tracks.drop (curr.toNat + 1) =
        p.tracks.take curr.toNat ++ ((paths.reverse ++ [x]) ++ p.tracks.drop (curr.toNat + 1)) := by simp
    have right : p.tracks.take curr.toNat ++ [x] ++ paths ++ p.tracks.drop (curr.toNat + 1) =
        p.tracks.take curr.toNat ++ ((x :: paths) ++ p.tracks.drop (curr.toNat + 1)) := by simp
    rw [next, split, taken, left, right, List.append_cancel_left_eq, List.append_cancel_right_eq,
      ← List.reverse_cons]
    rfl

end Order

/-- Two tracks inserted after the first of two. -/
theorem inserted_before_in_reverse :
    ¬ ∀ (p : Playlist) (curr : UInt32) (paths : List Text), (insertAfter p curr paths false).1.tracks =
      p.tracks.take (min (curr.toNat + 1) p.tracks.length) ++ paths ++
        p.tracks.drop (min (curr.toNat + 1) p.tracks.length) := by
  intro all
  have same := all ⟨text "Rock", [text "a.mp3", text "b.mp3"]⟩ 0 [text "x.mp3", text "y.mp3"]
  exact absurd same (by decide)

/-! ### Saving -/

/-- The playlist is stored with these paths. -/
def Stored (db : Db) (name : Text) (paths : List Text) : Prop :=
  ∃ spelt held, Contains db name spelt held ∧ ∀ p, p ∈ held ↔ p ∈ paths

/-- Whenever the worker stops in a save, whatever statements have failed, the playlist is stored as
before the call, or as after it. -/
def Atomic (db : Db) (p : Playlist) (curr : UInt32) (paths old : List Text) : Prop :=
  ∀ done after, done.Sublist (insertAfter p curr paths true).2 → execAll db done = some after →
    Stored after p.name old ∨ Stored after p.name (insertAfter p curr paths true).1.tracks

section Saving

variable {db : Db} {p : Playlist} {old : List Text}

theorem not_stored_of_missing {name : Text} {paths : List Text} (missing : db.lookup name = none) :
    ¬ Stored db name paths := by
  rintro ⟨spelt, held, ⟨t, found, -⟩, -⟩
  cases missing.symm.trans found

/-- The first statement of a save removes the playlist. -/
theorem exec_first (usable : Usable p.name) (curr : UInt32) (paths : List Text) :
    execAll db ((insertAfter p curr paths true).2.take 1) = some (db.erase p.name) :=
  exec_all_cons (exec_drop usable) rfl

/-- A save of no tracks leaves no table, and any other the table of its tracks. -/
theorem exec_save (usable : Usable p.name) (db : Db) (curr : UInt32) (paths : List Text) :
    ∃ after, execAll db (insertAfter p curr paths true).2 = some after ∧
      ((insertAfter p curr paths true).1.tracks = [] ∧ after.lookup p.name = none ∨
        (insertAfter p curr paths true).1.tracks ≠ [] ∧
          Contains after p.name p.name (imported [] (insertAfter p curr paths true).1.tracks)) := by
  have gone : (db.erase p.name).lookup p.name = none := Db.lookup_erase_self
  by_cases none : (insertAfter p curr paths true).1.tracks = []
  · have texts : (insertAfter p curr paths true).2 =
        removePlaylist p.name :: addToPlaylist p.name (insertAfter p curr paths true).1.tracks := rfl
    rw [texts, none]
    exact ⟨_, exec_all_cons (exec_drop usable) rfl, .inl ⟨rfl, gone⟩⟩
  · obtain ⟨after, ran, contains, -⟩ := exec_add_all usable none (.inr ⟨gone, rfl, rfl⟩)
    exact ⟨after, exec_all_cons (exec_drop usable) ran, .inr ⟨none, contains⟩⟩

/-- **Saving.** A save that is executed to the end leaves the playlist listed exactly when it has a track
and a name that is shown; and `select_playlist` then returns each of its paths once. -/
theorem save_reads_back (usable : Usable p.name) (db : Db) (curr : UInt32) (paths : List Text) (scan : Scan) :
    ∃ after listed, execAll db (insertAfter p curr paths true).2 = some after ∧
      tables scan after = some listed ∧
      (p.name ∈ listed ↔ (insertAfter p curr paths true).1.tracks ≠ [] ∧ p.name.head? ≠ some '_') ∧
      ((∀ t ∈ (insertAfter p curr paths true).1.tracks, nul ∉ t) → ∃ all,
        selectPlaylist scan after p.name = some all ∧
          all.Perm (insertAfter p curr paths true).1.tracks.dedup) := by
  obtain ⟨after, ran, left⟩ := exec_save usable db curr paths
  obtain ⟨listed, answered, perm⟩ := tables_perm scan after
  refine ⟨after, listed, ran, answered, ?_, fun clean => ?_⟩
  · rw [perm.mem_iff, mem_shown_tables, and_comm]
    refine and_congr_left fun _ => ?_
    rcases left with ⟨none, absent⟩ | ⟨some_, t, found, listing⟩
    · refine iff_of_false ?_ (not_not.mpr none)
      rintro ⟨t, held, same⟩
      exact Db.lookup_eq_none_iff.mp absent t held (congrArg fold same)
    · exact iff_of_true ⟨t, Db.mem_of_lookup found, listing.name⟩ some_
  · rcases left with ⟨none, absent⟩ | ⟨-, contains⟩
    · have stands : Stands after p.name .none := absent
      obtain ⟨all, selected, -, exactly⟩ := select_stands usable stands scan
      have nothing : all = [] :=
        List.eq_nil_iff_forall_not_mem.mpr fun t member => by cases (exactly t).mp member
      refine ⟨all, selected, ?_⟩
      rw [none, nothing]
      exact .nil
    · have stands : Stands after p.name (.some _) := ⟨_, contains⟩
      obtain ⟨all, selected, once, exactly⟩ := select_stands usable stands scan
      refine ⟨all, selected, (List.perm_ext_iff_of_nodup once (List.nodup_dedup _)).mpr fun t => ?_⟩
      rw [exactly, Option.getD_some, imported, if_pos clean, mem_replaced, List.mem_dedup]
      simp

theorem not_atomic (usable : Usable p.name) (curr : UInt32) (paths : List Text) :
    ¬ Atomic db p curr paths old := by
  intro atomic
  rcases atomic _ _ (List.take_sublist 1 _) (exec_first usable curr paths) with before | after
  · exact not_stored_of_missing Db.lookup_erase_self before
  · exact not_stored_of_missing Db.lookup_erase_self after

/-- **No save is atomic.** Whatever is stored and whatever is inserted, after the first statement of a
save the playlist is missing, and `select_playlist` returns nothing. -/
theorem save_not_atomic (usable : Usable p.name) (db : Db) (curr : UInt32) (paths old : List Text) :
    ¬ Atomic db p curr paths old ∧
      execAll db ((insertAfter p curr paths true).2.take 1) = some (db.erase p.name) ∧
      (∀ tracks, ¬ Stored (db.erase p.name) p.name tracks) ∧
      ∀ scan, selectPlaylist scan (db.erase p.name) p.name = some [] := by
  have gone : Stands (db.erase p.name) p.name none := Db.lookup_erase_self
  refine ⟨not_atomic usable curr paths, exec_first usable curr paths,
    fun tracks => not_stored_of_missing gone, fun scan => ?_⟩
  obtain ⟨all, selected, -, exactly⟩ := select_stands usable gone scan
  have none : all = [] := List.eq_nil_iff_forall_not_mem.mpr fun t member => by cases (exactly t).mp member
  rw [selected, none]

end Saving

/-- A database with one playlist. -/
def stocked : Db :=
  Db.empty.create
    { name := "Rock", columns := playlistColumns, key := ["path"], rows := pathRows [text "a.mp3"] }

theorem stocked_stored : Stored stocked "Rock" [text "a.mp3"] :=
  ⟨"Rock", _, ⟨_, rfl, rfl, ⟨rfl, rfl⟩, rfl⟩, fun _ => Iff.rfl⟩

theorem one_track_missing :
    ¬ Atomic stocked ⟨"Rock", [text "a.mp3"]⟩ 0 [text "b.mp3"] [text "a.mp3"] :=
  (save_not_atomic (p := ⟨"Rock", [text "a.mp3"]⟩) (by decide) stocked 0 [text "b.mp3"] [text "a.mp3"]).1

theorem saving_not_atomic : ¬ ∀ db p curr paths old, Usable p.name → Stored db p.name old →
    Atomic db p curr paths old := by
  intro all
  have usable : Usable (⟨"Rock", [text "a.mp3"]⟩ : Playlist).name := by decide
  exact not_atomic usable 0 [text "b.mp3"] (all _ _ _ _ _ usable stocked_stored)

theorem saved_track_read_back : ∃ after listed, execAll stocked
      (insertAfter ⟨"Rock", [text "a.mp3"]⟩ 0 [text "b.mp3"] true).2 = some after ∧
    tables .stored after = some listed ∧ text "Rock" ∈ listed ∧ ∃ all,
      selectPlaylist .stored after "Rock" = some all ∧ all.Perm [text "b.mp3", text "a.mp3"] := by
  have usable : Usable (⟨"Rock", [text "a.mp3"]⟩ : Playlist).name := by decide
  obtain ⟨after, listed, ran, answered, shown, returned⟩ :=
    save_reads_back usable stocked 0 [text "b.mp3"] .stored
  exact ⟨after, listed, ran, answered, shown.mpr (by decide), returned (by decide)⟩

/-- A track that stands twice is stored once. -/
theorem repeated_track_read_back_once :
    ¬ ∀ (db : Db) (p : Playlist) (curr : UInt32) (paths : List Text), Usable p.name →
      ∃ after listed all, execAll db (insertAfter p curr paths true).2 = some after ∧
        tables .stored after = some listed ∧ p.name ∈ listed ∧
        selectPlaylist .stored after p.name = some all ∧
        ∀ t, all.count t = (insertAfter p curr paths true).1.tracks.count t := by
  intro all
  have usable : Usable (⟨"Rock", [text "a.mp3"]⟩ : Playlist).name := by decide
  obtain ⟨after, listed, paths, ran, answered, shown, selected, counts⟩ :=
    all stocked ⟨"Rock", [text "a.mp3"]⟩ 0 [text "a.mp3"] usable
  obtain ⟨after', ran', left⟩ := exec_save usable stocked 0 [text "a.mp3"]
  cases ran.symm.trans ran'
  rcases left with ⟨none, -⟩ | ⟨-, contains⟩
  · exact absurd none (by decide)
  · have stands : Stands after _ (.some _) := ⟨_, contains⟩
    obtain ⟨once, selected', nodup, -⟩ := select_stands usable stands .stored
    cases selected.symm.trans selected'
    have twice : paths.count (text "a.mp3") = 2 := counts (text "a.mp3")
    have most := List.nodup_iff_count_le_one.mp nodup (text "a.mp3")
    omega

end Sws.Insertion
