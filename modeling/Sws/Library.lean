import Mathlib.Data.Finset.Basic
import Mathlib.Data.Multiset.Filter
import Mathlib.Logic.Function.Basic
import Sws.Database.Entries

/-! What the database is for: a catalog, playlists, a register of them, and influences. No order of rows
is kept, since no query shows one, and no statement is rejected. -/
namespace Sws

open Database

@[ext] structure Library where
  /-- A path may have several entries. -/
  entries : Multiset Entry
  /-- By its folded name: how the name of the playlist is spelt, and its paths. -/
  playlists : Text → Option (Text × Finset Text)
  /-- The source and the position of a registered name. -/
  register : Text → Option (Text × Int)
  influences : Finset (Text × Text)

inductive CatalogChange
  | enter (e : Entry)
  | time (path : Text) (millionths : Int)
  | remove (path : Text)
  deriving DecidableEq

namespace CatalogChange

/-- An entry, with this duration if it is of the path. -/
def timed (path : Text) (millionths : Int) (e : Entry) : Entry :=
  if e.path = path then { e with duration := millionths } else e

@[simp] theorem timed_path (path : Text) (millionths : Int) (e : Entry) : (timed path millionths e).path = e.path := by
  unfold timed
  split_ifs <;> rfl

theorem timed_of_ne {path : Text} {e : Entry} (other : e.path ≠ path) (millionths : Int) :
    timed path millionths e = e := if_neg other

theorem timed_timed {path path' : Text} {m n : Int} (equal : path = path' → m = n) (e : Entry) :
    timed path' n (timed path m e) = timed path m (timed path' n e) := by
  by_cases same : path = path'
  · obtain rfl := same
    obtain rfl := equal rfl
    rfl
  · by_cases first : e.path = path
    · have other : e.path ≠ path' := fun second => same (first.symm.trans second)
      rw [timed_of_ne (e := timed path m e) (by rwa [timed_path]), timed_of_ne other]
    · have still : (timed path' n e).path ≠ path := by rwa [timed_path]
      rw [timed_of_ne first, timed_of_ne still]

def apply : CatalogChange → Multiset Entry → Multiset Entry
  | .enter e, entries => e ::ₘ entries
  | .time path millionths, entries => entries.map (timed path millionths)
  | .remove path, entries => entries.filter (·.path ≠ path)

/-- Neither shows what the other does. -/
def Apart : CatalogChange → CatalogChange → Prop
  | .enter e, .time path _ | .enter e, .remove path => e.path ≠ path
  | .time path _, .enter e | .remove path, .enter e => e.path ≠ path
  | .time path m, .time path' n => path = path' → m = n
  | _, _ => True

theorem enter_time_comm {e : Entry} {path : Text} (other : e.path ≠ path) (m : Int) (entries : Multiset Entry) :
    apply (.time path m) (apply (.enter e) entries) = apply (.enter e) (apply (.time path m) entries) := by
  simp only [apply, Multiset.map_cons, timed_of_ne other]

theorem enter_remove_comm {e : Entry} {path : Text} (other : e.path ≠ path) (entries : Multiset Entry) :
    apply (.remove path) (apply (.enter e) entries) = apply (.enter e) (apply (.remove path) entries) :=
  Multiset.filter_cons_of_pos _ other

theorem time_remove_comm (path path' : Text) (m : Int) (entries : Multiset Entry) :
    apply (.remove path') (apply (.time path m) entries) = apply (.time path m) (apply (.remove path') entries) := by
  simp only [apply, Multiset.filter_map, Function.comp_def, timed_path]

theorem apply_comm {a b : CatalogChange} (apart : a.Apart b) (entries : Multiset Entry) :
    b.apply (a.apply entries) = a.apply (b.apply entries) := by
  cases a with
  | enter e =>
    cases b with
    | enter e' => exact Multiset.cons_swap e' e entries
    | time path m => exact enter_time_comm apart m entries
    | remove path => exact enter_remove_comm apart entries
  | time path m =>
    cases b with
    | enter e => exact (enter_time_comm apart m entries).symm
    | time path' n =>
      simp only [apply, Multiset.map_map, Function.comp_def, timed_timed apart]
    | remove path' => exact time_remove_comm path path' m entries
  | remove path =>
    cases b with
    | enter e => exact (enter_remove_comm apart entries).symm
    | time path' n => exact (time_remove_comm path' path n entries).symm
    | remove path' => exact Multiset.filter_comm ..

end CatalogChange

inductive PlaylistChange
  | create
  | add (paths : Finset Text)
  | remove (path : Text)
  | drop
  deriving DecidableEq

namespace PlaylistChange

def apply (name : Text) : PlaylistChange → Option (Text × Finset Text) → Option (Text × Finset Text)
  | .create, playlist => some (playlist.getD (name, ∅))
  | .add paths, playlist => playlist.map fun p => (p.1, p.2 ∪ paths)
  | .remove path, playlist => playlist.map fun p => (p.1, p.2.erase path)
  | .drop, _ => none

def Apart : PlaylistChange → PlaylistChange → Prop
  | .create, .add _ | .create, .drop | .add _, .create | .drop, .create => False
  | .add paths, .remove path | .remove path, .add paths => path ∉ paths
  | _, _ => True

theorem apply_comm {a b : PlaylistChange} (apart : a.Apart b) (name : Text)
    (playlist : Option (Text × Finset Text)) :
    b.apply name (a.apply name playlist) = a.apply name (b.apply name playlist) := by
  cases a with
  | create =>
    cases b with
    | create => cases playlist <;> rfl
    | add paths => exact absurd apart id
    | remove path => cases playlist <;> simp [apply]
    | drop => exact absurd apart id
  | add paths =>
    cases b with
    | create => exact absurd apart id
    | add paths' => cases playlist <;> simp [apply, Finset.union_comm paths]
    | remove path =>
      have other : path ∉ paths := apart
      cases playlist <;> simp [apply, Finset.erase_union_distrib, other]
    | drop => rfl
  | remove path =>
    cases b with
    | create => cases playlist <;> simp [apply]
    | add paths =>
      have other : path ∉ paths := apart
      cases playlist <;> simp [apply, Finset.erase_union_distrib, other]
    | remove path' => cases playlist <;> simp [apply, Finset.erase_right_comm]
    | drop => rfl
  | drop =>
    cases b with
    | create => exact absurd apart id
    | add | remove | drop => rfl

end PlaylistChange

inductive RegisterChange
  | source (file : Text)
  | current (position : Int)
  deriving DecidableEq

namespace RegisterChange

def apply : RegisterChange → Option (Text × Int) → Option (Text × Int)
  | .source file, _ => some (file, 0)
  | .current position, row => row.map fun r => (r.1, position)

def Apart : RegisterChange → RegisterChange → Prop
  | .source s, .source s' => s = s'
  | .current m, .current n => m = n
  | _, _ => False

theorem apply_comm {a b : RegisterChange} (apart : a.Apart b) (row : Option (Text × Int)) :
    b.apply (a.apply row) = a.apply (b.apply row) := by
  cases a with
  | source s =>
    cases b with
    | source s' =>
      obtain rfl : s = s' := apart
      rfl
    | current => exact absurd apart id
  | current m =>
    cases b with
    | source s => exact absurd apart id
    | current n =>
      obtain rfl : m = n := apart
      rfl

end RegisterChange

/-- What one statement does. -/
inductive Change
  | none
  | catalog (change : CatalogChange)
  | playlist (name : Text) (change : PlaylistChange)
  | register (name : Text) (change : RegisterChange)
  | influence (pair : Text × Text)
  deriving DecidableEq

namespace Change

/-- Names that differ only in case are one playlist, which is spelt as it was when it was made. -/
def Apart : Change → Change → Prop
  | .catalog a, .catalog b => a.Apart b
  | .playlist m a, .playlist n b => fold m = fold n → m = n ∧ a.Apart b
  | .register m a, .register n b => m = n → a.Apart b
  | _, _ => True

end Change

namespace Library

/-- The library of a new file. -/
def empty : Library := ⟨0, fun _ => none, fun _ => none, ∅⟩

def apply (l : Library) : Change → Library
  | .none => l
  | .catalog change => { l with entries := change.apply l.entries }
  | .playlist name change =>
    { l with playlists := Function.update l.playlists (fold name) (change.apply name (l.playlists (fold name))) }
  | .register name change =>
    { l with register := Function.update l.register name (change.apply (l.register name)) }
  | .influence pair => { l with influences := insert pair l.influences }

/-- Two updates of one function, of one place or of two. -/
theorem update_update_comm {α β : Type*} [DecidableEq α] (f : α → β) {a b : α} {g h : β → β}
    (apart : a = b → h (g (f a)) = g (h (f a))) :
    Function.update (Function.update f a (g (f a))) b (h (Function.update f a (g (f a)) b)) =
      Function.update (Function.update f b (h (f b))) a (g (Function.update f b (h (f b)) a)) := by
  by_cases same : a = b
  · subst same
    rw [Function.update_self, Function.update_self, Function.update_idem, Function.update_idem, apart rfl]
  · rw [Function.update_of_ne (Ne.symm same), Function.update_of_ne same, Function.update_comm same]

/-- **Changes apart commute.** -/
theorem apply_comm {a b : Change} (apart : a.Apart b) (l : Library) :
    (l.apply a).apply b = (l.apply b).apply a := by
  cases a with
  | none => rfl
  | catalog a =>
    cases b with
    | catalog b => exact Library.ext (CatalogChange.apply_comm apart l.entries) rfl rfl rfl
    | none | playlist | register | influence => rfl
  | playlist m a =>
    cases b with
    | playlist n b =>
      refine Library.ext rfl (update_update_comm (h := b.apply n) l.playlists fun same => ?_) rfl rfl
      obtain ⟨rfl, changes⟩ := apart same
      exact PlaylistChange.apply_comm changes m _
    | none | catalog | register | influence => rfl
  | register m a =>
    cases b with
    | register n b =>
      refine Library.ext rfl rfl (update_update_comm (h := b.apply) l.register fun same => ?_) rfl
      exact RegisterChange.apply_comm (apart same) _
    | none | catalog | playlist | influence => rfl
  | influence p =>
    cases b with
    | influence q => exact Library.ext rfl rfl rfl (Finset.insert_comm q p l.influences)
    | none | catalog | playlist | register => rfl

end Library

end Sws
