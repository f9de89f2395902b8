import Sws.Database.Draining
import Sws.Database.Playlists

/-! Which tables `tables` lists after a queue of statements: declarations add names, and nothing the
program pushes renames a table. -/
namespace Sws.Database

open Sql

/-- The name that a statement declares a table of. -/
def createdBy : Stmt → Option Text
  | .createTable _ name _ _ => some name
  | _ => none

/-- The same for a text; one that SQLite rejects declares nothing. -/
def created (q : Text) : Option Text := (single? q).bind createdBy

/-- A declaration under this name would add a table that `tables` lists. -/
structure Opens (db : Db) (name : Text) : Prop where
  shown : name.head? ≠ some '_'
  own : (text "sqlite_").isPrefixOf (fold name) = false
  free : db.lookup name = none

variable {db after : Db} {stmt : Stmt} {q n name : Text}

theorem created_eq (denotes : Denotes q stmt) : created q = if nul ∈ q then none else createdBy stmt := by
  unfold created
  rw [denotes.single_eq]
  split <;> rfl

/-! ### Names -/

/-- A table with new rows keeps its name. -/
theorem names_put {t u : Table} (found : db.lookup name = some t) (same : u.name = t.name) :
    (db.put u).tables.map (·.name) = db.tables.map (·.name) := by
  have each : ∀ v ∈ db.tables, (if fold v.name = fold u.name then u else v).name = v.name := by
    intro v held
    split
    next alike =>
      rw [same] at alike
      have own : db.lookup v.name = some t := (Db.lookup_congr alike).trans
        ((Db.lookup_congr (Db.fold_name_of_lookup found)).trans found)
      have itself : db.lookup v.name = some v := Db.lookup_of_mem held rfl
      cases own.symm.trans itself
      exact same
    next => rfl
  simp only [Db.put, List.map_map]
  exact List.map_congr_left each

theorem lookup_isSome_iff : (db.lookup name).isSome ↔ ∃ n ∈ db.tables.map (·.name), fold n = fold name := by
  cases found : db.lookup name with
  | none =>
    have absent := Db.lookup_eq_none_iff.mp found
    simpa using absent
  | some t =>
    have held := List.mem_map_of_mem (f := (·.name)) (Db.mem_of_lookup found)
    exact ⟨fun _ => ⟨t.name, held, Db.fold_name_of_lookup found⟩, fun _ => rfl⟩

theorem shape_distinct (shape : Shape) : (shape.columns.map fun d => fold d.name).Nodup := by
  cases shape <;> decide

theorem shape_keyed (shape : Shape) (name : Text) :
    (shape.key.any fun c => ((⟨name, shape.columns, shape.key, []⟩ : Table).index? c).isNone) = false := by
  cases shape <;> rfl

/-- A declaration of one of the program's tables adds its name where that is free. -/
theorem names_create {ok : Bool} {shape : Shape}
    (ran : outcome db (execute db (.createTable true name shape.columns shape.key)) = some (after, ok)) :
    after.tables.map (·.name) = db.tables.map (·.name) ++
      [name].filter fun n => (text "sqlite_").isPrefixOf (fold n) = false ∧ db.lookup n = none := by
  by_cases own : (text "sqlite_").isPrefixOf (fold name) = true
  · have refused : execute db (.createTable true name shape.columns shape.key) = .error .rejected := by
      rw [execute, createTable, if_pos own]
    rw [refused] at ran
    cases ran
    simp [own]
  · have allowed : (text "sqlite_").isPrefixOf (fold name) = false := Bool.eq_false_iff.mpr own
    cases found : db.lookup name with
    | some t =>
      have there : execute db (.createTable true name shape.columns shape.key) = .ok db := by
        rw [execute, createTable, if_neg own, found]
        rfl
      rw [there] at ran
      cases ran
      simp [found]
    | none =>
      have made : execute db (.createTable true name shape.columns shape.key) =
          .ok (db.create ⟨name, shape.columns, shape.key, []⟩) :=
        create_eq (t := ⟨name, shape.columns, shape.key, []⟩) found allowed (shape_distinct shape)
          (shape_keyed shape name)
      rw [made] at ran
      cases ran
      have grown : (db.create ⟨name, shape.columns, shape.key, []⟩).tables =
          db.tables ++ [⟨name, shape.columns, shape.key, []⟩] := Db.tables_create found
      rw [grown]
      simp [allowed, found]

/-- What a statement does to the names: a declaration under a free name adds it, and nothing else does. -/
theorem names_outcome {ok : Bool} (known : Known stmt) (ran : outcome db (execute db stmt) = some (after, ok)) :
    after.tables.map (·.name) = db.tables.map (·.name) ++
      (createdBy stmt).toList.filter fun n =>
        (text "sqlite_").isPrefixOf (fold n) = false ∧ db.lookup n = none := by
  have kept (quiet : createdBy stmt = none)
      (puts : ∀ a, execute db stmt = .ok a → ∃ m t u, db.lookup m = some t ∧ u.name = t.name ∧ a = db.put u) :
      after.tables.map (·.name) = db.tables.map (·.name) ++
        (createdBy stmt).toList.filter fun n =>
          (text "sqlite_").isPrefixOf (fold n) = false ∧ db.lookup n = none := by
    rw [quiet, Option.toList_none, List.filter_nil, List.append_nil]
    rcases outcome_eq_some_iff.mp ran with ⟨-, done⟩ | ⟨-, -, rfl⟩
    · obtain ⟨m, t, u, found, same, rfl⟩ := puts after done
      exact names_put found same
    · rfl
  have inserts {replace : Bool} {table : Text} {columns : Option (List Text)} {rows : List (List Value)}
      (a : Db) (done : execute db (.insert replace table columns rows) = .ok a) :
      ∃ m t u, db.lookup m = some t ∧ u.name = t.name ∧ a = db.put u := by
    obtain ⟨t, u, -, found, -, -, same, rfl⟩ := insert_ok done
    exact ⟨table, t, u, found, same.name, rfl⟩
  have updates {table : Text} {sets : List (Text × Value)} {filter : List Condition} (a : Db)
      (done : execute db (.update table sets filter) = .ok a) :
      ∃ m t u, db.lookup m = some t ∧ u.name = t.name ∧ a = db.put u := by
    obtain ⟨t, rows, found, -, -, -, rfl⟩ := update_ok done
    exact ⟨table, t, { t with rows := rows }, found, rfl, rfl⟩
  cases known with
  | create name shape =>
    rw [names_create ran]
    rfl
  | fillPlaylist | insertPath | insertTrack | insertPlaylist => exact kept rfl inserts
  | updateDuration | setPlaylistCurrent => exact kept rfl updates

theorem names_exec {ok : Bool} (denotes : Denotes q stmt) (known : Known stmt)
    (ran : exec db q = some (after, ok)) :
    after.tables.map (·.name) = db.tables.map (·.name) ++
      (created q).toList.filter fun n =>
        (text "sqlite_").isPrefixOf (fold n) = false ∧ db.lookup n = none := by
  rw [denotes.exec_eq] at ran
  rw [created_eq denotes]
  split at ran
  next cut =>
    cases ran
    rw [if_pos cut, Option.toList_none, List.filter_nil, List.append_nil]
  next whole =>
    rw [if_neg whole]
    exact names_outcome known ran

/-- Of the calls, only `add_to_playlist` with some paths declares a table. -/
theorem created_texts {c : Call} (plain : c.Plain) :
    (∃ q ∈ c.texts, created q = some n) ↔ ∃ paths, c = .addToPlaylist n paths ∧ paths ≠ [] ∧ nul ∉ n := by
  have shape (name path : Text) (paths : List Text) :
      (Call.addToPlaylist name (path :: paths)).texts = [creation.text name,
        (replacements (path :: paths) (List.cons_ne_nil _ _)).text name] :=
    (NamedCall.addPaths (path :: paths)).texts_eq name
  constructor
  · rintro ⟨q, held, read⟩
    obtain ⟨s, listed, denotes⟩ := Call.text_denotes plain q held
    rw [created_eq denotes] at read
    split at read
    · cases read
    next whole =>
      cases c with
      | addToPlaylist name paths =>
        cases paths with
        | nil => cases listed
        | cons path paths =>
          -- Both texts of the call hold the name.
          have clean : nul ∉ name := by
            intro bad
            apply whole
            rw [shape] at held
            rcases List.mem_pair.mp held with rfl | rfl <;> simp [Bracketed.text, bad]
          rcases List.mem_pair.mp listed with rfl | rfl
          · cases read
            exact ⟨path :: paths, rfl, List.cons_ne_nil _ _, clean⟩
          · cases read
      | _ =>
        cases List.mem_singleton.mp listed
        cases read
  · rintro ⟨paths, rfl, some_, clean⟩
    obtain ⟨path, paths, rfl⟩ := List.exists_cons_of_ne_nil some_
    have tail : nul ∉ creation.tail := clean_text rfl
    have whole : nul ∉ creation.text n := by simp [Bracketed.text, creation.clean, clean, tail]
    refine ⟨creation.text n, by rw [shape]; exact List.mem_cons_self, ?_⟩
    rw [created_eq (create_playlist_denotes (plain some_)), if_neg whole]
    rfl

/-! ### What is listed -/

theorem mem_shown_iff : n ∈ shownTables db ↔ n.head? ≠ some '_' ∧ n ∈ db.tables.map (·.name) := by
  rw [mem_shown_tables, List.mem_map]

/-- A listed table is looked up by its name. -/
theorem lookup_of_shown (shown : n ∈ shownTables db) : (db.lookup n).isSome :=
  lookup_isSome_iff.mpr ⟨n, (mem_shown_iff.mp shown).2, rfl⟩

/-- Names that agree but for their case begin with an underscore together. -/
theorem head_congr (same : fold n = fold name) : n.head? = some '_' ↔ name.head? = some '_' := by
  have begins (m : Text) : m.head? = some '_' ↔ (fold m).head? = some '_' := by
    cases m with
    | nil => simp
    | cons c m =>
      simp only [fold_cons, List.head?_cons, Option.some.injEq]
      constructor
      · rintro rfl
        decide
      · exact to_lower_eq (by decide)
  rw [begins n, begins name, same]

/-- One text: what `tables` lists stays, exactly when it declares no table of a new name. -/
theorem shown_exec {ok : Bool} (denotes : Denotes q stmt) (known : Known stmt)
    (ran : exec db q = some (after, ok)) :
    n ∈ shownTables after ↔ n ∈ shownTables db ∨ (created q = some n ∧ Opens db n) := by
  rw [mem_shown_iff, mem_shown_iff, names_exec denotes known ran, List.mem_append, List.mem_filter,
    Option.mem_toList, decide_eq_true_iff, and_or_left]
  refine or_congr_right ?_
  constructor
  · rintro ⟨shown, read, own, free⟩
    exact ⟨read, shown, own, free⟩
  · rintro ⟨read, shown, own, free⟩
    exact ⟨shown, read, own, free⟩

/-- A queue takes no table off the list. -/
theorem shown_grows {texts : List Text} (known : ∀ q ∈ texts, ∃ stmt, Denotes q stmt ∧ Known stmt)
    (ran : execAll db texts = some after) (shown : n ∈ shownTables db) : n ∈ shownTables after := by
  refine exec_all_preserves (P := fun db => n ∈ shownTables db) (fun q member before next ok executed there => ?_)
    ran shown
  obtain ⟨stmt, denotes, kind⟩ := known q member
  exact (shown_exec denotes kind executed).mpr (.inl there)

/-- Where the same tables are listed, the same names are new. -/
theorem opens_congr {middle : Db} (same : ∀ n, n ∈ shownTables middle ↔ n ∈ shownTables db) :
    Opens middle n ↔ Opens db n := by
  have there (shown : n.head? ≠ some '_') : (middle.lookup n).isSome ↔ (db.lookup n).isSome := by
    rw [lookup_isSome_iff, lookup_isSome_iff]
    refine exists_congr fun m => and_congr_left fun alike => ?_
    have open_ : m.head? ≠ some '_' := mt (head_congr alike).mp shown
    have listed := same m
    rw [mem_shown_iff, mem_shown_iff, and_iff_right open_, and_iff_right open_] at listed
    exact listed
  constructor
  · rintro ⟨shown, own, free⟩
    refine ⟨shown, own, ?_⟩
    rw [← Option.not_isSome_iff_eq_none, ← there shown, Option.not_isSome_iff_eq_none]
    exact free
  · rintro ⟨shown, own, free⟩
    refine ⟨shown, own, ?_⟩
    rw [← Option.not_isSome_iff_eq_none, there shown, Option.not_isSome_iff_eq_none]
    exact free

/-- **What `tables` lists stays the same over a queue exactly when no text of it declares a new table.** -/
theorem shown_exec_all {texts : List Text} (known : ∀ q ∈ texts, ∃ stmt, Denotes q stmt ∧ Known stmt)
    (ran : execAll db texts = some after) :
    (∀ n, n ∈ shownTables after ↔ n ∈ shownTables db) ↔
      ∀ q ∈ texts, ∀ n, created q = some n → ¬ Opens db n := by
  induction texts generalizing db with
  | nil =>
    cases ran
    simp
  | cons q rest ih =>
    obtain ⟨⟨stmt, denotes, kind⟩, others⟩ := List.forall_mem_cons.mp known
    obtain ⟨⟨middle, ok⟩, first, onwards⟩ := Option.bind_eq_some_iff.mp ran
    have step (n : Text) := shown_exec (n := n) denotes kind first
    have later := ih others onwards
    rw [List.forall_mem_cons]
    constructor
    · intro same
      have kept : ∀ n, n ∈ shownTables middle ↔ n ∈ shownTables db := fun n =>
        ⟨fun held => (same n).mp (shown_grows others onwards held), fun held => (step n).mpr (.inl held)⟩
      refine ⟨fun n read free => ?_, fun r member n read free => ?_⟩
      · have shown := (kept n).mp ((step n).mpr (.inr ⟨read, free⟩))
        have some_ := lookup_of_shown shown
        rw [free.free] at some_
        cases some_
      · exact later.mp (fun n => (same n).trans (kept n).symm) r member n read ((opens_congr kept).mpr free)
    · rintro ⟨now, rest⟩ n
      have kept : ∀ n, n ∈ shownTables middle ↔ n ∈ shownTables db := fun n =>
        (step n).trans (or_iff_left fun ⟨read, free⟩ => now n read free)
      have onward := later.mpr fun r member n read free => rest r member n read ((opens_congr kept).mp free)
      exact (onward n).trans (kept n)

end Sws.Database
