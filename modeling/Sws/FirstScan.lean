import Sws.Startup
import Sws.Traversal

/-! The first scan, read too early. The monitor writes the flag after it has tested the size of the queue, and
the last statement of a scan can arrive in between. -/
namespace Sws

namespace Database.Monitor

variable {ι α : Type*} [DecidableEq ι]

/-- The monitor executes its queue up to the test after the last statement. -/
theorem reaches_tested (fails : Nat → α → Bool) (q : State ι α) (top : q.monitor = .top) (some_ : q.queries ≠ []) :
    ∃ r, (step fails).Reaches Action.own q r ∧ r.monitor = .tested true ∧ r.queries = [] ∧
      r.executed.map Prod.fst = q.executed.map Prod.fst ++ q.queries ∧ r.producers = q.producers := by
  obtain ⟨producers, monitor, queries, queueEmpty, order, executed⟩ := q
  cases top
  have advances (n : Nat) : ∀ a ∈ List.replicate n (Action.advance : Action ι α), a.own := by
    intro a member
    rw [List.eq_of_mem_replicate member]
    trivial
  induction queries generalizing queueEmpty executed with
  | nil => exact absurd rfl some_
  | cons x rest ih =>
    cases rest with
    | nil => exact ⟨_, ⟨List.replicate 6 .advance, advances 6, rfl⟩, rfl, rfl, by simp, rfl⟩
    | cons y rest =>
      obtain ⟨r, onwards, tested, empty, all, same⟩ := ih false (executed ++ [(x, !fails executed.length x)])
        (List.cons_ne_nil y rest)
      have first : (step fails).Reaches Action.own ⟨producers, .top, x :: y :: rest, queueEmpty, order, executed⟩
          ⟨producers, .top, y :: rest, false, order, executed ++ [(x, !fails executed.length x)]⟩ :=
        ⟨List.replicate 9 .advance, advances 9, rfl⟩
      exact ⟨r, first.trans onwards, tested, empty, by simpa using all, same⟩

end Database.Monitor

namespace Startup

open Database Sql
open Player (Playlist named)
open Views (Accepts pushed)

/-- What the scan works on, at this point of the constructor. -/
def scanned (w : Launch) (s : State) : Catalog.State :=
  { db := w.db, queries := [], catalog := s.dbCatalog.tracks, playlists := s.playlists }

/-- The statements that the scan has yet to push, which comes to its end; the path is in the catalog, or among
the entries to come. -/
def Scans (w : Launch) (p : Text) (s : State) (todo : List Text) : Prop :=
  ∃ entries texts, s.place = .scanning entries texts ∧ w.files.Completes entries ∧
    texts ++ (pushed w.files (scanned w s) entries).flatMap Call.texts = todo ∧
    (p ∈ s.dbCatalog.tracks ∨ p ∈ entries ∧ Accepts w.files p)

/-- The queue with more statements pushed. -/
def appended (q : Monitor.State Unit Text) (texts : List Text) : Monitor.State Unit Text :=
  { q with queries := q.queries ++ texts, order := q.order ++ texts, queueEmpty := q.queueEmpty && texts.isEmpty }

/-- No `push` is in progress, and the monitor neither holds the mutex nor waits. -/
structure Free (q : Monitor.State Unit Text) : Prop where
  outside : q.producers = fun _ => .outside
  unlocked : q.monitor.holds = false
  awake : q.monitor.notified = q.monitor

section Schedule

variable {w : Launch} {fails : Nat → Text → Bool} {s : State} {p q : Text} {todo first : List Text}

theorem appended_nil (r : Monitor.State Unit Text) : appended r [] = r := by
  simp [appended]

theorem appended_cons (r : Monitor.State Unit Text) : appended (appended r [q]) todo = appended r (q :: todo) := by
  simp [appended]

theorem Free.appended {r : Monitor.State Unit Text} (free : Free r) : Free (appended r todo) :=
  ⟨free.outside, free.unlocked, free.awake⟩

/-- What a scan pushes does not depend on the database. -/
theorem pushed_eq (files : Files) (db : Db) (queries : List Text) (c : Catalog.State) (entries : List Text) :
    pushed files { c with db := db, queries := queries } entries = pushed files c entries := by
  induction entries generalizing db queries c with
  | nil => rfl
  | cons path entries ih =>
    have entered := entered_apart files db queries c path
    have onwards (d : Db) (more : List Text) :
        pushed files { (Catalog.entered files c path).1 with db := d, queries := more } entries =
          pushed files (Catalog.entered files c path).1 entries := ih d more _
    rw [Views.pushed_cons, Views.pushed_cons, entered]
    exact congrArg _ ((onwards db _).trans (onwards _ _).symm)

/-- One entry of the scan. -/
theorem entry_reaches {path : Text} {entries : List Text} (outside : s.queue.producers () = .outside)
    (here : s.place = .scanning (path :: entries) []) (answers : w.files.Answers path)
    (pushes : (pushed w.files (scanned w s) (path :: entries)).flatMap Call.texts = todo)
    (due : p ∈ s.dbCatalog.tracks ∨ p ∈ path :: entries ∧ Accepts w.files p) :
    ∃ t texts, (step w fails).Reaches (fun _ => True) s t ∧ t.place = .scanning entries texts ∧
      texts ++ (pushed w.files (scanned w t) entries).flatMap Call.texts = todo ∧
      (p ∈ t.dbCatalog.tracks ∨ p ∈ entries ∧ Accepts w.files p) ∧ t.queue = s.queue ∧
      t.playlistTables = s.playlistTables := by
  have taken : step w fails s .player = some { s with
      playlists := (Catalog.entered w.files (scanned w s) path).1.playlists
      dbCatalog := { s.dbCatalog with tracks := (Catalog.entered w.files (scanned w s) path).1.catalog }
      place := .scanning entries ((Catalog.entered w.files (scanned w s) path).2.flatMap Call.texts) } := by
    have entered := Catalog.entry_eq w.files (scanned w s) path
    rw [if_pos answers] at entered
    simp only [scanned] at entered
    simp only [step, if_pos outside, advance, here, scanned, entered, Option.bind_eq_bind, Option.bind_some,
      Option.pure_def]
  refine ⟨_, _, .single trivial taken, rfl, ?_, ?_, rfl, rfl⟩
  · rw [← pushes, Views.pushed_cons, List.flatMap_append]
    have onwards := pushed_eq w.files w.db [] (Catalog.push (Catalog.entered w.files (scanned w s) path).1
      (Catalog.entered w.files (scanned w s) path).2) entries
    exact congrArg (fun calls => _ ++ List.flatMap Call.texts calls) onwards
  · have grows : p ∈ (Catalog.entered w.files (scanned w s) path).1.catalog ↔
        p ∈ s.dbCatalog.tracks ∨ Accepts w.files path ∧ path = p := Views.catalog_entered p
    rcases due with held | ⟨listed, accepts⟩
    · exact .inl (grows.mpr (.inl held))
    · rcases List.mem_cons.mp listed with rfl | later
      · exact .inl (grows.mpr (.inr ⟨accepts, rfl⟩))
      · exact .inr ⟨later, accepts⟩

/-- One statement of the scan is pushed. -/
theorem push_reaches {entries texts : List Text} (free : Free s.queue)
    (here : s.place = .scanning entries (q :: texts)) :
    (step w fails).Reaches (fun _ => True) s
      { s with queue := appended s.queue [q], place := .scanning entries texts } := by
  obtain ⟨⟨producers, monitor, queries, queueEmpty, order, executed⟩, place, names, playlists, catalog⟩ := s
  obtain ⟨rfl, unlocked, awake⟩ := free
  cases here
  refine ⟨[.player, .queue (.unempty ()), .queue (.notify ())], fun _ _ => trivial, ?_⟩
  have back (f : Unit → Monitor.PushAt) : Function.update f () .outside = fun _ => .outside := by
    funext u
    exact Function.update_self u _ _
  simp only at unlocked awake
  simp [Steps.run, step, advance, push, Monitor.step, Monitor.Action.arrivals, unlocked, awake, back, appended]

theorem scan_one (fails : Nat → Text → Bool) (free : Free s.queue) (scans : Scans w p s (q :: todo)) :
    ∃ t, (step w fails).Reaches (fun _ => True) s t ∧ Scans w p t todo ∧ t.queue = appended s.queue [q] ∧
      t.playlistTables = s.playlistTables := by
  obtain ⟨entries, texts, here, completes, pushes, due⟩ := scans
  induction entries generalizing s texts with
  | nil =>
    cases texts with
    | nil => cases pushes
    | cons first texts =>
      obtain ⟨rfl, rest⟩ := List.cons.inj pushes
      exact ⟨_, push_reaches free here, ⟨[], texts, rfl, completes, rest, due⟩, rfl, rfl⟩
  | cons path entries ih =>
    cases texts with
    | nil =>
      have outside : s.queue.producers () = .outside := by rw [free.outside]
      obtain ⟨answers, others⟩ := List.forall_mem_cons.mp completes
      obtain ⟨t, texts, first, place, pushes', due', same, tables⟩ := entry_reaches outside here answers pushes due
      obtain ⟨u, onwards, scans, queue, tables'⟩ := ih (by rw [same]; exact free) texts place others pushes' due'
      exact ⟨u, first.trans onwards, scans, by rw [queue, same], tables'.trans tables⟩
    | cons first texts =>
      obtain ⟨rfl, rest⟩ := List.cons.inj pushes
      exact ⟨_, push_reaches free here, ⟨path :: entries, texts, rfl, completes, rest, due⟩, rfl, rfl⟩

theorem scan_many (fails : Nat → Text → Bool) (free : Free s.queue) (scans : Scans w p s (first ++ todo)) :
    ∃ t, (step w fails).Reaches (fun _ => True) s t ∧ Scans w p t todo ∧ t.queue = appended s.queue first ∧
      t.playlistTables = s.playlistTables := by
  induction first generalizing s with
  | nil => exact ⟨s, .refl s, scans, (appended_nil s.queue).symm, rfl⟩
  | cons q first ih =>
    obtain ⟨t, one, scans', queue, tables⟩ := scan_one fails free scans
    obtain ⟨u, more, scans'', queue', tables'⟩ := ih (by rw [queue]; exact free.appended) scans'
    exact ⟨u, one.trans more, scans'', by rw [queue', queue, appended_cons], tables'.trans tables⟩

/-- A scan with nothing left to push comes to its end. -/
theorem scan_ends (fails : Nat → Text → Bool) (outside : s.queue.producers () = .outside) (scans : Scans w p s []) :
    ∃ t, (step w fails).Reaches (fun _ => True) s t ∧ t.place = .waiting ∧ p ∈ t.dbCatalog.tracks ∧ t.queue = s.queue ∧
      t.playlistTables = s.playlistTables := by
  obtain ⟨entries, texts, here, completes, pushes, due⟩ := scans
  induction entries generalizing s texts with
  | nil =>
    obtain ⟨rfl, -⟩ := List.append_eq_nil_iff.mp pushes
    have taken : step w fails s .player = some { s with place := .waiting } := by
      simp only [step, if_pos outside, advance, here]
    exact ⟨_, .single trivial taken, rfl, due.resolve_right fun listed => List.not_mem_nil listed.1, rfl, rfl⟩
  | cons path entries ih =>
    obtain ⟨rfl, -⟩ := List.append_eq_nil_iff.mp pushes
    obtain ⟨answers, others⟩ := List.forall_mem_cons.mp completes
    obtain ⟨t, texts, first, place, pushes', due', same, tables⟩ := entry_reaches outside here answers pushes due
    obtain ⟨u, onwards, waits, held, queue, tables'⟩ := ih (by rw [same]; exact outside) texts place others pushes' due'
    exact ⟨u, first.trans onwards, waits, held, queue.trans same, tables'.trans tables⟩

/-- The first two statements of the constructor are executed, the third one waits. -/
def twoExecuted (fails : Nat → Text → Bool) : State where
  queue :=
    { producers := fun _ => .outside
      monitor := .top
      queries := [createPlaylists]
      queueEmpty := false
      order := opening
      executed := [(createCatalog, !fails 0 createCatalog), (createInfluences, !fails 1 createInfluences)] }
  place := .asking
  playlistTables := []
  playlists := []
  dbCatalog := ⟨"", []⟩

theorem two_executed_reached : (step w fails).Reaches (fun _ => True) initial (twoExecuted fails) := by
  have reached : (step w fails).run initial (onePush ++ onePush ++ onePush ++ executes 2 ++ [.player]) =
      some (twoExecuted fails) := rfl
  exact ⟨_, fun _ _ => trivial, reached⟩

theorem file_two_executed (fails : Nat → Text → Bool) (new : w.db = .empty) (place : PlayerAt) (names : List Text)
    (playlists : List Playlist) :
    w.file { twoExecuted fails with place := place, playlistTables := names, playlists := playlists } =
      some (created 2) := by
  have all : (twoExecuted fails).queue.executed.map Prod.fst = opening.take 2 := by
    simp only [twoExecuted, opening, List.map_cons, List.map_nil, List.take_succ_cons, List.take_zero]
  have ran : execAll .empty ((twoExecuted fails).queue.executed.map Prod.fst) = some (created 2) := by
    rw [all]
    exact exec_opening .empty 2
  rw [Launch.file, new]
  exact ran

/-- The scan begins, on an empty catalog. -/
def begun (w : Launch) (fails : Nat → Text → Bool) : State :=
  { twoExecuted fails with
    playlistTables := ["db_catalog"]
    playlists := [⟨"db_catalog", []⟩]
    dbCatalog := ⟨"db_catalog", []⟩
    place := .scanning w.entries [] }

theorem begun_reached (fails : Nat → Text → Bool) (new : w.db = .empty) :
    (step w fails).Reaches (fun _ => True) initial (begun w fails) := by
  have asks : step w fails (twoExecuted fails) .player = _ :=
    step_asking rfl rfl (file_two_executed fails new .asking [] []) (tables_created w.scan 2 (by decide) (by decide))
      (List.cons_ne_nil _ _)
  have reads : step w fails { twoExecuted fails with
      place := .reading false ["db_catalog"], playlistTables := ["db_catalog"], playlists := [] } .player = _ :=
    step_reading rfl rfl (file_two_executed fails new (.reading false ["db_catalog"]) ["db_catalog"] [])
      (select_created w.scan 2 (by decide) (by decide))
  refine two_executed_reached.trans ⟨[.player, .player, .player, .player], fun _ _ => trivial, ?_⟩
  refine Steps.run_cons_iff.mpr ⟨_, asks, Steps.run_cons_iff.mpr ⟨_, reads, ?_⟩⟩
  rfl

/-- With the flag raised, the constructor reads its playlists again. -/
theorem rereads {db : Db} {paths : List Text} (outside : s.queue.producers () = .outside)
    (waits : s.place = .waiting) (raised : s.queue.queueEmpty = true) (tables : s.playlistTables = ["db_catalog"])
    (file : w.file s = some db) (read : selectPlaylist w.scan db "db_catalog" = some paths) :
    (step w fails).Reaches (fun _ => True) s { s with playlists := [⟨"db_catalog", paths⟩], place := .selecting } := by
  obtain ⟨queue, place, names, playlists, catalog⟩ := s
  cases waits
  cases tables
  have goes : step w fails ⟨queue, .waiting, ["db_catalog"], playlists, catalog⟩ .player =
      some ⟨queue, .reading true ["db_catalog"], ["db_catalog"], [], catalog⟩ := by
    have flag : queue.queueEmpty = true := raised
    simp only [step, if_pos outside, advance, flag, if_true]
  have reads : step w fails ⟨queue, .reading true ["db_catalog"], ["db_catalog"], [], catalog⟩ .player =
      some ⟨queue, .reading true [], ["db_catalog"], [⟨"db_catalog", paths⟩], catalog⟩ :=
    step_reading outside rfl file read
  have chooses : step w fails ⟨queue, .reading true [], ["db_catalog"], [⟨"db_catalog", paths⟩], catalog⟩ .player =
      some ⟨queue, .selecting, ["db_catalog"], [⟨"db_catalog", paths⟩], catalog⟩ := by
    simp only [step, if_pos outside, advance, if_true]
  exact (Steps.Reaches.single trivial goes).trans ((Steps.Reaches.single trivial reads).trans (.single trivial chooses))

/-- The last statement of a scan is pushed between the monitor's test and its write: the flag is raised over it. -/
theorem last_overtaken (fails : Nat → Text → Bool) (free : Free s.queue) (top : s.queue.monitor = .top)
    (some_ : s.queue.queries ≠ []) (scans : Scans w p s [q]) :
    ∃ t, (step w fails).Reaches (fun _ => True) s t ∧ t.place = .waiting ∧ p ∈ t.dbCatalog.tracks ∧
      t.playlistTables = s.playlistTables ∧ t.queue.producers () = .outside ∧ t.queue.queueEmpty = true ∧
      t.queue.executed.map Prod.fst = s.queue.executed.map Prod.fst ++ s.queue.queries := by
  obtain ⟨r, drains, tested, -, executed, producers⟩ := Monitor.reaches_tested fails s.queue top some_
  have ready : Free r := ⟨producers.trans free.outside, by rw [tested]; rfl, by rw [tested]; rfl⟩
  obtain ⟨t, one, scans, pushed, tables⟩ := scan_one (s := { s with queue := r }) fails ready scans
  have outside : t.queue.producers () = .outside := by
    rw [pushed]
    exact congrFun ready.outside ()
  obtain ⟨u, ends, waits, known, same, tables'⟩ := scan_ends fails outside scans
  have queue : u.queue = appended r [q] := same.trans pushed
  have raises : step w fails u (.queue .advance) = some { u with
      queue := { appended r [q] with monitor := .relocking, queueEmpty := true } } := by
    have place : (appended r [q]).monitor = .tested true := tested
    simp only [step, queue, Monitor.Action.arrivals, if_true, Monitor.step, Monitor.advance, place, Option.map_some]
  have whole := (reaches_queue drains).trans (one.trans (ends.trans (.single trivial raises)))
  exact ⟨_, whole, waits, known, tables'.trans tables, congrFun ready.outside (), rfl, executed⟩

/-- The catalog of the file that is read before the last insertion. -/
theorem missed {v : Views.Visit} {c : Catalog.State} {before : List Call} (unclosed : v.Unclosed)
    (once : c.catalog.Nodup) (last : pushed v.files c v.entries = before ++ [.insertPath p]) :
    ∃ (db : Db) (held : List Text), execAll (created 3) (before.flatMap Call.texts) = some db ∧
      Catalog.Holds db (held.map Value.text) ∧ p ∉ held := by
  have plain (call : Call) (held : call ∈ before) : call.Plain :=
    Views.plain_pushed unclosed call (last ▸ List.mem_append_left _ held)
  have shaped : Shaped (created 3) := by
    intro t held
    have own : t ∈ ownTables := held
    simp only [ownTables, List.mem_cons, List.not_mem_nil, or_false] at own
    rcases own with rfl | rfl | rfl
    · exact ⟨.catalog, rfl, rfl⟩
    · exact ⟨.influences, rfl, rfl⟩
    · exact ⟨.register, rfl, rfl⟩
  have empty : Catalog.Holds (created 3) [] := ⟨emptyCatalog, rfl, ⟨rfl, rfl⟩, rfl⟩
  obtain ⟨db, ran, holds⟩ := Views.holds_exec_all (known_texts plain) shaped empty
  refine ⟨db, _, ran, holds, fun inside => ?_⟩
  obtain ⟨text, member, inserts⟩ := List.mem_filterMap.mp inside
  obtain ⟨call, held, own⟩ := List.mem_flatMap.mp member
  have other (song : Song) : call ≠ .insertTrack song := by
    rintro rfl
    have pushes : Call.insertTrack song ∈ pushed v.files c v.entries := last ▸ List.mem_append_left _ held
    rcases Views.calls_pushed pushes with ⟨_, _, _, same⟩ | ⟨_, _, same⟩ | ⟨_, _, _, _, same⟩ <;> cases same
  obtain ⟨rfl, -⟩ := (Views.inserted_texts (plain call held) other).mp ⟨text, own, inserts⟩
  -- A scan inserts no path twice.
  have distinct : (c.catalog ++ Distinct.added id c.catalog (v.entries.filter (Accepts v.files))).Nodup := by
    rw [← Distinct.foldl_eq_append]
    have kept : (((v.entries.filter (Accepts v.files)).foldl (Distinct.extend id) c.catalog).map id).Nodup :=
      Distinct.nodup_foldl (by rwa [List.map_id])
    rwa [List.map_id] at kept
  have twice := (List.nodup_append.mp distinct).2.1
  rw [← Traversal.insertions_pushed, last, List.filterMap_append] at twice
  exact (List.nodup_append.mp twice).2.2 p (List.mem_filterMap.mpr ⟨_, held, rfl⟩) p (by simp [Traversal.insertion]) rfl

/-- **A first scan can be read too early.** Whatever library a new file is made for: where the scan comes to its
end and its last statement inserts a track, there is a schedule in which the constructor comes to choose among
playlists without that track, though its catalog has it. -/
theorem first_scan_misses {before : List Call} (new : w.db = .empty)
    (unclosed : (⟨w.files, w.entries⟩ : Views.Visit).Unclosed) (completes : w.files.Completes w.entries)
    (last : pushed w.files { db := w.db, queries := [], catalog := [], playlists := [⟨"db_catalog", []⟩] } w.entries =
      before ++ [.insertPath p]) :
    ∃ s, (step w fails).Reaches (fun _ => True) initial s ∧ s.place = .selecting ∧ p ∈ s.dbCatalog.tracks ∧
      ∀ playlist ∈ s.playlists, p ∉ playlist.tracks := by
  obtain ⟨db, held, ran, holds, absent⟩ := missed (v := ⟨w.files, w.entries⟩) unclosed List.nodup_nil last
  obtain ⟨paths, read, members⟩ := Views.select_catalog w.scan holds
  have listed : p ∈ w.entries ∧ Accepts w.files p := by
    have member : Call.insertPath p ∈ pushed w.files
        { db := w.db, queries := [], catalog := [], playlists := [⟨"db_catalog", []⟩] } w.entries := by simp [last]
    rcases Views.calls_pushed member with ⟨_, _, _, same⟩ | ⟨_, _, same⟩ | ⟨path, entry, accepts, -, same⟩
    · cases same
    · cases same
    · cases same
      exact ⟨entry, accepts⟩
  have scans : Scans w p (begun w fails) (before.flatMap Call.texts ++ [insertPath p]) := by
    refine ⟨w.entries, [], rfl, completes, ?_, .inr listed⟩
    refine (congrArg (List.flatMap Call.texts) last).trans ?_
    simp [Call.texts]
  -- Every statement but the last one is pushed, and executed before the last one arrives.
  obtain ⟨t, many, scans, queue, tables⟩ := scan_many fails ⟨rfl, rfl, rfl⟩ scans
  have free : Free t.queue := by
    rw [queue]
    exact ⟨rfl, rfl, rfl⟩
  obtain ⟨u, onwards, waits, known, tables', outside, raised, executed⟩ :=
    last_overtaken fails free (by rw [queue]; rfl) (by rw [queue]; exact List.cons_ne_nil _ _) scans
  have file : w.file u = some db := by
    have all : u.queue.executed.map Prod.fst = opening ++ before.flatMap Call.texts := by
      rw [executed, queue]
      simp only [begun, twoExecuted, appended, opening, List.map_cons, List.map_nil, List.cons_append, List.nil_append]
    have opened : execAll .empty opening = some (created 3) := exec_opening .empty 3
    rw [Launch.file, all, exec_all_append, new, opened, Option.bind_some, ran]
  have whole := (begun_reached fails new).trans (many.trans
    (onwards.trans (rereads outside waits raised (tables'.trans tables) file read)))
  refine ⟨_, whole, rfl, known, fun playlist member => ?_⟩
  obtain rfl := List.mem_singleton.mp member
  exact fun inside => absent ((members p).mp inside)

/-- A library of one track. -/
theorem one_track_missed : ∃ s,
    (step { firstLaunch with entries := ["a.mp3"] } fun _ _ => false).Reaches (fun _ => True) initial s ∧
      s.place = .selecting ∧ text "a.mp3" ∈ s.dbCatalog.tracks ∧
      ∀ playlist ∈ s.playlists, text "a.mp3" ∉ playlist.tracks := by
  have unclosed : (⟨Resume.library, ["a.mp3"]⟩ : Views.Visit).Unclosed := by
    intro path entry lists
    cases List.mem_singleton.mp entry
    cases lists.2
  have last : pushed Resume.library
      { db := .empty, queries := [], catalog := [], playlists := [⟨"db_catalog", []⟩] } ["a.mp3"] =
        [] ++ [Call.insertPath "a.mp3"] := by
    decide
  exact first_scan_misses (w := { firstLaunch with entries := ["a.mp3"] }) rfl unclosed (by decide) last

end Schedule

end Startup

end Sws
