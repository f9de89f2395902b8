import Sws.Database.Monitor
import Sws.Requests
import Sws.Schedules

/-! The database from end to end: threads push the statements of their requests through the queue, the
monitor executes them, and the file stands for a library. -/
namespace Sws

open Database Import Pairing Schedule Sql

variable {ι : Type*} [DecidableEq ι] {db : Db} {l : Library} {requests : ι → List Request}

/-- No request of one thread shows what one of another thread does. -/
def Independent (requests : ι → List Request) : Prop :=
  ∀ i j, i ≠ j → ∀ a ∈ (requests i).flatMap Request.changes, ∀ b ∈ (requests j).flatMap Request.changes, a.Apart b

/-- The library after one thread after another has done so many of its changes. -/
def serially (threads : List ι) (requests : ι → List Request) (done : ι → Nat) (l : Library) : Library :=
  (threads.flatMap fun i => ((requests i).flatMap Request.changes).take (done i)).foldl Library.apply l

/-- Statements of independent threads, taken in whatever order, do what the threads do one after another. -/
theorem schedule_serially {threads : List ι} {schedule : List (ι × Text)} (once : threads.Nodup)
    (all : ∀ i, i ∉ threads → requests i = []) (plain : ∀ i, ∀ r ∈ requests i, r.Plain)
    (independent : Independent requests) (holds : Represents db l)
    (pushing : ∀ i, ofThread schedule i <+: (requests i).flatMap Request.texts) :
    ∃ after, execAll db (schedule.map (·.2)) = some after ∧
      Represents after (serially threads requests (fun i => (ofThread schedule i).length) l) := by
  have mean (i : ι) : List.Forall₂ Means (ofThread schedule i)
      (((requests i).flatMap Request.changes).take (ofThread schedule i).length) := by
    have begun := List.forall₂_take (ofThread schedule i).length (requests_mean (plain i))
    rwa [← List.prefix_iff_eq_take.mp (pushing i)] at begun
  obtain ⟨listed, threads_do, aligned⟩ := exists_aligned mean
  obtain ⟨after, ran, now⟩ := exec_all_means aligned holds
  refine ⟨after, ran, ?_⟩
  have idle (i : ι) (absent : i ∉ threads) :
      ((requests i).flatMap Request.changes).take (ofThread schedule i).length = [] := by
    rw [all i absent]
    exact List.take_nil
  have same : (listed.map (·.2)).foldl Library.apply l =
      serially threads requests (fun i => (ofThread schedule i).length) l := by
    rw [serially, ← serial_actions]
    refine foldl_eq_of_threads (fun i => by rw [threads_do, of_thread_serial once idle]) ?_ l
    rintro ⟨i, a⟩ inside ⟨j, b⟩ inside' other s
    rw [← mem_of_thread, threads_do] at inside inside'
    exact Library.apply_comm (independent i j other a (List.mem_of_mem_take inside) b (List.mem_of_mem_take inside')) s
  exact same ▸ now

/-- **As if one after another.** However threads with independent requests interleave in the queue and
with the monitor: at any moment the file holds what some of each thread's first statements make of the
library, as if the threads had taken turns; and the monitor alone can bring it to all that was pushed. -/
theorem interleavings_serializable {fails : Nat → Text → Bool} {actions : List (Monitor.Action ι Text)}
    {s : Monitor.State ι Text} {threads : List ι} (once : threads.Nodup) (all : ∀ i, i ∉ threads → requests i = [])
    (plain : ∀ i, ∀ r ∈ requests i, r.Plain) (independent : Independent requests) (holds : Represents db l)
    (reached : (Monitor.step fails).run Monitor.initial actions = some s)
    (pushing : ∀ i, ofThread (Monitor.pushes actions) i <+: (requests i).flatMap Request.texts) :
    (∃ done after, (∀ i, done i ≤ (ofThread (Monitor.pushes actions) i).length) ∧
      execAll db (s.executed.map Prod.fst) = some after ∧ Represents after (serially threads requests done l)) ∧
    ∃ t after, (Monitor.step fails).Reaches Monitor.Action.own s t ∧ execAll db (t.executed.map Prod.fst) = some after ∧
      Represents after (serially threads requests (fun i => (ofThread (Monitor.pushes actions) i).length) l) := by
  constructor
  · have part (i : ι) :
        ofThread ((Monitor.pushes actions).take s.executed.length) i <+: ofThread (Monitor.pushes actions) i :=
      of_thread_take_prefix _
    obtain ⟨after, ran, now⟩ := schedule_serially once all plain independent holds fun i => (part i).trans (pushing i)
    exact ⟨_, after, fun i => (part i).length_le, Monitor.executed_run reached ▸ ran, now⟩
  · obtain ⟨t, onwards, same, drained⟩ := Monitor.reaches_drained fails s
    have ordered : Monitor.Ordered t := onwards.preserved
      (fun u a v held _ taken => Monitor.ordered_step u a v held taken) (Monitor.ordered_run reached)
    have done : t.executed.map Prod.fst = (Monitor.pushes actions).map (·.2) :=
      calc t.executed.map Prod.fst
        _ = t.account.contents := (Fifo.contents_of_idle (f := t.account) drained.2 drained.1).symm
        _ = s.order := ordered.trans same
        _ = (Monitor.pushes actions).map (·.2) := Monitor.order_run reached
    obtain ⟨after, ran, now⟩ := schedule_serially once all plain independent holds pushing
    exact ⟨t, after, onwards, done ▸ ran, now⟩

/-- A playlist filled by one thread while another inserts a path. -/
def twoThreads (i : Bool) : List Request := cond i [.addPaths "Mix" ["a.mp3"]] [.insertPath "b.mp3"]

/-- The first statement of the playlist has been executed and the path is still in the queue. -/
def twoPushes : List (Monitor.Action Bool Text) :=
  [.push true (text "CREATE TABLE IF NOT EXISTS [Mix] (path TEXT PRIMARY KEY);"), .advance, .advance, .advance,
    .advance, .push false (text "INSERT INTO db_catalog (path) VALUES('b.mp3');"), .advance, .unempty true,
    .notify true]

theorem two_threads_serializable : ∃ (s t : Monitor.State Bool Text) (after : Db),
    (Monitor.step fun _ _ => false).run Monitor.initial twoPushes = some s ∧
    (Monitor.step fun _ _ => false).Reaches Monitor.Action.own s t ∧
    execAll (created 3) (t.executed.map Prod.fst) = some after ∧
    Represents after
      (serially [true, false] twoThreads (fun i => (ofThread (Monitor.pushes twoPushes) i).length) .empty) := by
  have plain : ∀ i, ∀ r ∈ twoThreads i, r.Plain := by
    have mix : Ordinary "Mix" := ⟨by decide, by decide, by decide⟩
    intro i
    cases i with
    | true => exact List.forall_mem_singleton.mpr mix
    | false => exact List.forall_mem_singleton.mpr trivial
  have playlist : ∀ c ∈ (twoThreads true).flatMap Request.changes, ∃ change, c = .playlist "Mix" change := by
    simp [twoThreads, Request.changes, Request.whole, show nul ∉ text "a.mp3" by decide]
  have catalog : ∀ c ∈ (twoThreads false).flatMap Request.changes, ∃ change, c = .catalog change := by
    simp [twoThreads, Request.changes, Request.whole, show nul ∉ text "b.mp3" by decide]
  have independent : Independent twoThreads := by
    intro i j other a inside b inside'
    cases i <;> cases j
    · exact absurd rfl other
    · obtain ⟨-, rfl⟩ := catalog a inside
      obtain ⟨-, rfl⟩ := playlist b inside'
      trivial
    · obtain ⟨-, rfl⟩ := playlist a inside
      obtain ⟨-, rfl⟩ := catalog b inside'
      trivial
    · exact absurd rfl other
  have idle : ∀ i, i ∉ [true, false] → twoThreads i = [] := by
    intro i absent
    cases i <;> simp at absent
  have pushing : ∀ i, ofThread (Monitor.pushes twoPushes) i <+: (twoThreads i).flatMap Request.texts := by
    intro i
    cases i <;> decide
  obtain ⟨s, reached⟩ : ∃ s, (Monitor.step fun _ _ => false).run Monitor.initial twoPushes = some s := ⟨_, rfl⟩
  obtain ⟨-, t, after, onwards, ran, now⟩ :=
    interleavings_serializable (by decide) idle plain independent created_represents reached pushing
  exact ⟨s, t, after, reached, onwards, ran, now⟩

end Sws
