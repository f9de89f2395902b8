import Sws.Sql.Running
import Sws.Transition

/-! Executing a queue of statements, whole or one at a time. -/
namespace Sws.Database

open Sql

/-- The statements of a queue, in order. -/
def execAll : Db → List Text → Option Db
  | db, [] => some db
  | db, q :: rest => (exec db q).bind fun r => execAll r.1 rest

theorem exec_all_append {first second : List Text} (db : Db) :
    execAll db (first ++ second) = (execAll db first).bind fun middle => execAll middle second := by
  induction first generalizing db with
  | nil => rfl
  | cons q first ih =>
    rw [List.cons_append, execAll, execAll, Option.bind_assoc]
    exact Option.bind_congr fun r _ => ih r.1

theorem exec_all_cons {db middle after : Db} {q : Text} {rest : List Text} {ok : Bool}
    (first : exec db q = some (middle, ok)) (onwards : execAll middle rest = some after) :
    execAll db (q :: rest) = some after := by
  rw [execAll, first]
  exact onwards

/-- What every statement of a queue preserves, the queue preserves. -/
theorem exec_all_preserves {P : Db → Prop} {queue : List Text} {db after : Db}
    (each : ∀ q ∈ queue, ∀ before next ok, exec before q = some (next, ok) → P before → P next)
    (ran : execAll db queue = some after) (holds : P db) : P after := by
  induction queue generalizing db with
  | nil =>
    cases ran
    exact holds
  | cons q rest ih =>
    obtain ⟨first, others⟩ := List.forall_mem_cons.mp each
    obtain ⟨⟨middle, ok⟩, executed, onwards⟩ := Option.bind_eq_some_iff.mp ran
    exact ih others onwards (first db middle ok executed holds)

section Monitor

variable {σ α : Type*} {step : Steps σ α} {drains : α → Prop} {database : σ → Db} {queue : σ → List Text}

/-- What a run of the monitor has executed is the front of the queue. -/
theorem exec_all_of_drained
    (each : ∀ s a t, drains a → step s a = some t → ∃ q ok, queue s = q :: queue t ∧
      exec (database s) q = some (database t, ok)) {s t : σ} (reached : step.Reaches drains s t) :
    ∃ done, queue s = done ++ queue t ∧ execAll (database s) done = some (database t) := by
  obtain ⟨actions, kind, ran⟩ := reached
  induction actions generalizing s with
  | nil =>
    cases ran
    exact ⟨[], rfl, rfl⟩
  | cons a actions ih =>
    obtain ⟨middle, taken, rest⟩ := Steps.run_cons_iff.mp ran
    obtain ⟨q, ok, front, executed⟩ := each s a middle (kind a List.mem_cons_self) taken
    obtain ⟨done, queued, onwards⟩ := ih (fun b member => kind b (List.mem_cons_of_mem _ member)) rest
    exact ⟨q :: done, by rw [front, queued, List.cons_append], exec_all_cons executed onwards⟩

end Monitor

end Sws.Database
