import Mathlib.Data.List.Basic

/-! Sequential transducers: a scanner as a machine that reads one symbol at a time and emits
what it has recognized. Reading is compositional, so a text built from fixed pieces and
arbitrary ones is scanned piece by piece. -/
namespace Sws

/-- A machine over states `σ` that reads `α` and emits `β`. -/
structure Transducer (σ α β : Type*) where
  /-- The emissions and the next state on reading one symbol. -/
  step : σ → α → List β × σ
  /-- What is still to be emitted when the input ends. -/
  finish : σ → List β

namespace Transducer

variable {σ α β : Type*} (machine : Transducer σ α β)

/-- The emissions over a piece of input, and the state reached. -/
def run : σ → List α → List β × σ
  | s, [] => ([], s)
  | s, a :: rest =>
    ((machine.step s a).1 ++ (run (machine.step s a).2 rest).1,
      (run (machine.step s a).2 rest).2)

/-- The whole output when the input ends here. -/
def output (s : σ) (input : List α) : List β :=
  (machine.run s input).1 ++ machine.finish (machine.run s input).2

theorem run_append (s : σ) (first second : List α) :
    machine.run s (first ++ second) =
      ((machine.run s first).1 ++ (machine.run (machine.run s first).2 second).1,
        (machine.run (machine.run s first).2 second).2) := by
  induction first generalizing s with
  | nil => simp [run]
  | cons a first ih => simp [run, ih]

theorem output_cons (s : σ) (a : α) (rest : List α) :
    machine.output s (a :: rest) = (machine.step s a).1 ++ machine.output (machine.step s a).2 rest := by
  rw [output, run, output, List.append_assoc]

/-- Output is compositional: the second piece is read in the state the first one left. -/
theorem output_append (s : σ) (first second : List α) :
    machine.output s (first ++ second) =
      (machine.run s first).1 ++ machine.output (machine.run s first).2 second := by
  rw [output, run_append, output, List.append_assoc]

variable {machine}

/-- A machine that silently gathers what each encoded symbol stands for gathers the whole
encoded list. -/
theorem run_encoded (gather : List α → σ) (encode : α → List α) {input : List α}
    (quiet : ∀ held, ∀ a ∈ input, machine.run (gather held) (encode a) = ([], gather (held ++ [a])))
    (held : List α) :
    machine.run (gather held) (input.flatMap encode) = ([], gather (held ++ input)) := by
  induction input generalizing held with
  | nil => simp [run]
  | cons a input ih =>
    have first := quiet held a List.mem_cons_self
    have rest := ih (fun more b member => quiet more b (List.mem_cons_of_mem _ member)) (held ++ [a])
    rw [List.flatMap_cons, run_append, first, rest]
    simp

/-- A machine that silently gathers every symbol of a piece gathers the piece. -/
theorem run_gather (gather : List α → σ) {input : List α}
    (quiet : ∀ held, ∀ a ∈ input, machine.step (gather held) a = ([], gather (held ++ [a])))
    (held : List α) : machine.run (gather held) input = ([], gather (held ++ input)) := by
  have single : ∀ more, ∀ a ∈ input, machine.run (gather more) [a] = ([], gather (more ++ [a])) := by
    intro more a member
    simp [run, quiet more a member]
  simpa using run_encoded gather (fun a => [a]) single held

end Transducer

end Sws
