import Mathlib.Data.List.Basic

/-! A queue with one consumer, as an account of its entries: those handled, the one in the
consumer's hands, and those waiting. Whatever implements the four moves below handles its entries
once each and in the order of their arrival. -/
namespace Sws

structure Fifo (α : Type*) where
  done : List α
  flight : Option α
  waiting : List α

namespace Fifo

variable {α : Type*}

/-- Every entry the account knows, the earliest first. -/
def contents (f : Fifo α) : List α := f.done ++ f.flight.toList ++ f.waiting

/-- A step of an implementation, with the entries that arrive in it. -/
inductive Move : Fifo α → List α → Fifo α → Prop where
  | idle (f : Fifo α) : Move f [] f
  | arrive (f : Fifo α) (x : α) : Move f [x] { f with waiting := f.waiting ++ [x] }
  | take (done : List α) (x : α) (rest : List α) :
      Move ⟨done, none, x :: rest⟩ [] ⟨done, some x, rest⟩
  | finish (done : List α) (x : α) (waiting : List α) :
      Move ⟨done, some x, waiting⟩ [] ⟨done ++ [x], none, waiting⟩

/-- No move loses, repeats or reorders an entry. -/
theorem Move.contents_eq {f g : Fifo α} {arrivals : List α} (move : Move f arrivals g) :
    g.contents = f.contents ++ arrivals := by
  cases move <;> simp [contents]

/-- What is handled stays handled. -/
theorem Move.done_prefix {f g : Fifo α} {arrivals : List α} (move : Move f arrivals g) : f.done <+: g.done := by
  cases move with
  | finish done x waiting => exact List.prefix_append done [x]
  | _ => exact List.prefix_rfl

/-- An account with nothing in hand and nothing waiting has handled everything. -/
theorem contents_of_idle {f : Fifo α} (free : f.flight = none) (empty : f.waiting = []) :
    f.contents = f.done := by
  simp [contents, free, empty]

end Fifo

end Sws
