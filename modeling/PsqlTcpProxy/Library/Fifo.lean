import PsqlTcpProxy.Library.Run

/-!
# First in, first out

The queue that a buffer between two parties stands for.  One party puts pieces in at the end,
the other one takes elements out at the front, and each of these happens at once.

`Fifo` keeps what was put in and what was taken out beside what is in the queue, and
`run_balanced` says what they have to do with each other after any operations: what was taken
out, followed by what is in the queue, is what was put in.
-/

namespace PsqlTcpProxy
namespace Library

variable {α : Type*}

/-- A queue, and what has passed its two ends. -/
structure Fifo (α : Type*) where
  queue : List α
  /-- The pieces that were put in, in order. -/
  pushed : List (List α)
  /-- The elements that were taken out, in order. -/
  popped : List α

/-- An operation of one of the parties. -/
inductive FifoOp (α : Type*) where
  /-- Put a piece in. -/
  | push (piece : List α)
  /-- Take elements out. -/
  | pop (n : ℕ)

namespace Fifo

/-- Nothing has happened. -/
def empty : Fifo α := ⟨[], [], []⟩

/-- One operation; nothing is taken out that is not in. -/
def step (q : Fifo α) : FifoOp α → Option (Fifo α)
  | .push piece => some { q with queue := q.queue ++ piece, pushed := q.pushed ++ [piece] }
  | .pop n =>
    if n ≤ q.queue.length then
      some { q with queue := q.queue.drop n, popped := q.popped ++ q.queue.take n }
    else none

/-- What was taken out and what is in the queue is what was put in. -/
def Balanced (q : Fifo α) : Prop := q.popped ++ q.queue = q.pushed.flatten

theorem step_balanced {q q' : Fifo α} {op : FifoOp α} (h : q.Balanced)
    (hstep : q.step op = some q') : q'.Balanced := by
  cases op with
  | push piece =>
    obtain rfl := Option.some.inj hstep
    show q.popped ++ (q.queue ++ piece) = (q.pushed ++ [piece]).flatten
    rw [← List.append_assoc, h, List.flatten_append, List.flatten_singleton]
  | pop n =>
    simp only [step, Option.ite_none_right_eq_some, Option.some.injEq] at hstep
    obtain ⟨-, rfl⟩ := hstep
    show q.popped ++ q.queue.take n ++ q.queue.drop n = q.pushed.flatten
    rw [List.append_assoc, List.take_append_drop, h]

/-- **First in, first out.** -/
theorem run_balanced {q : Fifo α} {ops : List (FifoOp α)} (hrun : run step empty ops = some q) :
    q.Balanced :=
  run_invariant (P := fun _ _ => True) (fun _ _ _ h _ hs => step_balanced h hs)
    (show Balanced empty from rfl) (meets_of_forall _ fun _ _ => trivial) hrun

end Fifo

end Library
end PsqlTcpProxy
