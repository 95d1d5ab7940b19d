import Mathlib.Data.List.Nodup
import Mathlib.Data.List.Perm.Basic
import Mathlib.Data.List.TakeWhile

/-!
# A set that changes while it is visited

A hash set keeps its elements in a chain.  Where a new element goes, and how the others are
rearranged when the table grows, is its own affair: a `Layout` says it, given what has
happened so far (`ι`), and all that is known is that the elements are the old ones and the
new one.

An iterator stands at an element, and what it has still to visit is what comes behind this
element in the chain as the chain is then (`ahead`).  A loop that inserts while it visits can
therefore miss an element, meet a new one, or come to an element again; one that inserts only
what is there visits every element once (`ahead_of_cons`).
-/

namespace PsqlTcpProxy
namespace Library

/-- Where a set puts a new element. -/
structure Layout (ι α : Type) where
  place : ι → List α → α → List α
  perm : ∀ i xs x, (place i xs x).Perm (x :: xs)

namespace Layout

variable {ι α : Type}

/-- A new element goes in front of the others. -/
def front : Layout ι α := ⟨fun _ xs x => x :: xs, fun _ _ _ => .refl _⟩

section Insert

variable [DecidableEq α] (layout : Layout ι α) (i : ι) {xs : List α} {x y : α}

/-- Insertion. -/
def insert (xs : List α) (x : α) : List α := if x ∈ xs then xs else layout.place i xs x

theorem insert_of_mem (h : x ∈ xs) : layout.insert i xs x = xs := if_pos h

theorem mem_insert : y ∈ layout.insert i xs x ↔ y ∈ xs ∨ y = x := by
  unfold insert
  split
  · exact ⟨Or.inl, fun hor => hor.elim id fun heq => heq ▸ ‹_›⟩
  · rw [(layout.perm i xs x).mem_iff, List.mem_cons, or_comm]

theorem nodup_insert (h : xs.Nodup) : (layout.insert i xs x).Nodup := by
  unfold insert
  split
  · exact h
  · exact (layout.perm i xs x).nodup_iff.mpr (List.nodup_cons.mpr ⟨‹_›, h⟩)

/-- The set is as it was exactly when the element was there. -/
theorem insert_eq_iff : layout.insert i xs x = xs ↔ x ∈ xs := by
  refine ⟨fun heq => ?_, layout.insert_of_mem i⟩
  rw [← heq, mem_insert]
  exact Or.inr rfl

end Insert

end Layout

/-! ## Visiting -/

section Ahead

variable {α : Type} [DecidableEq α] {current : Option α} {xs rest : List α} {x y : α}

/-- What an iterator that stands at `current` has still to visit; at first it stands before
all elements. -/
def ahead (current : Option α) (xs : List α) : List α :=
  match current with
  | none => xs
  | some x => (xs.dropWhile (· ≠ x)).tail

theorem ahead_suffix (current : Option α) (xs : List α) : ahead current xs <:+ xs := by
  cases current with
  | none => exact List.suffix_refl xs
  | some x => exact (List.tail_suffix _).trans (List.dropWhile_suffix _)

theorem mem_of_mem_ahead (h : y ∈ ahead current xs) : y ∈ xs :=
  (ahead_suffix current xs).subset h

/-- **The next element.**  The iterator goes one element on. -/
theorem ahead_of_cons (hxs : xs.Nodup) (h : ahead current xs = x :: rest) :
    ahead (some x) xs = rest := by
  obtain ⟨before, hsplit⟩ := ahead_suffix current xs
  rw [h] at hsplit
  subst hsplit
  have hbefore : ∀ z ∈ before, decide (z ≠ x) = true := by
    intro z hz
    refine decide_eq_true fun heq => ?_
    exact (List.nodup_append.mp hxs).2.2 z hz x List.mem_cons_self heq
  show ((before ++ x :: rest).dropWhile (· ≠ x)).tail = rest
  rw [List.dropWhile_append_of_pos hbefore, List.dropWhile_cons_of_neg (by simp), List.tail_cons]

end Ahead

end Library
end PsqlTcpProxy
