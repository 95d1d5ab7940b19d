import Mathlib.Algebra.BigOperators.Group.Finset.Piecewise
import Mathlib.Algebra.Order.Group.Multiset

/-!
# Lists woven from several lists

Several parties put elements into one list.  Each of them keeps the order of its own
elements, and nothing is said about the order of two elements of different parties.
`Woven f l` says that `l` came about in this way from the lists `f i`, one for each party
`i`.

* `Woven.append`: a party puts some elements at the end.
* `Woven.sublist`, `Woven.sum`: the elements of a party are there in their order, and no
  element is there that is not some party's.
* `Woven.perm`: two lists that are woven from the same lists have the same elements.
-/

namespace PsqlTcpProxy
namespace Library

variable {ι : Type*} {α β : Type*} [DecidableEq ι]

/-- The elements that carry the tag `i`, in order. -/
def strand (i : ι) (tagged : List (ι × α)) : List α :=
  tagged.filterMap fun p => if p.1 = i then some p.2 else none

@[simp] theorem strand_nil (i : ι) : strand i ([] : List (ι × α)) = [] := rfl

theorem strand_cons (i : ι) (p : ι × α) (tagged : List (ι × α)) :
    strand i (p :: tagged) = if p.1 = i then p.2 :: strand i tagged else strand i tagged := by
  unfold strand
  split
  · rename_i h
    exact List.filterMap_cons_some (if_pos h)
  · rename_i h
    exact List.filterMap_cons_none (if_neg h)

@[simp] theorem strand_append (i : ι) (tagged tagged' : List (ι × α)) :
    strand i (tagged ++ tagged') = strand i tagged ++ strand i tagged' := List.filterMap_append

/-- Elements with one tag. -/
theorem strand_map (i j : ι) (xs : List α) :
    strand i (xs.map fun x => (j, x)) = if j = i then xs else [] := by
  induction xs with
  | nil => exact (ite_self _).symm
  | cons x xs ih =>
    rw [List.map_cons, strand_cons, ih]
    split
    · rfl
    · rfl

/-- `l` is woven from the lists `f i`. -/
def Woven (f : ι → List α) (l : List α) : Prop :=
  ∃ tagged : List (ι × α), tagged.map Prod.snd = l ∧ ∀ i, strand i tagged = f i

namespace Woven

variable {f g : ι → List α} {l : List α}

theorem nil : Woven (fun _ : ι => ([] : List α)) [] := ⟨[], rfl, fun _ => rfl⟩

/-- **A party adds to its list.** -/
theorem append (h : Woven f l) {i : ι} {xs : List α} (hi : g i = f i ++ xs)
    (hother : ∀ j, j ≠ i → g j = f j) : Woven g (l ++ xs) := by
  obtain ⟨tagged, rfl, hstrand⟩ := h
  refine ⟨tagged ++ xs.map fun x => (i, x), ?_, fun j => ?_⟩
  · rw [List.map_append, List.map_map]
    exact congrArg _ (List.map_id xs)
  · rw [strand_append, strand_map, hstrand]
    split
    · rename_i hij
      subst hij
      exact hi.symm
    · rename_i hij
      rw [List.append_nil, hother j (Ne.symm hij)]

/-- **The order of a party's elements is kept.** -/
theorem sublist (h : Woven f l) (i : ι) : (f i).Sublist l := by
  obtain ⟨tagged, rfl, hstrand⟩ := h
  rw [← hstrand i]
  clear hstrand
  induction tagged with
  | nil => exact List.Sublist.refl _
  | cons p tagged ih =>
    rw [strand_cons, List.map_cons]
    split
    · exact ih.cons_cons p.2
    · exact ih.cons p.2

/-- Every element is some party's. -/
theorem exists_mem (h : Woven f l) {x : α} (hx : x ∈ l) : ∃ i, x ∈ f i := by
  obtain ⟨tagged, rfl, hstrand⟩ := h
  obtain ⟨p, hp, rfl⟩ := List.mem_map.mp hx
  refine ⟨p.1, ?_⟩
  rw [← hstrand]
  exact List.mem_filterMap.mpr ⟨p, hp, if_pos rfl⟩

/-- **What is left of a weaving** is a weaving of what is left of each list. -/
theorem of_sublist (h : Woven f l) {l' : List α} (hsub : l'.Sublist l) :
    ∃ g, (∀ i, (g i).Sublist (f i)) ∧ Woven g l' := by
  obtain ⟨tagged, rfl, hstrand⟩ := h
  obtain ⟨left, hleft, rfl⟩ := List.sublist_map_iff.mp hsub
  refine ⟨fun i => strand i left, fun i => ?_, left, rfl, fun _ => rfl⟩
  rw [← hstrand i]
  exact hleft.filterMap _

/-- **Nothing is lost or added.** -/
theorem sum [Fintype ι] (h : Woven f l) : (l : Multiset α) = ∑ i, (f i : Multiset α) := by
  obtain ⟨tagged, rfl, hstrand⟩ := h
  obtain rfl : (fun i => strand i tagged) = f := funext hstrand
  clear hstrand
  induction tagged with
  | nil => exact (Finset.sum_const_zero).symm
  | cons p tagged ih =>
    have hcons : ∀ xs : List α, ((p.2 :: xs : List α) : Multiset α) = {p.2} + (xs : Multiset α) :=
      fun xs => (Multiset.singleton_add p.2 (xs : Multiset α)).symm
    have hsplit : ∀ i, (strand i (p :: tagged) : Multiset α) =
        (if p.1 = i then {p.2} else 0) + (strand i tagged : Multiset α) := by
      intro i
      rw [strand_cons]
      split
      · exact hcons _
      · exact (zero_add _).symm
    calc ((p :: tagged).map Prod.snd : Multiset α)
        = {p.2} + (tagged.map Prod.snd : Multiset α) := hcons _
      _ = {p.2} + ∑ i, (strand i tagged : Multiset α) := by rw [ih]
      _ = ∑ i, ((if p.1 = i then {p.2} else 0) + (strand i tagged : Multiset α)) := by
        rw [Finset.sum_add_distrib, Finset.sum_ite_eq, if_pos (Finset.mem_univ _)]
      _ = ∑ i, (strand i (p :: tagged) : Multiset α) :=
        Finset.sum_congr rfl fun i _ => (hsplit i).symm

/-- How often a party has an element. -/
theorem count_strand [DecidableEq α] (i : ι) (x : α) (tagged : List (ι × α)) :
    (strand i tagged).count x = tagged.count (i, x) := by
  induction tagged with
  | nil => rfl
  | cons p tagged ih =>
    obtain ⟨j, y⟩ := p
    rw [strand_cons, List.count_cons, ← ih]
    by_cases hij : j = i
    · subst hij
      rw [if_pos rfl, List.count_cons]
      by_cases hxy : y = x
      · rw [hxy, if_pos (beq_self_eq_true _), if_pos (beq_self_eq_true _)]
      · rw [if_neg (by simpa using hxy), if_neg (by simpa using hxy)]
    · rw [if_neg hij, if_neg (by simp [hij]), Nat.add_zero]

/-- **Two weavings of the same lists** have the same elements. -/
theorem perm {l' : List α} (h : Woven f l) (h' : Woven f l') : l.Perm l' := by
  classical
  obtain ⟨tagged, rfl, hstrand⟩ := h
  obtain ⟨tagged', rfl, hstrand'⟩ := h'
  refine List.Perm.map Prod.snd (List.perm_iff_count.mpr fun p => ?_)
  rw [← count_strand p.1 p.2, ← count_strand p.1 p.2, hstrand, hstrand']

end Woven

end Library
end PsqlTcpProxy
