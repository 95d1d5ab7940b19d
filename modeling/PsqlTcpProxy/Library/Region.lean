import Mathlib.Data.List.Basic
import Mathlib.Data.List.Range

/-!
# Regions of a flat memory

A buffer is read and written through a pointer and a length.  Here the memory is
a function `ℕ → α`, a pointer is an index into it, and two operations are all
that `std::copy` and a system call need: `region` reads `len` cells from `pos`
on, `blit` writes a list of cells from `pos` on.

The lemmas say how the two meet: a region that was just written reads back what
was written (`region_blit_self`), a region that lies beside the written one is
unchanged (`region_blit_of_disjoint`), and a region is cut at any point into two
(`region_add`, `take_region`, `drop_region`).
-/

namespace PsqlTcpProxy
namespace Library

variable {α : Type*}

/-- The `len` cells of `mem` from `pos` on. -/
def region (mem : ℕ → α) (pos len : ℕ) : List α :=
  (List.range len).map fun k => mem (pos + k)

/-- The memory with the cells `xs` written from `pos` on. -/
def blit (mem : ℕ → α) (pos : ℕ) (xs : List α) : ℕ → α := fun k =>
  if pos ≤ k then (xs[k - pos]?).getD (mem k) else mem k

/-! ## Reading -/

@[simp] theorem length_region (mem : ℕ → α) (pos len : ℕ) :
    (region mem pos len).length = len := by
  simp [region]

@[simp] theorem region_zero (mem : ℕ → α) (pos : ℕ) : region mem pos 0 = [] := rfl

theorem region_eq_nil_iff {mem : ℕ → α} {pos len : ℕ} : region mem pos len = [] ↔ len = 0 := by
  rw [← List.length_eq_zero_iff, length_region]

/-- A region is its first `m` cells and then the others. -/
theorem region_add (mem : ℕ → α) (pos m n : ℕ) :
    region mem pos (m + n) = region mem pos m ++ region mem (pos + m) n := by
  simp only [region, List.range_add, List.map_append, List.map_map]
  congr 1
  apply List.map_congr_left
  intro k _
  simp only [Function.comp_apply, Nat.add_assoc]

/-- The region cut at an inner point. -/
theorem region_split {mem : ℕ → α} {pos m len : ℕ} (h : m ≤ len) :
    region mem pos len = region mem pos m ++ region mem (pos + m) (len - m) := by
  rw [← region_add, Nat.add_sub_cancel' h]

theorem take_region {mem : ℕ → α} {pos m len : ℕ} (h : m ≤ len) :
    (region mem pos len).take m = region mem pos m := by
  rw [region_split h]
  exact List.take_left' (length_region mem pos m)

theorem drop_region {mem : ℕ → α} {pos m len : ℕ} (h : m ≤ len) :
    (region mem pos len).drop m = region mem (pos + m) (len - m) := by
  rw [region_split h]
  exact List.drop_left' (length_region mem pos m)

/-- Regions of two memories that agree on the cells read are equal. -/
theorem region_congr {mem mem' : ℕ → α} {pos len : ℕ}
    (h : ∀ k, pos ≤ k → k < pos + len → mem k = mem' k) :
    region mem pos len = region mem' pos len := by
  apply List.map_congr_left
  intro k hk
  exact h _ (Nat.le_add_right _ _) (Nat.add_lt_add_left (List.mem_range.mp hk) _)

/-- A memory that reads two lists in a row reads each of them. -/
theorem region_append_inj {mem : ℕ → α} {pos : ℕ} {xs ys : List α}
    (h : region mem pos (xs ++ ys).length = xs ++ ys) :
    region mem pos xs.length = xs ∧ region mem (pos + xs.length) ys.length = ys := by
  rw [List.length_append, region_add] at h
  exact List.append_inj h (length_region mem pos xs.length)

/-- The next cell extends a region by one. -/
theorem region_succ (mem : ℕ → α) (pos len : ℕ) :
    region mem pos (len + 1) = region mem pos len ++ [mem (pos + len)] := by
  rw [region_add]
  rfl

/-! ## Writing -/

@[simp] theorem blit_nil (mem : ℕ → α) (pos : ℕ) : blit mem pos [] = mem := by
  funext k
  simp [blit]

theorem blit_of_lt {mem : ℕ → α} {pos k : ℕ} {xs : List α} (h : k < pos) :
    blit mem pos xs k = mem k := by
  rw [blit, if_neg (by omega)]

theorem blit_of_ge {mem : ℕ → α} {pos k : ℕ} {xs : List α} (h : pos + xs.length ≤ k) :
    blit mem pos xs k = mem k := by
  rw [blit, if_pos (by omega), List.getElem?_eq_none (by omega)]
  rfl

/-- What was written is what is read back. -/
theorem region_blit_self (mem : ℕ → α) (pos : ℕ) (xs : List α) :
    region (blit mem pos xs) pos xs.length = xs := by
  apply List.ext_getElem
  · exact length_region _ _ _
  · intro k _ hk
    simp [region, blit, hk]

/-- **Writing beside a region does not change it.** -/
theorem region_blit_of_disjoint {mem : ℕ → α} {pos len at' : ℕ} {xs : List α}
    (h : pos + len ≤ at' ∨ at' + xs.length ≤ pos) :
    region (blit mem at' xs) pos len = region mem pos len := by
  apply region_congr
  intro k hlo hhi
  rcases h with h | h
  · exact blit_of_lt (by omega)
  · exact blit_of_ge (by omega)

/-- Writing right behind a region appends to it. -/
theorem region_blit_append (mem : ℕ → α) (pos len : ℕ) (xs : List α) :
    region (blit mem (pos + len) xs) pos (len + xs.length) = region mem pos len ++ xs := by
  rw [region_add, region_blit_self, region_blit_of_disjoint (Or.inl (Nat.le_refl _))]

/-- Two lists are written in either order. -/
theorem blit_append (mem : ℕ → α) (pos : ℕ) (xs ys : List α) :
    blit mem pos (xs ++ ys) = blit (blit mem (pos + xs.length) ys) pos xs := by
  funext k
  by_cases hlo : k < pos
  · rw [blit_of_lt hlo, blit_of_lt hlo, blit_of_lt (by omega)]
  · by_cases hmid : k < pos + xs.length
    · have hget : (xs ++ ys)[k - pos]? = xs[k - pos]? := List.getElem?_append_left (by omega)
      obtain ⟨x, hx⟩ : ∃ x, xs[k - pos]? = some x := ⟨_, List.getElem?_eq_getElem (by omega)⟩
      rw [blit, blit, if_pos (by omega), if_pos (by omega), hget, hx]
      rfl
    · have hget : (xs ++ ys)[k - pos]? = ys[k - pos - xs.length]? :=
        List.getElem?_append_right (by omega)
      rw [blit_of_ge (Nat.not_lt.mp hmid), blit, blit, if_pos (by omega),
        if_pos (by omega), hget, Nat.sub_sub]

/-- A list is written by writing its first cells and then the next one. -/
theorem blit_concat (mem : ℕ → α) (pos : ℕ) (xs : List α) (x : α) :
    blit mem pos (xs ++ [x]) = blit (blit mem pos xs) (pos + xs.length) [x] := by
  funext k
  by_cases hlo : k < pos
  · rw [blit_of_lt hlo, blit_of_lt (by omega), blit_of_lt hlo]
  · by_cases hmid : k < pos + xs.length
    · rw [blit_of_lt hmid, blit, blit, if_pos (by omega), if_pos (by omega),
        List.getElem?_append_left (by omega)]
    · by_cases heq : k = pos + xs.length
      · subst heq
        simp [blit]
      · have hlen : (xs ++ [x]).length = xs.length + 1 := by simp
        rw [blit_of_ge (by omega), blit_of_ge (by simp only [List.length_singleton]; omega),
          blit_of_ge (by omega)]

end Library
end PsqlTcpProxy
