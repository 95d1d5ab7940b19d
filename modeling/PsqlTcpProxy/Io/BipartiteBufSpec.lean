import PsqlTcpProxy.Io.BipartiteBuf

/-!
# What a bipartite buffer holds

The buffer is a FIFO queue of cells: `held` is the queue, a completed write
appends to it and a completed read drops from its front.  This file proves that
for the arithmetic of the four operations, in the form both clients need.

## Rooms

A writer between `write_acquire` and `write_release` owns a region it may fill.
What makes that region safe is a relation between the indexes *now*, not at the
time they were loaded: `LinearRoom` when the region starts at the write index,
`WrapRoom` when it starts at the front.  A reader between `read_acquire` and
`read_release` likewise relies on `Offered`.  The four content lemmas
(`heldAt_release_linear`, `heldAt_release_wrap`, `region_offered`,
`heldAt_readRelease`) take these relations as hypotheses, so they apply to a
sequential caller, whose indexes have not moved, and to a concurrent one, whose
counterpart has moved its own index in the meantime.

## The sequential invariant

`Wf` bounds the indexes and says that a set `_read_wrapped` is still true of
them.  The other flag can be left set by a caller that acquires and never
releases; that is harmless only when the next request wraps as well, which is
what `FlagFor n` records for a caller whose requests all have the size `n`.
-/

namespace PsqlTcpProxy
namespace Io

open Library

variable {α : Type*}

/-- The cells held between the read index and the write index, in read order. -/
def heldAt (mem : ℕ → α) (r w i : ℕ) : List α :=
  if r ≤ w then region mem r (w - r) else region mem r (i - r) ++ region mem 0 w

/-- The region `[w, w + n)` may be written without touching a held cell, and
writing it to the end of the array does not make the buffer look empty. -/
structure LinearRoom (size r w n : ℕ) : Prop where
  le_size : w + n ≤ size
  pos_of_full : r ≤ w → w + n = size → 0 < r
  lt_read : w < r → w + n < r

/-- The region `[0, n)` may be written without touching a held cell. -/
structure WrapRoom (r w n : ℕ) : Prop where
  le_write : r ≤ w
  lt_read : n < r

/-- The region of `len` cells handed out at the read index (or, when `wrapped`,
at the front) consists of held cells. -/
structure Offered (r w i : ℕ) (wrapped : Bool) (p len : ℕ) : Prop where
  start : p = if wrapped then 0 else r
  le_write : wrapped = false → r ≤ w → r + len ≤ w
  le_invalid : wrapped = false → w < r → r + len ≤ i
  at_invalid : wrapped = true → w < r ∧ r = i ∧ len ≤ w

/-! ## The decisions -/

theorem calcFree_of_lt {size w r : ℕ} (h : w < r) : calcFree size w r = r - w - 1 := if_pos h

theorem calcFree_of_le {size w r : ℕ} (h : r ≤ w) : calcFree size w r = size - (w - r) - 1 :=
  if_neg (Nat.not_lt.mpr h)

theorem acquireAt_linear {size w r n p : ℕ} (hw : w < size)
    (h : acquireAt size w r n = some (p, false)) : p = w ∧ LinearRoom size r w n := by
  simp only [acquireAt] at h
  split at h
  · rename_i hn
    have hp : w = p := congrArg Prod.fst (Option.some.inj h)
    rcases Nat.lt_or_ge w r with hwr | hwr
    · rw [calcFree_of_lt hwr] at hn
      exact ⟨hp.symm, ⟨by omega, by omega, by omega⟩⟩
    · rw [calcFree_of_le hwr] at hn
      exact ⟨hp.symm, ⟨by omega, by omega, by omega⟩⟩
  · split at h
    · exact absurd (congrArg Prod.snd (Option.some.inj h)) (by simp)
    · simp at h

theorem acquireAt_wrapped {size w r n p : ℕ} (hw : w < size) (hr : r < size)
    (h : acquireAt size w r n = some (p, true)) :
    p = 0 ∧ WrapRoom r w n ∧ size < w + n := by
  simp only [acquireAt] at h
  split at h
  · exact absurd (congrArg Prod.snd (Option.some.inj h)) (by simp)
  · rename_i hn
    split at h
    · rename_i hm
      have hp : 0 = p := congrArg Prod.fst (Option.some.inj h)
      rcases Nat.lt_or_ge w r with hwr | hwr
      · rw [calcFree_of_lt hwr] at hn hm
        omega
      · rw [calcFree_of_le hwr] at hn hm
        exact ⟨hp.symm, ⟨hwr, by omega⟩, by omega⟩
    · simp at h

theorem releaseAt_eq_some {size w i k : ℕ} (h : w + k ≤ size) :
    releaseAt size w i k =
      some (max i (w + k), if w + k = size then 0 else w + k) := by
  simp only [releaseAt, if_pos h, Option.some.injEq, Prod.mk.injEq, and_true]
  split <;> omega

theorem readReleaseAt_eq_some {size r k : ℕ} {wrapped : Bool}
    (h : (if wrapped then 0 else r) + k ≤ size) :
    readReleaseAt size wrapped r k =
      some (if (if wrapped then 0 else r) + k = size then 0
        else (if wrapped then 0 else r) + k) := by
  simp only [readReleaseAt, if_pos h]

/-- `read_acquire` hands out held cells when the invalidate index is where the
wrapped data ends. -/
theorem readAt_offered {r w i p len : ℕ} {wrapped : Bool} (hri : w < r → r ≤ i)
    (h : readAt r w i = (some p, len, wrapped)) : Offered r w i wrapped p len := by
  simp only [readAt] at h
  split at h
  · simp at h
  split at h
  · simp only [Prod.mk.injEq, Option.some.injEq] at h
    obtain ⟨rfl, rfl, rfl⟩ := h
    refine ⟨by simp, ?_, ?_, by simp⟩ <;> intros <;> omega
  split at h
  · simp only [Prod.mk.injEq, Option.some.injEq] at h
    obtain ⟨rfl, rfl, rfl⟩ := h
    refine ⟨by simp, by simp, by simp, ?_⟩
    intro
    omega
  · simp only [Prod.mk.injEq, Option.some.injEq] at h
    obtain ⟨rfl, rfl, rfl⟩ := h
    refine ⟨by simp, ?_, ?_, by simp⟩ <;> intros <;> omega

/-! ## Writing -/

/-- Filling a linear room leaves the held cells alone. -/
theorem heldAt_blit_linear {mem : ℕ → α} {size r w i n at' : ℕ} {xs : List α}
    (hroom : LinearRoom size r w n) (hlo : w ≤ at') (hhi : at' + xs.length ≤ w + n) :
    heldAt (blit mem at' xs) r w i = heldAt mem r w i := by
  unfold heldAt
  split
  · exact region_blit_of_disjoint (Or.inl (by omega))
  · have hlt := hroom.lt_read (by omega)
    rw [region_blit_of_disjoint (Or.inr (by omega)), region_blit_of_disjoint (Or.inl (by omega))]

/-- Filling the front leaves the held cells alone. -/
theorem heldAt_blit_wrap {mem : ℕ → α} {r w i n at' : ℕ} {xs : List α} (hroom : WrapRoom r w n)
    (hhi : at' + xs.length ≤ n) : heldAt (blit mem at' xs) r w i = heldAt mem r w i := by
  have hle := hroom.le_write
  have hlt := hroom.lt_read
  rw [heldAt, heldAt, if_pos hle, if_pos hle]
  exact region_blit_of_disjoint (Or.inr (by omega))

/-- **A linear write appends.**  The region at the write index now contains
`xs`; storing the new indexes makes it held. -/
theorem heldAt_release_linear {mem : ℕ → α} {size r w i : ℕ} {xs : List α}
    (hroom : LinearRoom size r w xs.length) (hi : i ≤ size) (hri : w < r → r ≤ i)
    (hxs : region mem w xs.length = xs) :
    heldAt mem r (if w + xs.length = size then 0 else w + xs.length) (max i (w + xs.length)) =
      heldAt mem r w i ++ xs := by
  have hsize := hroom.le_size
  by_cases hle : r ≤ w
  · by_cases hfull : w + xs.length = size
    · -- the write index returns to the front: everything held lies before `size`
      have hpos := hroom.pos_of_full hle hfull
      rw [if_pos hfull, heldAt, if_neg (by omega), heldAt, if_pos hle,
        show max i (w + xs.length) - r = (w - r) + xs.length by omega, region_add,
        show r + (w - r) = w by omega, hxs, region_zero, List.append_nil]
    · rw [if_neg hfull, heldAt, if_pos (by omega), heldAt, if_pos hle,
        show w + xs.length - r = (w - r) + xs.length by omega, region_add,
        show r + (w - r) = w by omega, hxs]
  · have hlt := hroom.lt_read (by omega)
    have hri' := hri (by omega)
    rw [if_neg (by omega), heldAt, if_neg (by omega), heldAt, if_neg hle,
      show max i (w + xs.length) = i by omega, region_add, Nat.zero_add, hxs, List.append_assoc]

/-- **A wrapped write appends.**  The front now contains `xs`; the old write
index becomes the invalidate index. -/
theorem heldAt_release_wrap {mem : ℕ → α} {size r w i : ℕ} {xs : List α}
    (hroom : WrapRoom r w xs.length) (hw : w < size) (hxs : region mem 0 xs.length = xs) :
    heldAt mem r (if 0 + xs.length = size then 0 else 0 + xs.length) (max w (0 + xs.length)) =
      heldAt mem r w i ++ xs := by
  have hle := hroom.le_write
  have hlt := hroom.lt_read
  rw [if_neg (by omega), heldAt, if_neg (by omega), heldAt, if_pos hle, Nat.zero_add,
    show max w xs.length = w by omega, hxs]

/-! ## Reading -/

theorem heldAt_eq_nil_of_eq (mem : ℕ → α) (w i : ℕ) : heldAt mem w w i = [] := by
  simp [heldAt]

/-- **The region handed out is the front of the queue.** -/
theorem region_offered {mem : ℕ → α} {r w i p len : ℕ} {wrapped : Bool}
    (h : Offered r w i wrapped p len) (hri : w < r → r ≤ i) :
    region mem p len = (heldAt mem r w i).take len := by
  obtain ⟨hp, hle, hlt, hat⟩ := h
  cases wrapped with
  | true =>
    obtain ⟨hwr, rfl, hlen⟩ := hat rfl
    simp only [if_true] at hp
    subst hp
    rw [heldAt, if_neg (by omega), Nat.sub_self, region_zero, List.nil_append, take_region hlen]
  | false =>
    simp only [Bool.false_eq_true, if_false] at hp
    subst hp
    by_cases hrw : p ≤ w
    · have := hle rfl hrw
      rw [heldAt, if_pos hrw, take_region (by omega)]
    · have := hlt rfl (by omega)
      have := hri (by omega)
      rw [heldAt, if_neg hrw, List.take_append_of_le_length (by simp; omega),
        take_region (by omega)]

/-- **A completed read drops the cells that were read.** -/
theorem heldAt_readRelease (mem : ℕ → α) {size r w i p len k : ℕ} {wrapped : Bool}
    (h : Offered r w i wrapped p len) (hw : w < size) (hi : i ≤ size) (hk : k ≤ len) :
    ∃ r', readReleaseAt size wrapped r k = some r' ∧ r' < size ∧ (w < r' → r' ≤ i) ∧
      heldAt mem r' w i = (heldAt mem r w i).drop k := by
  obtain ⟨hp, hle, hlt, hat⟩ := h
  cases wrapped with
  | true =>
    obtain ⟨hwr, rfl, hlen⟩ := hat rfl
    refine ⟨k, ?_, by omega, by omega, ?_⟩
    · rw [readReleaseAt_eq_some (by simp; omega)]
      simp only [if_true, Nat.zero_add]
      rw [if_neg (by omega)]
    · rw [heldAt, if_pos (by omega), heldAt, if_neg (by omega), Nat.sub_self, region_zero,
        List.nil_append, drop_region (by omega), Nat.zero_add]
  | false =>
    by_cases hrw : r ≤ w
    · have hb := hle rfl hrw
      refine ⟨r + k, ?_, by omega, by omega, ?_⟩
      · rw [readReleaseAt_eq_some (by simp; omega)]
        simp only [Bool.false_eq_true, if_false]
        rw [if_neg (by omega)]
      · rw [heldAt, if_pos (by omega), heldAt, if_pos hrw, drop_region (by omega),
          show w - r - k = w - (r + k) by omega]
    · have hb := hlt rfl (by omega)
      by_cases hend : r + k = size
      · -- the tail of the array is consumed: reading continues at the front
        refine ⟨0, ?_, by omega, by omega, ?_⟩
        · rw [readReleaseAt_eq_some (by simp; omega)]
          simp [hend]
        · rw [heldAt, if_pos (Nat.zero_le _), heldAt, if_neg hrw, Nat.sub_zero,
            List.drop_left' (by rw [length_region]; omega)]
      · refine ⟨r + k, ?_, by omega, by omega, ?_⟩
        · rw [readReleaseAt_eq_some (by simp; omega)]
          simp [hend]
        · rw [heldAt, if_neg (by omega), heldAt, if_neg hrw,
            List.drop_append_of_le_length (by rw [length_region]; omega), drop_region (by omega),
            show i - r - k = i - (r + k) by omega]

/-! ## The sequential buffer -/

namespace BipartiteBuffer

variable {size n : ℕ} {b b₁ : BipartiteBuffer α size}

theorem held_eq (b : BipartiteBuffer α size) : b.held = heldAt b.data b.r b.w b.i := rfl

/-- The indexes are in range, the invalidate index bounds the read index while
the data is wrapped, and a set `_read_wrapped` still describes the indexes. -/
structure Wf (b : BipartiteBuffer α size) : Prop where
  r_lt : b.r < size
  w_lt : b.w < size
  i_le : b.i ≤ size
  r_le_i : b.w < b.r → b.r ≤ b.i
  read_wrapped : b.readWrapped = true → b.w < b.r ∧ b.r = b.i

/-- A set `_write_wrapped` announces a wrap that a request for `n` cells makes
anyway. -/
def FlagFor (n : ℕ) (b : BipartiteBuffer α size) : Prop :=
  b.writeWrapped = true → WrapRoom b.r b.w n ∧ size < b.w + n

theorem wf_init (data : ℕ → α) (h : 0 < size) : (init data : BipartiteBuffer α size).Wf :=
  ⟨h, h, Nat.zero_le _, fun hlt => absurd hlt (lt_irrefl 0), by simp [init]⟩

theorem flagFor_init (data : ℕ → α) : (init data : BipartiteBuffer α size).FlagFor n := by
  simp [FlagFor, init]

@[simp] theorem held_init (data : ℕ → α) : (init data : BipartiteBuffer α size).held = [] :=
  heldAt_eq_nil_of_eq data 0 0

/-- `write_acquire` changes nothing but the wrap flag, and sets it only when the
write wraps. -/
theorem writeAcquire_cases (b : BipartiteBuffer α size) (n : ℕ) :
    b.writeAcquire n = (none, b) ∨
    (acquireAt size b.w b.r n = some (b.w, false) ∧ b.writeAcquire n = (some b.w, b)) ∨
    (acquireAt size b.w b.r n = some (0, true) ∧
      b.writeAcquire n = (some 0, { b with writeWrapped := true })) := by
  unfold writeAcquire
  rcases h : acquireAt size b.w b.r n with _ | ⟨p, _ | _⟩
  · exact Or.inl rfl
  · have hp : p = b.w := by
      simp only [acquireAt] at h
      split at h
      · exact (congrArg Prod.fst (Option.some.inj h)).symm
      · split at h <;> simp at h
    exact Or.inr (Or.inl ⟨by rw [hp], by rw [hp]⟩)
  · have hp : p = 0 := by
      simp only [acquireAt] at h
      split at h
      · simp at h
      · split at h
        · exact (congrArg Prod.fst (Option.some.inj h)).symm
        · simp at h
    exact Or.inr (Or.inr ⟨by rw [hp], by rw [hp]⟩)

/-- **An acquired region is never harmful.**  Acquiring without releasing keeps
the invariant, the flag condition and what is held. -/
theorem writeAcquire_keeps (hb : b.Wf) (hf : b.FlagFor n) :
    (b.writeAcquire n).2.Wf ∧ (b.writeAcquire n).2.FlagFor n ∧
      (b.writeAcquire n).2.held = b.held := by
  rcases b.writeAcquire_cases n with h | ⟨-, h⟩ | ⟨hat, h⟩
  · rw [h]
    exact ⟨hb, hf, rfl⟩
  · rw [h]
    exact ⟨hb, hf, rfl⟩
  · rw [h]
    obtain ⟨-, hroom, hover⟩ := acquireAt_wrapped hb.w_lt hb.r_lt hat
    exact ⟨⟨hb.r_lt, hb.w_lt, hb.i_le, hb.r_le_i, hb.read_wrapped⟩, fun _ => ⟨hroom, hover⟩, rfl⟩

/-- **What a completed write does to the indexes.**  Either the region is at the write
index, or it is at the front and the old write index becomes the invalidate index; a
stale wrap flag makes no difference, and the assertion holds. -/
theorem write_cases (hb : b.Wf) (hf : b.FlagFor n) {p : ℕ}
    (hacq : b.writeAcquire n = (some p, b₁)) {xs : List α} (hxs : xs.length ≤ n) :
    (p = b.w ∧ LinearRoom size b.r b.w xs.length ∧
      (b₁.store p xs).writeRelease xs.length = some { b.store b.w xs with
        writeWrapped := false, i := max b.i (b.w + xs.length),
        w := if b.w + xs.length = size then 0 else b.w + xs.length }) ∨
    (p = 0 ∧ WrapRoom b.r b.w xs.length ∧ size < b.w + n ∧
      (b₁.store p xs).writeRelease xs.length = some { b.store 0 xs with
        writeWrapped := false, i := max b.w (0 + xs.length),
        w := if 0 + xs.length = size then 0 else 0 + xs.length }) := by
  rcases b.writeAcquire_cases n with h | ⟨hat, h⟩ | ⟨hat, h⟩
  · rw [h] at hacq
    simp at hacq
  · -- the region is at the write index; a stale flag would mean a wrap
    rw [h] at hacq
    obtain ⟨rfl, rfl⟩ : b.w = p ∧ b = b₁ := by simpa using hacq
    obtain ⟨-, hroom⟩ := acquireAt_linear hb.w_lt hat
    have hsize := hroom.le_size
    have hroom' : LinearRoom size b.r b.w xs.length :=
      ⟨by omega, by have := hroom.pos_of_full; omega, by have := hroom.lt_read; omega⟩
    have hflag : b.writeWrapped = false := by
      by_contra hset
      have := (hf (by simpa using hset)).2
      omega
    refine Or.inl ⟨rfl, hroom', ?_⟩
    simp only [writeRelease, store, hflag, releaseStart, Bool.false_eq_true, if_false,
      releaseAt_eq_some hroom'.le_size, Option.map_some]
  · -- the region is at the front
    rw [h] at hacq
    obtain ⟨rfl, rfl⟩ : 0 = p ∧ { b with writeWrapped := true } = b₁ := by simpa using hacq
    obtain ⟨-, hroom, hover⟩ := acquireAt_wrapped hb.w_lt hb.r_lt hat
    have hlt := hroom.lt_read
    have hr := hb.r_lt
    refine Or.inr ⟨rfl, ⟨hroom.le_write, by omega⟩, hover, ?_⟩
    simp only [writeRelease, store, releaseStart, if_true,
      releaseAt_eq_some (show 0 + xs.length ≤ size by omega), Option.map_some]

/-- **A completed write appends.**  Whatever part of the acquired region is
filled, releasing it keeps the invariant and appends it to the queue; the
assertion holds. -/
theorem write_correct (hb : b.Wf) (hf : b.FlagFor n) {p : ℕ}
    (hacq : b.writeAcquire n = (some p, b₁)) {xs : List α} (hxs : xs.length ≤ n) :
    ∃ b₂, (b₁.store p xs).writeRelease xs.length = some b₂ ∧ b₂.Wf ∧ b₂.FlagFor n ∧
      b₂.held = b.held ++ xs := by
  have hcases := write_cases hb hf hacq hxs
  obtain ⟨hr, hw, hi, hri, hrd⟩ := hb
  rcases hcases with ⟨-, hroom, hrel⟩ | ⟨-, hroom, -, hrel⟩
  · have hsize := hroom.le_size
    refine ⟨_, hrel, ⟨hr, ?_, ?_, ?_, ?_⟩, by simp [FlagFor], ?_⟩
    · show (if b.w + xs.length = size then 0 else b.w + xs.length) < size
      split <;> omega
    · show max b.i (b.w + xs.length) ≤ size
      omega
    · show (if b.w + xs.length = size then 0 else b.w + xs.length) < b.r →
        b.r ≤ max b.i (b.w + xs.length)
      have := hroom.lt_read
      split <;> omega
    · intro hset
      show (if b.w + xs.length = size then 0 else b.w + xs.length) < b.r ∧
        b.r = max b.i (b.w + xs.length)
      obtain ⟨hwr, hri'⟩ := hrd hset
      have := hroom.lt_read hwr
      rw [if_neg (by omega)]
      omega
    · have hblit : heldAt (blit b.data b.w xs) b.r b.w b.i = b.held :=
        heldAt_blit_linear hroom (Nat.le_refl _) (Nat.le_refl _)
      rw [← hblit]
      exact heldAt_release_linear hroom hi hri (region_blit_self b.data b.w xs)
  · have hle := hroom.le_write
    have hlt := hroom.lt_read
    refine ⟨_, hrel, ⟨hr, ?_, ?_, ?_, ?_⟩, by simp [FlagFor], ?_⟩
    · show (if 0 + xs.length = size then 0 else 0 + xs.length) < size
      split <;> omega
    · show max b.w (0 + xs.length) ≤ size
      omega
    · show _ → b.r ≤ max b.w (0 + xs.length)
      omega
    · intro hset
      have := (hrd hset).1
      omega
    · have hblit : heldAt (blit b.data 0 xs) b.r b.w b.i = b.held :=
        heldAt_blit_wrap hroom (by omega)
      rw [← hblit]
      exact heldAt_release_wrap hroom hw (region_blit_self b.data 0 xs)

/-- `read_acquire` changes nothing but the wrap flag.  It hands out no cell only
when none is held; otherwise the region is the front of the queue, of `len`
cells, and is not empty. -/
theorem readAcquire_cases (hb : b.Wf) :
    (∃ p b₁, b.readAcquire = (p, 0, b₁) ∧ b₁.Wf ∧ b₁.held = b.held ∧ b.held = [] ∧
      ∀ n, b.FlagFor n → b₁.FlagFor n) ∨
    (∃ p len b₁, b.readAcquire = (some p, len, b₁) ∧ 0 < len ∧ b₁.data = b.data ∧
      b₁.r = b.r ∧ b₁.w = b.w ∧ b₁.i = b.i ∧ b₁.writeWrapped = b.writeWrapped ∧
      Offered b.r b.w b.i b₁.readWrapped p len) := by
  obtain ⟨hr, hw, hi, hri, hrd⟩ := hb
  have hflag : b.readWrapped = true → b.w < b.r ∧ b.r = b.i := hrd
  rcases lt_trichotomy b.r b.w with hlt | heq | hgt
  · -- the data lies between the indexes; the flag is clear because it would mean a wrap
    have hclear : b.readWrapped = false := by
      by_contra hset
      have := (hflag (by simpa using hset)).1
      omega
    have hat : readAt b.r b.w b.i = (some b.r, b.w - b.r, false) := by
      simp only [readAt, if_neg (Nat.ne_of_lt hlt), if_pos hlt]
    refine Or.inr ⟨b.r, b.w - b.r, b, by simp only [readAcquire, hat], by omega, rfl, rfl, rfl,
      rfl, rfl, ?_⟩
    rw [hclear]
    exact readAt_offered hri hat
  · have hat : readAt b.r b.w b.i = (none, 0, false) := by simp only [readAt, if_pos heq]
    refine Or.inl ⟨none, b, by simp only [readAcquire, hat], ⟨hr, hw, hi, hri, hrd⟩, rfl, ?_,
      fun _ h => h⟩
    rw [held_eq, heq]
    exact heldAt_eq_nil_of_eq _ _ _
  · by_cases hinv : b.r = b.i
    · have hat : readAt b.r b.w b.i = (some 0, b.w, true) := by
        simp only [readAt, if_neg (Nat.ne_of_gt hgt), if_neg (Nat.not_lt.mpr (Nat.le_of_lt hgt)),
          if_pos hinv]
      have hacq : b.readAcquire = (some 0, b.w, { b with readWrapped := true }) := by
        simp only [readAcquire, hat]
      rcases Nat.eq_zero_or_pos b.w with hzero | hpos
      · refine Or.inl ⟨some 0, { b with readWrapped := true }, by rw [hacq, hzero],
          ⟨hr, hw, hi, hri, fun _ => ⟨hgt, hinv⟩⟩, rfl, ?_, fun _ h => h⟩
        rw [held_eq, heldAt, if_neg (by omega), hzero, hinv, Nat.sub_self, region_zero, region_zero,
          List.append_nil]
      · exact Or.inr ⟨0, b.w, _, hacq, hpos, rfl, rfl, rfl, rfl, rfl, readAt_offered hri hat⟩
    · have hclear : b.readWrapped = false := by
        by_contra hset
        exact hinv (hflag (by simpa using hset)).2
      have hat : readAt b.r b.w b.i = (some b.r, b.i - b.r, false) := by
        simp only [readAt, if_neg (Nat.ne_of_gt hgt), if_neg (Nat.not_lt.mpr (Nat.le_of_lt hgt)),
          if_neg hinv]
      have := hri hgt
      refine Or.inr ⟨b.r, b.i - b.r, b, by simp only [readAcquire, hat], by omega, rfl, rfl, rfl,
        rfl, rfl, ?_⟩
      rw [hclear]
      exact readAt_offered hri hat

/-- **A completed read drops what was read.**  The cells offered are the front
of the queue; releasing any number of them keeps the invariant and drops exactly
these; the assertion holds. -/
theorem read_correct (hb : b.Wf) {p len : ℕ} (hacq : b.readAcquire = (some p, len, b₁))
    (hpos : 0 < len) {k : ℕ} (hk : k ≤ len) :
    region b₁.data p len = b.held.take len ∧
    ∃ b₂, b₁.readRelease k = some b₂ ∧ b₂.Wf ∧ b₂.held = b.held.drop k ∧
      ∀ n, b.FlagFor n → b₂.FlagFor n := by
  rcases readAcquire_cases hb with
    ⟨p', b', h, -⟩ | ⟨p', len', b', h, -, hd, hr', hw', hi', hww, hoff⟩
  · rw [h] at hacq
    simp only [Prod.mk.injEq] at hacq
    omega
  · rw [h] at hacq
    obtain ⟨rfl, rfl, rfl⟩ : p' = p ∧ len' = len ∧ b' = b₁ := by simpa using hacq
    obtain ⟨hr, hw, hi, hri, hrd⟩ := hb
    refine ⟨by rw [hd]; exact region_offered hoff hri, ?_⟩
    obtain ⟨r', hrel, hr'lt, hr'i, hheld⟩ := heldAt_readRelease b.data hoff hw hi hk
    refine ⟨{ b' with readWrapped := false, r := r' }, ?_, ⟨hr'lt, by simpa [hw'] using hw,
      by simpa [hi'] using hi, by simpa [hw', hi'] using hr'i, by simp⟩, ?_, ?_⟩
    · rw [readRelease, hr', hrel]
      rfl
    · rw [held_eq, held_eq, ← hheld, hd, hw', hi']
    · intro n hf hset
      -- while the flag is set nothing is wrapped, so the read index only moved up to `_w`
      obtain ⟨hroom, hover⟩ := hf (by simpa [hww] using hset)
      have hle := hroom.le_write
      have hlt := hroom.lt_read
      have hclear : b'.readWrapped = false := by
        by_contra hwrapped
        have := (hoff.at_invalid (by simpa using hwrapped)).1
        omega
      have hbound := hoff.le_write hclear hle
      have hr'eq : b.r + k = r' := by
        rw [hclear, readReleaseAt_eq_some (by simp; omega)] at hrel
        simp only [Bool.false_eq_true, if_false] at hrel
        rw [if_neg (by omega)] at hrel
        exact Option.some.inj hrel
      simp only [hw']
      exact ⟨⟨by omega, by omega⟩, hover⟩

end BipartiteBuffer

end Io
end PsqlTcpProxy
