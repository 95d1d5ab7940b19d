import PsqlTcpProxy.Io.BipartiteBufSpec

/-!
# A drained bipartite buffer

An empty buffer does not stand at the front.  Its indexes meet wherever the last
write ended, or the write index is back at the front and the read index is parked
at the invalidate index.  What can be acquired then depends on the place:
`acquireAt_met` and `acquireAt_parked` say what.

For a caller whose requests are at most half of the buffer the place does not
matter (`Wf.acquires_of_drained`), as long as the invalidate index of wrapped
data lies beyond such a request.  `InvalidBeyond` is that condition; the two
clients reach it in different ways.
-/

namespace PsqlTcpProxy
namespace Io

open Library

variable {α : Type*}

/-- What can be acquired where the indexes meet. -/
theorem acquireAt_met {size p : ℕ} (hp : p < size) (n : ℕ) :
    acquireAt size p p n =
      if n ≤ size - p ∧ n < size then some (p, false)
      else if n < p then some (0, true) else none := by
  have hfree : calcFree size p p = size - 1 := by
    rw [calcFree_of_le (Nat.le_refl p), Nat.sub_self, Nat.sub_zero]
  simp only [acquireAt, hfree]
  by_cases hlinear : n ≤ size - p ∧ n < size
  · rw [if_pos hlinear, if_pos (by omega)]
  · rw [if_neg hlinear, if_neg (by omega)]
    by_cases hfront : n < p
    · rw [if_pos hfront, if_pos (by omega)]
    · rw [if_neg hfront, if_neg (by omega)]

/-- What can be acquired while the read index is parked. -/
theorem acquireAt_parked {size r n : ℕ} (hr : r ≤ size) (hn : n < r) :
    acquireAt size 0 r n = some (0, false) := by
  simp only [acquireAt, calcFree_of_lt (Nat.zero_lt_of_lt hn)]
  exact if_pos (by omega)

/-- One cell is refused only when none is free. -/
theorem acquireAt_one_eq_none_iff {size w r : ℕ} (hw : w < size) :
    acquireAt size w r 1 = none ↔ calcFree size w r = 0 := by
  simp only [acquireAt]
  by_cases hfree : calcFree size w r = 0
  · rw [if_neg (by omega), if_neg (by omega)]
    exact iff_of_true rfl hfree
  · rw [if_pos (by omega)]
    exact iff_of_false (Option.some_ne_none _) hfree

/-- **Half of the buffer can be acquired wherever the indexes meet.** -/
theorem acquireAt_met_ne_none {size p n : ℕ} (hp : p < size) (hhalf : 2 * n ≤ size) :
    acquireAt size p p n ≠ none := by
  rw [acquireAt_met hp]
  split
  · exact Option.some_ne_none _
  · rw [if_pos (by omega)]
    exact Option.some_ne_none _

namespace BipartiteBuffer

variable {size n p : ℕ} {b b₁ b₂ : BipartiteBuffer α size}

/-- Nothing held: the indexes meet, or the reader is about to follow the writer to
the front. -/
theorem held_eq_nil (hb : b.Wf) (hnil : b.held = []) : b.r = b.w ∨ (b.w = 0 ∧ b.r = b.i) := by
  unfold held at hnil
  split at hnil
  · rename_i hle
    have := region_eq_nil_iff.mp hnil
    left
    omega
  · rename_i hlt
    obtain ⟨htail, hfront⟩ := List.append_eq_nil_iff.mp hnil
    have := region_eq_nil_iff.mp htail
    have := region_eq_nil_iff.mp hfront
    have := hb.r_le_i (Nat.lt_of_not_le hlt)
    right
    omega

/-- Data wraps at an invalidate index beyond `n`. -/
def InvalidBeyond (n : ℕ) (b : BipartiteBuffer α size) : Prop := b.w < b.r → n < b.i

theorem invalidBeyond_init (data : ℕ → α) : (init data : BipartiteBuffer α size).InvalidBeyond n :=
  fun h => absurd h (Nat.lt_irrefl 0)

/-- A request succeeds as its decision does. -/
theorem writeAcquire_fst (b : BipartiteBuffer α size) (n : ℕ) :
    (b.writeAcquire n).1 = (acquireAt size b.w b.r n).map Prod.fst := by
  unfold writeAcquire
  rcases acquireAt size b.w b.r n with _ | ⟨p, _ | _⟩ <;> rfl

/-- **A drained buffer takes a chunk of half its size**, wherever its indexes are. -/
theorem Wf.acquires_of_drained (hb : b.Wf) (hinvalid : b.InvalidBeyond n) (hhalf : 2 * n ≤ size)
    (hnil : b.held = []) : (b.writeAcquire n).1 ≠ none := by
  rw [writeAcquire_fst, ne_eq, Option.map_eq_none_iff]
  rcases held_eq_nil hb hnil with heq | ⟨hw, hri⟩
  · rw [heq]
    exact acquireAt_met_ne_none hb.w_lt hhalf
  · rcases Nat.eq_zero_or_pos b.r with hzero | hpos
    · rw [hw, hzero]
      exact acquireAt_met_ne_none (hw ▸ hb.w_lt) hhalf
    · have hbeyond : n < b.r := hri ▸ hinvalid (hw ▸ hpos)
      rw [hw, acquireAt_parked (Nat.le_of_lt hb.r_lt) hbeyond]
      exact Option.some_ne_none _

/-- A write that wraps because `n` cells do not fit behind the write index wraps
beyond the other half. -/
theorem InvalidBeyond.write (hb : b.Wf) (hf : b.FlagFor n) (hinvalid : b.InvalidBeyond n)
    (hhalf : 2 * n ≤ size) (hacq : b.writeAcquire n = (some p, b₁)) {xs : List α}
    (hxs : xs.length ≤ n) (hrel : (b₁.store p xs).writeRelease xs.length = some b₂) :
    b₂.InvalidBeyond n := by
  intro hwr
  rcases write_cases hb hf hacq hxs with ⟨-, hroom, hrel'⟩ | ⟨-, hroom, hover, hrel'⟩
  · rw [hrel', Option.some.injEq] at hrel
    subst hrel
    change (if b.w + xs.length = size then 0 else b.w + xs.length) < b.r at hwr
    show n < max b.i (b.w + xs.length)
    have hw := hb.w_lt
    split at hwr
    · omega
    · have := hinvalid (by omega)
      omega
  · rw [hrel', Option.some.injEq] at hrel
    subst hrel
    show n < max b.w (0 + xs.length)
    omega

/-- Acquiring moves no index. -/
theorem InvalidBeyond.writeAcquire (hinvalid : b.InvalidBeyond n) :
    (b.writeAcquire n).2.InvalidBeyond n := by
  rcases b.writeAcquire_cases n with h | ⟨-, h⟩ | ⟨-, h⟩ <;> rw [h] <;> exact hinvalid

theorem readAcquire_indexes (b : BipartiteBuffer α size) :
    b.readAcquire.2.2.r = b.r ∧ b.readAcquire.2.2.w = b.w ∧ b.readAcquire.2.2.i = b.i ∧
      b.readAcquire.2.2.writeWrapped = b.writeWrapped := by
  unfold readAcquire
  rcases readAt b.r b.w b.i with ⟨p, len, _ | _⟩ <;> exact ⟨rfl, rfl, rfl, rfl⟩

theorem InvalidBeyond.readAcquire (hinvalid : b.InvalidBeyond n) :
    b.readAcquire.2.2.InvalidBeyond n := by
  obtain ⟨hr, hw, hi, -⟩ := b.readAcquire_indexes
  rw [InvalidBeyond, hr, hw, hi]
  exact hinvalid

/-- A read does not wrap data that was not wrapped, and moves nothing else. -/
theorem read_indexes (hb : b.Wf) {len : ℕ} (hacq : b.readAcquire = (some p, len, b₁))
    (hpos : 0 < len) {k : ℕ} (hk : k ≤ len) (hrel : b₁.readRelease k = some b₂) :
    b₂.w = b.w ∧ b₂.i = b.i ∧ b₂.writeWrapped = b.writeWrapped ∧ (b₂.w < b₂.r → b.w < b.r) := by
  rcases readAcquire_cases hb with
    ⟨p', b', h, -⟩ | ⟨p', len', b', h, -, -, hr, hw, hi, hww, hoff⟩
  · rw [h] at hacq
    simp only [Prod.mk.injEq] at hacq
    omega
  · rw [h] at hacq
    obtain ⟨rfl, rfl, rfl⟩ : p' = p ∧ len' = len ∧ b' = b₁ := by simpa using hacq
    obtain ⟨r', hr', rfl⟩ := Option.map_eq_some_iff.mp hrel
    refine ⟨hw, hi, hww, fun hwr => ?_⟩
    change b'.w < r' at hwr
    by_contra hle
    obtain ⟨hp, hbehind, -, hat⟩ := hoff
    have hwrapped : b'.readWrapped = false := by
      by_contra hset
      exact hle (hat (by simpa using hset)).1
    have hend := hbehind hwrapped (Nat.not_lt.mp hle)
    rw [hwrapped, readReleaseAt] at hr'
    simp only [Bool.false_eq_true, if_false, hr, Option.ite_none_right_eq_some,
      Option.some.injEq] at hr'
    obtain ⟨-, rfl⟩ := hr'
    have hlt := hb.w_lt
    rw [if_neg (by omega)] at hwr
    omega

theorem InvalidBeyond.read (hb : b.Wf) (hinvalid : b.InvalidBeyond n) {len : ℕ}
    (hacq : b.readAcquire = (some p, len, b₁)) (hpos : 0 < len) {k : ℕ} (hk : k ≤ len)
    (hrel : b₁.readRelease k = some b₂) : b₂.InvalidBeyond n := by
  obtain ⟨-, hi, -, hwraps⟩ := read_indexes hb hacq hpos hk hrel
  intro hwr
  rw [hi]
  exact hinvalid (hwraps hwr)

end BipartiteBuffer

end Io
end PsqlTcpProxy
