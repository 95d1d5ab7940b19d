import PsqlTcpProxy.Psql.QueryLog
import PsqlTcpProxy.Psql.QueryRoom

/-!
# Messages that fit

Every request of a message is answered on its own, but with the read index where it is when
`add_message` is called the answers can be told from the lengths: `Fits` says that the requests
have room one behind the other, at most one of them wrapping to the front.  The writer thread
can only move the read index on meanwhile, and that changes none of these answers
(`Fits.advance`): a request that had room behind the write index or at the front still has, and
in the same place.

A full buffer is the other case in which a message is answered the same way throughout.  There
the writer thread must not make room before the call is over.
-/

namespace PsqlTcpProxy

namespace Io

open Library

variable {α : Type*} {size : ℕ}

/-- The pieces have room one behind the other: all of them before the read index, or before the
end of the array, or the first `k` of them up to the end and the others at the front. -/
def Fits (size r w : ℕ) (pieces : List (List α)) : Prop :=
  if w < r then w + pieces.flatten.length < r
  else w + pieces.flatten.length < size ∨ ∃ k ≤ pieces.length,
    w + (pieces.take k).flatten.length ≤ size ∧ (pieces.drop k).flatten.length < r

instance (size r w : ℕ) (pieces : List (List α)) : Decidable (Fits size r w pieces) :=
  inferInstanceAs (Decidable (if w < r then _ else _))

/-- Where the next piece goes behind one of `n` cells at `p`. -/
def behind (size p n : ℕ) : ℕ := if p + n = size then 0 else p + n

theorem fits_of_lt {r w : ℕ} {pieces : List (List α)} (h : w < r) :
    Fits size r w pieces ↔ w + pieces.flatten.length < r := iff_of_eq (if_pos h)

theorem fits_of_le {r w : ℕ} {pieces : List (List α)} (h : r ≤ w) :
    Fits size r w pieces ↔ w + pieces.flatten.length < size ∨ ∃ k ≤ pieces.length,
      w + (pieces.take k).flatten.length ≤ size ∧ (pieces.drop k).flatten.length < r :=
  iff_of_eq (if_neg (Nat.not_lt.mpr h))

/-- `write_acquire` while the free cells are in one piece. -/
theorem acquireAt_of_lt {w r n : ℕ} (hwr : w < r) (hr : r < size) :
    acquireAt size w r n = if w + n < r then some (w, false) else none := by
  simp only [acquireAt, calcFree_of_lt hwr]
  by_cases hfits : w + n < r
  · rw [if_pos hfits, if_pos (by omega)]
  · rw [if_neg hfits, if_neg (by omega), if_neg (by omega)]

/-- `write_acquire` while the free cells are at both ends. -/
theorem acquireAt_of_le {w r n : ℕ} (hrw : r ≤ w) (hw : w < size) :
    acquireAt size w r n =
      if w + n < size ∨ (w + n = size ∧ 0 < r) then some (w, false)
      else if n < r then some (0, true) else none := by
  simp only [acquireAt, calcFree_of_le hrw]
  by_cases hfits : w + n < size ∨ (w + n = size ∧ 0 < r)
  · rw [if_pos hfits, if_pos (by omega)]
  · rw [if_neg hfits, if_neg (by omega)]
    by_cases hfront : n < r
    · rw [if_pos hfront, if_pos (by omega)]
    · rw [if_neg hfront, if_neg (by omega)]

/-- Nothing can be acquired, except for no cell at all. -/
theorem acquireAt_full {w r n : ℕ} (hw : w < size) (h : calcFree size w r = 0) :
    acquireAt size w r n = if n = 0 then some (w, false) else none := by
  simp only [acquireAt, h]
  by_cases hzero : n = 0
  · rw [if_pos hzero, if_pos (by omega)]
  · rw [if_neg hzero, if_neg (by omega), if_neg (by omega)]

theorem length_take_add_drop (pieces : List (List α)) (k : ℕ) :
    (pieces.take k).flatten.length + (pieces.drop k).flatten.length = pieces.flatten.length := by
  rw [← List.length_append, ← List.flatten_append, List.take_append_drop]

/-- The pieces are cut before the first one, or behind it. -/
theorem exists_cut_cons {r w : ℕ} {piece : List α} {pieces : List (List α)} (hw : w < size) :
    (∃ k ≤ (piece :: pieces).length, w + ((piece :: pieces).take k).flatten.length ≤ size ∧
        ((piece :: pieces).drop k).flatten.length < r) ↔
      piece.length + pieces.flatten.length < r ∨ ∃ k ≤ pieces.length,
        w + piece.length + (pieces.take k).flatten.length ≤ size ∧
          (pieces.drop k).flatten.length < r := by
  constructor
  · rintro ⟨_ | k, hk, hend, hfront⟩
    · rw [List.drop_zero, List.flatten_cons, List.length_append] at hfront
      exact .inl hfront
    · rw [List.take_succ_cons, List.flatten_cons, List.length_append, ← Nat.add_assoc] at hend
      exact .inr ⟨k, Nat.le_of_succ_le_succ hk, hend, hfront⟩
  · rintro (hfront | ⟨k, hk, hend, hfront⟩)
    · refine ⟨0, Nat.zero_le _, Nat.le_of_lt hw, ?_⟩
      rw [List.drop_zero, List.flatten_cons, List.length_append]
      exact hfront
    · refine ⟨k + 1, Nat.succ_le_succ hk, ?_, hfront⟩
      rw [List.take_succ_cons, List.flatten_cons, List.length_append, ← Nat.add_assoc]
      exact hend

/-- **The pieces fit** if the first one is granted, and the others fit behind it. -/
theorem fits_cons_iff {r w : ℕ} {piece : List α} {pieces : List (List α)} (hw : w < size)
    (hr : r < size) :
    Fits size r w (piece :: pieces) ↔ ∃ p wrapped,
      acquireAt size w r piece.length = some (p, wrapped) ∧
        Fits size r (behind size p piece.length) pieces := by
  have htotal : (piece :: pieces).flatten.length = piece.length + pieces.flatten.length := by
    rw [List.flatten_cons, List.length_append]
  rcases Nat.lt_or_ge w r with hwr | hrw
  · rw [fits_of_lt hwr, acquireAt_of_lt hwr hr, htotal]
    by_cases hfits : w + piece.length < r
    · have hbehind : behind size w piece.length = w + piece.length := if_neg (by omega)
      rw [if_pos hfits]
      simp only [Option.some.injEq, Prod.mk.injEq, ↓existsAndEq, and_true, true_and]
      rw [hbehind, fits_of_lt hfits]
      omega
    · rw [if_neg hfits]
      simp only [reduceCtorEq, false_and, exists_false, iff_false]
      omega
  · rw [fits_of_le hrw, exists_cut_cons hw, acquireAt_of_le hrw hw, htotal]
    by_cases hfits : w + piece.length < size ∨ (w + piece.length = size ∧ 0 < r)
    · rw [if_pos hfits]
      simp only [Option.some.injEq, Prod.mk.injEq, ↓existsAndEq, and_true, true_and]
      by_cases hend : w + piece.length = size
      · have hbehind : behind size w piece.length = 0 := if_pos hend
        rw [hbehind, fits_of_lt (by omega), Nat.zero_add]
        constructor
        · rintro (hlinear | hfront | ⟨k, -, hbefore, hfront⟩)
          · omega
          · omega
          · have hall := length_take_add_drop pieces k
            omega
        · intro hfront
          exact .inr (.inr ⟨0, Nat.zero_le _, Nat.le_of_eq hend, hfront⟩)
      · have hbehind : behind size w piece.length = w + piece.length := if_neg hend
        rw [hbehind, fits_of_le (by omega)]
        constructor
        · rintro (hlinear | hfront | hcut)
          · exact .inl (by omega)
          · refine .inr ⟨0, Nat.zero_le _, ?_, ?_⟩
            · rw [List.take_zero, List.flatten_nil, List.length_nil]
              omega
            · rw [List.drop_zero]
              omega
          · exact .inr hcut
        · rintro (hlinear | hcut)
          · exact .inl (by omega)
          · exact .inr (.inr hcut)
    · rw [if_neg hfits]
      have hcut : ¬ ∃ k ≤ pieces.length,
          w + piece.length + (pieces.take k).flatten.length ≤ size ∧
            (pieces.drop k).flatten.length < r := by
        rintro ⟨k, -, hbefore, hfront⟩
        omega
      by_cases hfront : piece.length < r
      · have hbehind : behind size 0 piece.length = piece.length := by
          rw [behind, if_neg (by omega), Nat.zero_add]
        rw [if_pos hfront]
        simp only [Option.some.injEq, Prod.mk.injEq, ↓existsAndEq, and_true, true_and]
        rw [hbehind, fits_of_lt hfront]
        constructor
        · rintro (hlinear | hfront | h)
          · omega
          · exact hfront
          · exact absurd h hcut
        · intro hfront
          exact .inr (.inl hfront)
      · rw [if_neg hfront]
        simp only [reduceCtorEq, false_and, exists_false, iff_false]
        rintro (hlinear | hfront | h)
        · omega
        · omega
        · exact hcut h

/-- **What had room still has**, when the read index moves on. -/
theorem Fits.advance {r r' w : ℕ} {pieces : List (List α)} (h : Fits size r w pieces)
    (hr : r < size) (hadv : Advances size w r r') : Fits size r' w pieces := by
  rcases Nat.lt_or_ge w r with hwr | hrw
  · rw [fits_of_lt hwr] at h
    rcases hadv.ahead hwr with ⟨hforward, -⟩ | hround
    · rw [fits_of_lt (by omega)]
      omega
    · rw [fits_of_le hround]
      exact .inl (by omega)
  · rw [fits_of_le hrw] at h
    have hforward := hadv.forward hrw
    rw [fits_of_le (hadv.behind hrw)]
    rcases h with hlinear | ⟨k, hk, hend, hfront⟩
    · exact .inl hlinear
    · exact .inr ⟨k, hk, hend, by omega⟩

/-- The read index moves on behind a piece that is in flight as well. -/
theorem Room.advances {r r' w n p : ℕ} {wrapped : Bool} (h : Room size r w n wrapped p)
    (hw : w < size) (hr : r < size) (hadv : Advances size w r r') :
    Advances size (behind size p n) r r' := by
  obtain ⟨hbehind, hforward, hahead⟩ := hadv
  unfold behind
  cases h with
  | linear h =>
    obtain ⟨hsize, hpos, hlt⟩ := h
    rcases Nat.lt_or_ge w r with hwr | hrw
    · have hread := hahead hwr
      have hend := hlt hwr
      rw [if_neg (by omega)]
      constructor <;> omega
    · split
      · constructor <;> omega
      · constructor <;> omega
  | wrap h =>
    obtain ⟨hrw, hlt⟩ := h
    split
    · constructor <;> omega
    · constructor <;> omega

/-- The write index once the piece in flight is released. -/
def ProducerPc.target (size w : ℕ) (pc : ProducerPc α) : ℕ :=
  match pc.region with
  | some (p, n) => behind size p n
  | none => w

namespace Spsc

/-- The write index the next request will find. -/
def target (s : Spsc α size) : ℕ := s.producer.target size s.buffer.w

/-- What `write_release` stores is what `target` says. -/
theorem target_of_releasing {b : BipartiteBuffer α size} {piece : List α} {p i w : ℕ}
    (hr : b.r < size) (h : Releasing b piece p i w) : behind size p piece.length = w := by
  obtain ⟨wrapped, hroom, -, hrel⟩ := h
  cases hroom with
  | linear hroom =>
    rw [releaseStart, if_neg (by decide), releaseAt_eq_some hroom.le_size] at hrel
    exact congrArg Prod.snd (Option.some.inj hrel)
  | wrap hroom =>
    have hlt := hroom.lt_read
    rw [releaseStart, if_pos rfl, releaseAt_eq_some (by simp only; omega)] at hrel
    exact congrArg Prod.snd (Option.some.inj hrel)

/-- The answer to a request. -/
theorem producerStep_answer {s t : Spsc α size} {piece : List α} {w : ℕ} (h : s.Inv)
    (hpc : s.producer = .acquiring piece w) (hstep : s.producerStep = some t) :
    t.buffer.r = s.buffer.r ∧ t.buffer.w = s.buffer.w ∧ s.target = s.buffer.w ∧
      ((acquireAt size s.buffer.w s.buffer.r piece.length = none ∧ t.target = s.buffer.w) ∨
        ∃ p wrapped, acquireAt size s.buffer.w s.buffer.r piece.length = some (p, wrapped) ∧
          t.target = behind size p piece.length) := by
  obtain ⟨b, pc, cpc, todo, accepted, consumed⟩ := s
  obtain rfl : pc = .acquiring piece w := hpc
  obtain ⟨-, rfl⟩ : b.writeWrapped = false ∧ w = b.w := h.producer
  rcases hacq : acquireAt size b.w b.r piece.length with _ | ⟨p, _ | _⟩
  · simp only [producerStep, hacq, Option.some.injEq] at hstep
    subst hstep
    exact ⟨rfl, rfl, rfl, .inl ⟨rfl, rfl⟩⟩
  · simp only [producerStep, hacq, Option.some.injEq] at hstep
    subst hstep
    exact ⟨rfl, rfl, rfl, .inr ⟨p, false, rfl, rfl⟩⟩
  · simp only [producerStep, hacq, Option.some.injEq] at hstep
    subst hstep
    exact ⟨rfl, rfl, rfl, .inr ⟨p, true, rfl, rfl⟩⟩

/-- Any other step of the producer. -/
theorem producerStep_target {s t : Spsc α size} (h : s.Inv)
    (hpc : ∀ piece w, s.producer ≠ .acquiring piece w) (hstep : s.producerStep = some t) :
    t.buffer.r = s.buffer.r ∧ t.target = s.target ∧
      (t.buffer.w = s.buffer.w ∨ t.buffer.w = s.target) := by
  obtain ⟨b, pc, cpc, todo, accepted, consumed⟩ := s
  cases pc with
  | idle =>
    cases todo with
    | nil =>
      obtain rfl := Option.some.inj hstep
      exact ⟨rfl, rfl, .inl rfl⟩
    | cons piece todo =>
      obtain rfl := Option.some.inj hstep
      exact ⟨rfl, rfl, .inl rfl⟩
  | acquiring piece w => exact absurd rfl (hpc piece w)
  | copying piece p k =>
    simp only [producerStep] at hstep
    rcases hget : piece[k]? with _ | x
    · rw [hget] at hstep
      by_cases hflag : b.writeWrapped = true
      · simp only [if_pos hflag, Option.map_eq_some_iff] at hstep
        obtain ⟨iw, -, rfl⟩ := hstep
        exact ⟨rfl, rfl, .inl rfl⟩
      · simp only [if_neg hflag, Option.some.injEq] at hstep
        subst hstep
        exact ⟨rfl, rfl, .inl rfl⟩
    · rw [hget] at hstep
      obtain rfl := Option.some.inj hstep
      exact ⟨rfl, rfl, .inl rfl⟩
  | loadingI piece p w =>
    simp only [producerStep, Option.map_eq_some_iff] at hstep
    obtain ⟨iw, -, rfl⟩ := hstep
    exact ⟨rfl, rfl, .inl rfl⟩
  | storingI piece p i w =>
    obtain rfl := Option.some.inj hstep
    exact ⟨rfl, rfl, .inl rfl⟩
  | storingW piece p w =>
    obtain rfl := Option.some.inj hstep
    obtain ⟨-, hrel⟩ : b.writeWrapped = false ∧ Releasing b piece p b.i w := h.producer
    have htarget : behind size p piece.length = w := target_of_releasing h.wf.r_lt hrel
    exact ⟨rfl, htarget.symm, .inr htarget.symm⟩

/-- **What waits fits.** -/
def Fitted (s : Spsc α size) : Prop := Fits size s.buffer.r s.target s.waiting

/-- The next request is granted. -/
theorem Fitted.granted {s : Spsc α size} {piece : List α} {w : ℕ} (h : s.Inv) (hfit : s.Fitted)
    (hpc : s.producer = .acquiring piece w) : s.granted piece w = true := by
  obtain ⟨b, pc, cpc, todo, accepted, consumed⟩ := s
  obtain rfl : pc = .acquiring piece w := hpc
  obtain ⟨-, rfl⟩ : b.writeWrapped = false ∧ w = b.w := h.producer
  obtain ⟨p, wrapped, hacq, -⟩ := (fits_cons_iff h.wf.w_lt h.wf.r_lt).mp hfit
  rw [Spsc.granted, hacq]
  rfl

theorem Fitted.producerStep {s t : Spsc α size} (h : s.Inv) (hfit : s.Fitted)
    (hstep : s.producerStep = some t) : t.Fitted := by
  rcases producerStep_waiting hstep with ⟨piece, w, hpc, hwait, -⟩ | ⟨hpc, hwait, -⟩
  · obtain ⟨hr, -, hnow, hanswer⟩ := producerStep_answer h hpc hstep
    rw [Fitted, hwait, hnow, fits_cons_iff h.wf.w_lt h.wf.r_lt] at hfit
    obtain ⟨p, wrapped, hacq, hrest⟩ := hfit
    rcases hanswer with ⟨hnone, -⟩ | ⟨p', wrapped', hacq', htarget⟩
    · rw [hacq] at hnone
      cases hnone
    · obtain ⟨rfl, -⟩ := Prod.mk.inj (Option.some.inj (hacq.symm.trans hacq'))
      rw [Fitted, hr, htarget]
      exact hrest
  · obtain ⟨hr, htarget, -⟩ := producerStep_target h hpc hstep
    rw [Fitted, hr, htarget, hwait]
    exact hfit

/-- **The consumer does not take room away.** -/
theorem Fitted.consumerStep {s t : Spsc α size} {more : Bool} (h : s.Inv) (hfit : s.Fitted)
    (hstep : s.consumerStep more = some t) : t.Fitted := by
  obtain ⟨hpc, htodo, -⟩ := consumerStep_frame hstep
  obtain ⟨-, hw, -, hadv, -⟩ := consumerStep_indexes h hstep
  have hwait : t.waiting = s.waiting := by rw [waiting, waiting, hpc, htodo]
  have htarget : t.target = s.target := by rw [target, target, hpc, hw]
  rw [Fitted, hwait, htarget]
  refine hfit.advance h.wf.r_lt ?_
  rw [target, ProducerPc.target]
  rcases hregion : s.producer.region with _ | ⟨p, n⟩
  · exact hadv
  · obtain ⟨wrapped, hroom⟩ := h.room hregion
    exact hroom.advances h.wf.w_lt h.wf.r_lt hadv

/-- No cell is free, and nothing in flight changes that. -/
structure Full (s : Spsc α size) : Prop where
  free : calcFree size s.buffer.w s.buffer.r = 0
  target_eq : s.target = s.buffer.w

theorem Full.refused {s : Spsc α size} {piece : List α} {w : ℕ} (h : s.Inv) (hfull : s.Full)
    (hpc : s.producer = .acquiring piece w) (hpiece : piece ≠ []) :
    s.granted piece w = false := by
  obtain ⟨b, pc, cpc, todo, accepted, consumed⟩ := s
  obtain rfl : pc = .acquiring piece w := hpc
  obtain ⟨-, rfl⟩ : b.writeWrapped = false ∧ w = b.w := h.producer
  have hlen : piece.length ≠ 0 := fun hlen => hpiece (List.length_eq_zero_iff.mp hlen)
  rw [Spsc.granted, acquireAt_full h.wf.w_lt hfull.free, if_neg hlen]
  rfl

theorem Full.producerStep {s t : Spsc α size} (h : s.Inv) (hfull : s.Full)
    (hstep : s.producerStep = some t) : t.Full := by
  obtain ⟨hfree, htarget⟩ := hfull
  rcases producerStep_waiting hstep with ⟨piece, w, hpc, -⟩ | ⟨hpc, -⟩
  · obtain ⟨hr, hw, -, hanswer⟩ := producerStep_answer h hpc hstep
    refine ⟨by rw [hr, hw, hfree], hw ▸ ?_⟩
    rcases hanswer with ⟨-, hnext⟩ | ⟨p, wrapped, hacq, hnext⟩
    · exact hnext
    · -- only the empty piece is granted
      rw [acquireAt_full h.wf.w_lt hfree] at hacq
      obtain ⟨hzero, hat⟩ := Option.ite_none_right_eq_some.mp hacq
      obtain ⟨rfl, -⟩ := Prod.mk.inj (Option.some.inj hat)
      have hlast := h.wf.w_lt
      rw [hnext, hzero, behind, if_neg (by omega), Nat.add_zero]
  · obtain ⟨hr, hnext, hw⟩ := producerStep_target h hpc hstep
    have hsame : t.buffer.w = s.buffer.w := hw.elim id fun hw => hw.trans htarget
    exact ⟨by rw [hr, hsame, hfree], by rw [hnext, hsame, htarget]⟩

theorem Full.consumerStep {s t : Spsc α size} {more : Bool} (h : s.Inv) (hfull : s.Full)
    (hstep : s.consumerStep more = some t) (hr : t.buffer.r = s.buffer.r) : t.Full := by
  obtain ⟨hpc, -⟩ := consumerStep_frame hstep
  obtain ⟨-, hw, -⟩ := consumerStep_indexes h hstep
  refine ⟨by rw [hr, hw, hfull.free], ?_⟩
  rw [target, hpc, hw]
  exact hfull.target_eq

/-- `_r` after the next step of the consumer. -/
def nextRead (s : Spsc α size) : ℕ :=
  match s.consumer with
  | .storingR _ _ _ r => r
  | _ => s.buffer.r

theorem consumerStep_nextRead {s t : Spsc α size} {more : Bool}
    (hstep : s.consumerStep more = some t) : t.buffer.r = s.nextRead := by
  obtain ⟨b, pc, cpc, todo, accepted, consumed⟩ := s
  cases cpc with
  | idle =>
    obtain rfl := Option.some.inj hstep
    rfl
  | acquiring r =>
    simp only [Spsc.consumerStep] at hstep
    split at hstep
    · obtain rfl := Option.some.inj hstep
      rfl
    · split at hstep
      · obtain rfl := Option.some.inj hstep
        rfl
      · obtain rfl := Option.some.inj hstep
        rfl
  | loadingI r w =>
    simp only [Spsc.consumerStep] at hstep
    split at hstep
    · obtain rfl := Option.some.inj hstep
      rfl
    · obtain rfl := Option.some.inj hstep
      rfl
  | reading q len k =>
    simp only [Spsc.consumerStep] at hstep
    split at hstep
    · obtain rfl := Option.some.inj hstep
      rfl
    · rw [Option.map_eq_some_iff] at hstep
      obtain ⟨r, -, rfl⟩ := hstep
      rfl
  | storingR q len k r =>
    obtain rfl := Option.some.inj hstep
    rfl

end Spsc

end Io

namespace Psql

open Library Io
open QueryProcessor hiding CHUNK_SZ BUFF_SZ

namespace QueryProcessor

/-- As the indexes stand, there is room for all requests of a message, or for none. -/
def FitsOrFull (b : QueryBuffer) (separator : UInt8) (message : Text) : Prop :=
  Fits BUFF_SZ b.r b.w (requests separator message) ∨ calcFree BUFF_SZ b.w b.r = 0

instance (b : QueryBuffer) (separator : UInt8) (message : Text) :
    Decidable (FitsOrFull b separator message) :=
  inferInstanceAs (Decidable (_ ∨ _))

/-! ## One call -/

variable {b b' : QueryBuffer} {pieces : List Text}

/-- Pieces are stored behind what is held, and no more than there are. -/
theorem Settled.run_writePiece (hb : Settled b) (h : run QueryProcessor.writePiece b pieces = some b') :
    ∃ kept, b'.held = b.held ++ kept ∧ kept.length ≤ pieces.flatten.length := by
  induction pieces generalizing b with
  | nil =>
    obtain rfl := Option.some.inj h
    exact ⟨[], (List.append_nil _).symm, Nat.le_refl 0⟩
  | cons piece pieces ih =>
    rw [List.flatten_cons, List.length_append]
    rcases hb.writePiece piece with
      ⟨-, hpiece⟩ | ⟨p, wrapped, b₁, -, hpiece, hb₁, hheld, -⟩
    · rw [run_cons, hpiece, Option.bind_some] at h
      obtain ⟨kept, hkept, hlen⟩ := ih hb h
      exact ⟨kept, hkept, Nat.le_add_left_of_le hlen⟩
    · rw [run_cons, hpiece, Option.bind_some] at h
      obtain ⟨kept, hkept, hlen⟩ := ih hb₁ h
      refine ⟨piece ++ kept, by rw [hkept, hheld, List.append_assoc], ?_⟩
      rw [List.length_append]
      exact Nat.add_le_add_left hlen _

/-- **All pieces are stored if and only if they fit.** -/
theorem Settled.stores_all_iff (hb : Settled b) (h : run QueryProcessor.writePiece b pieces = some b') :
    b'.held = b.held ++ pieces.flatten ↔ Fits BUFF_SZ b.r b.w pieces := by
  induction pieces generalizing b with
  | nil =>
    obtain rfl := Option.some.inj h
    have hw := hb.wf.w_lt
    refine iff_of_true (List.append_nil _).symm ?_
    rcases Nat.lt_or_ge b.w b.r with hwr | hrw
    · exact (fits_of_lt hwr).mpr hwr
    · exact (fits_of_le hrw).mpr (.inl hw)
  | cons piece pieces ih =>
    rw [fits_cons_iff hb.wf.w_lt hb.wf.r_lt]
    rcases hb.writePiece piece with
      ⟨hnone, hpiece⟩ | ⟨p, wrapped, b₁, hat, hpiece, hb₁, hheld, hr, hw⟩
    · -- what is refused is not empty, and it is missing at the end
      rw [run_cons, hpiece, Option.bind_some] at h
      obtain ⟨kept, hkept, hlen⟩ := hb.run_writePiece h
      refine iff_of_false (fun hall => ?_) ?_
      · have hmissing := congrArg List.length (List.append_cancel_left (hkept.symm.trans hall))
        rw [List.flatten_cons, List.length_append] at hmissing
        have hempty : piece.length = 0 := by omega
        rw [hempty] at hnone
        simp only [acquireAt, Nat.zero_le, if_true, reduceCtorEq] at hnone
      · rintro ⟨p, wrapped, hat, -⟩
        rw [hnone] at hat
        cases hat
    · rw [run_cons, hpiece, Option.bind_some] at h
      have hrest := ih hb₁ h
      rw [hheld, List.append_assoc, hr, hw] at hrest
      rw [List.flatten_cons, hrest]
      constructor
      · exact fun hfits => ⟨p, wrapped, hat, hfits⟩
      · rintro ⟨p', wrapped', hat', hfits⟩
        obtain ⟨rfl, -⟩ := Prod.mk.inj (Option.some.inj (hat.symm.trans hat'))
        exact hfits

/-- **Nothing is stored if and only if no cell is free**, where the last piece is one cell. -/
theorem Settled.stores_nothing_iff (hb : Settled b) (c : UInt8)
    (h : run QueryProcessor.writePiece b (pieces ++ [[c]]) = some b') :
    b'.held = b.held ↔ calcFree BUFF_SZ b.w b.r = 0 := by
  induction pieces generalizing b with
  | nil =>
    rw [List.nil_append, run_cons] at h
    rcases hb.writePiece [c] with
      ⟨hnone, hpiece⟩ | ⟨p, wrapped, b₁, hat, hpiece, -, hheld, -⟩
    · rw [hpiece] at h
      obtain rfl := Option.some.inj h
      exact iff_of_true rfl ((acquireAt_one_eq_none_iff hb.wf.w_lt).mp hnone)
    · rw [hpiece] at h
      obtain rfl := Option.some.inj h
      refine iff_of_false (fun hsame => ?_) fun hfull => ?_
      · rw [hheld] at hsame
        cases List.append_right_eq_self.mp hsame
      · have hnone := (acquireAt_one_eq_none_iff hb.wf.w_lt).mpr hfull
        cases hat.symm.trans hnone
  | cons piece pieces ih =>
    rw [List.cons_append, run_cons] at h
    rcases hb.writePiece piece with
      ⟨-, hpiece⟩ | ⟨p, wrapped, b₁, hat, hpiece, hb₁, hheld, hr, hw⟩
    · rw [hpiece, Option.bind_some] at h
      exact ih hb h
    · rw [hpiece, Option.bind_some] at h
      by_cases hempty : piece = []
      · -- an empty piece moves nothing
        subst hempty
        have hlast := hb.wf.w_lt
        have hsame : b₁.w = b.w := by
          have hat' : acquireAt BUFF_SZ b.w b.r 0 = some (b.w, false) := by
            simp only [acquireAt, Nat.zero_le, if_true]
          obtain ⟨rfl, -⟩ := Prod.mk.inj (Option.some.inj (hat.symm.trans hat'))
          rw [hw, List.length_nil, if_neg (by omega), Nat.add_zero]
        have hrest := ih hb₁ h
        rw [hheld, List.append_nil, hr, hsame] at hrest
        exact hrest
      · have hpos := List.length_pos_iff.mpr hempty
        refine iff_of_false (fun hsame => ?_) fun hfull => ?_
        · obtain ⟨kept, hkept, -⟩ := hb₁.run_writePiece h
          rw [hsame, hheld, List.append_assoc] at hkept
          have hnil := List.append_right_eq_self.mp hkept.symm
          exact hempty (List.append_eq_nil_iff.mp hnil).1
        · rw [acquireAt_full hb.wf.w_lt hfull, if_neg (Nat.ne_of_gt hpos)] at hat
          cases hat

/-- `_add_message` stores a message with its separator, or nothing of them. -/
def StoresWhole (q : QueryProcessor) (message : Text) : Prop :=
  ∃ q', q.addMessage message = some q' ∧
    (q'.queryBuffer.held = q.queryBuffer.held ++ record q.separator message ∨
      q'.queryBuffer.held = q.queryBuffer.held)

/-- **One call**, while the writer thread stands still. -/
theorem storesWhole_iff {q : QueryProcessor} (hq : Settled q.queryBuffer) (message : Text) :
    q.StoresWhole message ↔ FitsOrFull q.queryBuffer q.separator message := by
  obtain ⟨b, hrun, -⟩ := hq.pieces (requests q.separator message)
  have hadd : q.addMessage message = some { q with queryBuffer := b } := by
    rw [addMessage_eq, hrun, Option.map_some]
  have hall := hq.stores_all_iff hrun
  rw [flatten_requests] at hall
  have hnothing := hq.stores_nothing_iff q.separator hrun
  rw [FitsOrFull, ← hall, ← hnothing]
  constructor
  · rintro ⟨q', hq', hstores⟩
    obtain rfl := Option.some.inj (hadd.symm.trans hq')
    exact hstores
  · exact fun hstores => ⟨_, hadd, hstores⟩

end QueryProcessor

namespace QueryQueue

/-! ## Every interleaving -/

/-- When a message is added, its requests fit or the buffer is full; and while a message is
being added to a full buffer, the writer thread makes no room. -/
def Fitting (q : QueryQueue) : QueryTurn → Prop
  | .addMessage message => q.busy = false → FitsOrFull q.spsc.buffer q.separator message
  | .producer => True
  | .consumer _ => q.busy = true →
      calcFree QueryProcessor.BUFF_SZ q.spsc.buffer.w q.spsc.buffer.r = 0 →
        q.spsc.nextRead = q.spsc.buffer.r

instance (q : QueryQueue) : DecidablePred q.Fitting
  | .addMessage message => inferInstanceAs (Decidable
      (q.busy = false → FitsOrFull q.spsc.buffer q.separator message))
  | .producer => .isTrue trivial
  | .consumer _ => inferInstanceAs (Decidable (q.busy = true →
      calcFree QueryProcessor.BUFF_SZ q.spsc.buffer.w q.spsc.buffer.r = 0 →
        q.spsc.nextRead = q.spsc.buffer.r))

/-- What is still to be asked for fits, and nothing was refused; or no cell is free, and nothing
was granted. -/
def Answering (q : QueryQueue) : Prop :=
  (q.spsc.Fitted ∧ q.stored ≠ some false) ∨ (q.spsc.Full ∧ q.stored ≠ some true)

theorem busy_of_acquiring {q : QueryQueue} {piece : Text} {w : ℕ}
    (hpc : q.spsc.producer = .acquiring piece w) : q.busy = true := by
  unfold busy
  rw [hpc]

/-- **The next answer is like the ones before.** -/
theorem uniform_of_answering {q : QueryQueue} (hinv : q.spsc.Inv)
    (h : q.busy = true → q.Answering) (turn : QueryTurn) : q.Uniform turn := by
  cases turn with
  | addMessage message => trivial
  | consumer more => trivial
  | producer =>
    show q.AnsweredLike q.spsc.producer
    cases hpc : q.spsc.producer with
    | acquiring piece w =>
      intro hpiece first hfirst
      rw [Option.mem_def] at hfirst
      rcases h (busy_of_acquiring hpc) with ⟨hfit, hstored⟩ | ⟨hfull, hstored⟩
      · rw [hfit.granted hinv hpc]
        cases first with
        | true => rfl
        | false => exact absurd hfirst hstored
      · rw [hfull.refused hinv hpc hpiece]
        cases first with
        | true => exact absurd hfirst hstored
        | false => rfl
    | idle => trivial
    | copying piece p k => trivial
    | loadingI piece p w => trivial
    | storingI piece p i w => trivial
    | storingW piece p w => trivial

/-- A call begins. -/
theorem answering_addMessage {q : QueryQueue} (hbusy : q.busy = false) {message : Text}
    (h : FitsOrFull q.spsc.buffer q.separator message) {spsc : QueryThreads}
    (hspsc : q.spsc.step (.post (requests q.separator message)) = some spsc) :
    Answering ⟨spsc, q.separator, q.added ++ [message], [], none⟩ := by
  obtain ⟨hidle, htodo⟩ := idle_of_not_busy hbusy
  obtain rfl := Option.some.inj hspsc
  have htarget : Spsc.target { q.spsc with todo := q.spsc.todo ++ requests q.separator message } =
      q.spsc.buffer.w := by
    rw [Spsc.target, hidle]
    rfl
  rcases h with hfits | hfull
  · refine .inl ⟨?_, by rintro ⟨⟩⟩
    have hwait : Spsc.waiting { q.spsc with todo := q.spsc.todo ++ requests q.separator message } =
        requests q.separator message := by
      rw [Spsc.waiting, hidle, htodo]
      rfl
    rw [Spsc.Fitted, htarget, hwait]
    exact hfits
  · exact .inr ⟨⟨hfull, htarget⟩, by rintro ⟨⟩⟩

/-- The main thread goes on. -/
theorem Answering.producer {q : QueryQueue} (h : q.Answering) (hinv : q.spsc.Inv)
    {spsc : QueryThreads} (hspsc : q.spsc.producerStep = some spsc) :
    Answering { q.note with spsc } := by
  by_cases hpc : ∃ piece w, q.spsc.producer = .acquiring piece w
  · obtain ⟨piece, w, hpc⟩ := hpc
    rw [note_of_acquiring hpc]
    by_cases hpiece : piece = []
    · rcases h with ⟨hfit, hstored⟩ | ⟨hfull, hstored⟩
      · refine .inl ⟨hfit.producerStep hinv hspsc, ?_⟩
        rw [if_pos hpiece]
        exact hstored
      · refine .inr ⟨hfull.producerStep hinv hspsc, ?_⟩
        rw [if_pos hpiece]
        exact hstored
    · rcases h with ⟨hfit, hstored⟩ | ⟨hfull, hstored⟩
      · refine .inl ⟨hfit.producerStep hinv hspsc, ?_⟩
        rw [if_neg hpiece, hfit.granted hinv hpc]
        rcases hfirst : q.stored with _ | _ | _
        · rintro ⟨⟩
        · exact absurd hfirst hstored
        · rintro ⟨⟩
      · refine .inr ⟨hfull.producerStep hinv hspsc, ?_⟩
        rw [if_neg hpiece, hfull.refused hinv hpc hpiece]
        rcases hfirst : q.stored with _ | _ | _
        · rintro ⟨⟩
        · rintro ⟨⟩
        · exact absurd hfirst hstored
  · rw [note_of_ne fun piece w hpiece => hpc ⟨piece, w, hpiece⟩]
    rcases h with ⟨hfit, hstored⟩ | ⟨hfull, hstored⟩
    · exact .inl ⟨hfit.producerStep hinv hspsc, hstored⟩
    · exact .inr ⟨hfull.producerStep hinv hspsc, hstored⟩

/-- **One turn** leaves the answers as they were settled when the message was added. -/
theorem step_answering {q t : QueryQueue} {turn : QueryTurn} (hinv : q.spsc.Inv)
    (h : q.busy = true → q.Answering) (hfitting : q.Fitting turn) (hstep : q.step turn = some t) :
    t.busy = true → t.Answering := by
  intro htbusy
  cases turn with
  | addMessage message =>
    by_cases hbusy : q.busy = true
    · obtain rfl := Option.some.inj ((if_pos hbusy).symm.trans hstep)
      exact h htbusy
    · obtain ⟨spsc, hspsc, rfl⟩ := Option.map_eq_some_iff.mp ((if_neg hbusy).symm.trans hstep)
      have hidle : q.busy = false := by simpa using hbusy
      exact answering_addMessage hidle (hfitting hidle) hspsc
  | producer =>
    obtain ⟨spsc, hspsc, rfl⟩ := Option.map_eq_some_iff.mp hstep
    refine Answering.producer (h ?_) hinv hspsc
    -- a thread that has nothing to do stays where it is
    by_contra hbusy
    obtain ⟨hidle, htodo⟩ := idle_of_not_busy (by simpa using hbusy)
    have hsame : q.spsc.producerStep = some q.spsc := by
      simp only [Spsc.producerStep, hidle, htodo]
    obtain rfl := Option.some.inj (hsame.symm.trans hspsc)
    exact hbusy htbusy
  | consumer more =>
    obtain ⟨spsc, hspsc, rfl⟩ := Option.map_eq_some_iff.mp hstep
    obtain ⟨hpc, htodo, -⟩ := Spsc.consumerStep_frame hspsc
    have hbusy : q.busy = true := by
      simp only [busy, hpc, htodo] at htbusy
      exact htbusy
    rcases h hbusy with ⟨hfit, hstored⟩ | ⟨hfull, hstored⟩
    · exact .inl ⟨hfit.consumerStep hinv hspsc, hstored⟩
    · refine .inr ⟨hfull.consumerStep hinv hspsc ?_, hstored⟩
      rw [Spsc.consumerStep_nextRead hspsc]
      exact hfitting hbusy hfull.free

/-- **The log holds whole records.**  In every interleaving in which each message fits when it
is added, or finds the buffer full and stays without room: between two calls of `_add_message`
what was consumed and what is still buffered is the records of some of the messages, in order.
For a call by itself the condition is exact: after any history of calls, a message is stored with
its separator, or nothing of them, if and only if it fits or the buffer is full. -/
theorem log_of_whole_records (data : ℕ → UInt8) (separator : UInt8) :
    (∀ turns, Meets step Fitting (start data separator) turns →
      ∃ q, run step (start data separator) turns = some q ∧ (q.busy = false →
        ∃ kept : List Text, kept.Sublist q.added ∧
          q.spsc.consumed ++ q.spsc.buffered = kept.flatMap (record separator))) ∧
      ∀ history q message, run QueryProcessor.step (.init data separator) history = some q →
        (q.StoresWhole message ↔ FitsOrFull q.queryBuffer separator message) := by
  constructor
  · intro turns hfitting
    refine whole_of_uniform data separator turns (hfitting.imp
      (J := fun q => q.spsc.Inv ∧ (q.busy = true → q.Answering))
      ⟨inv_start data separator, by rintro ⟨⟩⟩
      (fun q turn h _ => uniform_of_answering h.1 h.2 turn)
      fun q turn t h hfits hstep => ⟨?_, step_answering h.1 h.2 hfits hstep⟩)
    obtain ⟨t', ht', hinv⟩ := step_inv q turn h.1
    obtain rfl := Option.some.inj (ht'.symm.trans hstep)
    exact hinv
  · intro history q message hrun
    obtain ⟨q', hrun', hsettled, hseparator⟩ := history_settled data separator history
    obtain rfl := Option.some.inj (hrun.symm.trans hrun')
    rw [← hseparator]
    exact storesWhole_iff hsettled message

/-- The messages `ab` and `c`: the first one is consumed when the second is added. -/
theorem log_of_whole_records_two : (∃ q,
    run step shortStart pairTurns = some q ∧ (q.busy = false →
      ∃ kept : List Text, kept.Sublist q.added ∧
        q.spsc.consumed ++ q.spsc.buffered = kept.flatMap (record 10))) ∧
    ∃ q, run QueryProcessor.step (.init (fun _ => 0) 10) pairHistory = some q ∧
      q.StoresWhole [97] := by
  constructor
  · refine (log_of_whole_records (fun _ => 0) 10).1 pairTurns
      (meets_pair (fun _ => .inl ?_) (by decide) (fun _ => .inl ?_) (by decide))
    · rw [requests_of_short _ (by decide)]
      decide
    · rw [requests_of_short _ (by decide)]
      decide
  · obtain ⟨q, hrun, hindexes⟩ := Option.map_eq_some_iff.mp pairHistory_indexes
    simp only [Prod.mk.injEq] at hindexes
    obtain ⟨hr, hw, -⟩ := hindexes
    refine ⟨q, hrun, ((log_of_whole_records (fun _ => 0) 10).2 _ q [97] hrun).mpr (.inl ?_)⟩
    rw [hr, hw, requests_of_short _ (by decide)]
    decide

/-! ## The other case -/

/-- A piece that fits behind the write index. -/
theorem writePiece_behind {b : QueryBuffer} {piece : Text} {r w len : ℕ}
    (hr : b.r = r) (hw : b.w = w) (hlen : piece.length = len) (hflag : b.writeWrapped = false)
    (hacq : acquireAt QueryProcessor.BUFF_SZ w r len = some (w, false))
    (hfit : w + len < QueryProcessor.BUFF_SZ) :
    ∃ b', writePiece b piece = some b' ∧ b'.r = r ∧ b'.w = w + len ∧ b'.writeWrapped = false := by
  subst hr hw hlen
  have hrel := releaseAt_eq_some (i := b.i) (Nat.le_of_lt hfit)
  rw [if_neg (Nat.ne_of_lt hfit)] at hrel
  refine ⟨{ b.store b.w piece with
    writeWrapped := false, i := max b.i (b.w + piece.length), w := b.w + piece.length },
    ?_, rfl, rfl, rfl⟩
  rw [writePiece, BipartiteBuffer.writeAcquire, hacq]
  simp only [BipartiteBuffer.writeRelease, BipartiteBuffer.store, hflag, releaseStart,
    Bool.false_eq_true, if_false]
  exact congrArg (Option.map _) hrel

/-- A piece without room is skipped. -/
theorem writePiece_skipped {b : QueryBuffer} {piece : Text} {r w len : ℕ}
    (hr : b.r = r) (hw : b.w = w) (hlen : piece.length = len)
    (hacq : acquireAt QueryProcessor.BUFF_SZ w r len = none) : writePiece b piece = some b := by
  subst hr hw hlen
  rw [writePiece, BipartiteBuffer.writeAcquire, hacq]

/-- **The separator is dropped.**  `_add_message` stores a message of `2047`
characters in two pieces that fill the buffer, and nothing else. -/
theorem addMessage_fills (data : ℕ → UInt8) (separator : UInt8) {message : Text}
    (hlen : message.length = 2047) :
    ∃ p, addMessage (.init data separator) message = some p ∧
      p.queryBuffer.held.length = message.length := by
  have hsecond : (message.drop 1025).length = 1022 := by rw [List.length_drop, hlen]
  have hrequests : requests separator message =
      [message.take 1025, message.drop 1025, [separator]] := by
    rw [requests, messagePieces_of_long (by rw [hlen]; decide),
      messagePieces_of_short (by rw [hsecond]; decide)]
    rfl
  obtain ⟨b₁, hone, hr₁, hw₁, hflag₁⟩ := writePiece_behind (b := .init data) (r := 0) (w := 0)
    rfl rfl (List.length_take_of_le (i := 1025) (l := message) (by omega)) rfl (by decide)
    (by decide)
  obtain ⟨b₂, htwo, hr₂, hw₂, -⟩ := writePiece_behind hr₁ hw₁ hsecond hflag₁ (by decide) (by decide)
  have hthree : writePiece b₂ [separator] = some b₂ :=
    writePiece_skipped hr₂ hw₂ List.length_singleton (by decide)
  refine ⟨⟨b₂, separator⟩, ?_, ?_⟩
  · rw [addMessage_eq, QueryProcessor.init]
    simp only [hrequests, run_cons, run_nil, hone, htwo, hthree, Option.bind_some, Option.map_some]
  · show b₂.held.length = _
    rw [BipartiteBuffer.held_eq, heldAt, if_pos (by omega), length_region]
    omega

/-- A message whose separator was dropped is no record. -/
theorem separator_dropped :
    ∃ turns q, run step (start (fun _ => 0) 10) turns = some q ∧ q.busy = false ∧
      ¬ ∃ kept : List Text, kept.Sublist q.added ∧
        q.spsc.consumed ++ q.spsc.buffered = kept.flatMap (record 10) := by
  obtain ⟨p, hadd, hheld⟩ := addMessage_fills (fun _ => 0) 10
    (List.length_replicate (n := 2047) (a := (97 : UInt8)))
  obtain ⟨n, q, hrun, hbusy, hbuffer, hconsumer, hconsumed, hadded⟩ :=
    run_addMessage (q := start (fun _ => 0) 10) rfl hadd
  refine ⟨_, q, hrun, hbusy, ?_⟩
  rintro ⟨kept, hsub, heq⟩
  have hlen : (q.spsc.consumed ++ q.spsc.buffered).length = 2047 := by
    rw [hconsumed, Spsc.buffered, hconsumer, hbuffer]
    exact hheld.trans List.length_replicate
  rw [heq] at hlen
  rw [hadded] at hsub
  have hkept : kept = [] ∨ kept = [List.replicate 2047 97] :=
    List.sublist_singleton.mp hsub
  rcases hkept with rfl | rfl
  · cases hlen
  · rw [List.flatMap_singleton, record, List.length_append, List.length_replicate,
      List.length_singleton] at hlen
    omega

end QueryQueue

end Psql
end PsqlTcpProxy
