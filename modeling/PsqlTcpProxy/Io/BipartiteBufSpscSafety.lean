import PsqlTcpProxy.Io.BipartiteBufSpsc

/-!
# Every interleaving is safe

`Spsc.Inv` survives every step of either thread, so it holds in every state of
every interleaving, and no assertion fails.  What it says is the sequential
correctness of the buffer, stretched over the half-finished operations:

* the producer's region stays free while the consumer moves `_r`
  (`Room.of_readRelease`);
* the consumer's region stays held while the producer stores `_i` and then `_w`
  (`Offered.of_i`, `Releasing.offered`).  Storing `_i` first is harmless because
  `_i` changes only when no wrapped data is left;
* a stale `_w` in `read_acquire` matters only before a load of `_i`, and there
  `_w < _r`, so that the producer can neither reach `_r` nor change `_i`.
-/

namespace PsqlTcpProxy
namespace Io

open Library

variable {α : Type*} {size : ℕ}

/-! ## Each side under the other's stores -/

/-- Moving `_r` over cells that were held leaves the producer's room free. -/
theorem Room.of_readRelease {r w i n p q len k r' : ℕ} {wrapped readWrapped : Bool}
    (hroom : Room size r w n wrapped p) (hoff : Offered r w i readWrapped q len)
    (hk : k ≤ len) (hw : w < size) (hi : i ≤ size)
    (hrel : readReleaseAt size readWrapped r k = some r') : Room size r' w n wrapped p := by
  obtain ⟨-, hle, hlt, hat⟩ := hoff
  cases readWrapped with
  | true =>
    obtain ⟨hwr, rfl, hlen⟩ := hat rfl
    rw [readReleaseAt_eq_some (by simp only [if_true]; omega)] at hrel
    simp only [if_true, Option.some.injEq] at hrel
    rw [if_neg (by omega)] at hrel
    cases hroom with
    | linear h =>
      have := h.lt_read hwr
      exact .linear ⟨h.le_size, by omega, by omega⟩
    | wrap h =>
      have := h.le_write
      omega
  | false =>
    have hb : r + k ≤ if r ≤ w then w else i := by
      split
      · have := hle rfl ‹_›
        omega
      · have := hlt rfl (by omega)
        omega
    rw [readReleaseAt_eq_some (by simp only [Bool.false_eq_true, if_false]; split at hb <;> omega)]
      at hrel
    simp only [Bool.false_eq_true, if_false, Option.some.injEq] at hrel
    cases hroom with
    | linear h =>
      have h₁ := h.le_size
      have h₂ := h.pos_of_full
      have h₃ := h.lt_read
      refine .linear ⟨h₁, ?_, ?_⟩
      · intro _ hfull
        split at hb <;> split at hrel <;> omega
      · intro _
        split at hb <;> split at hrel <;> omega
    | wrap h =>
      have h₁ := h.le_write
      have h₂ := h.lt_read
      rw [if_pos h₁] at hb
      rw [if_neg (by omega)] at hrel
      exact .wrap ⟨by omega, by omega⟩

/-- Storing `_i` changes it only while nothing is wrapped. -/
theorem Releasing.i_eq {b : BipartiteBuffer α size} {piece : List α} {p i w : ℕ}
    (hb : b.Wf) (h : Releasing b piece p i w) : b.w < b.r → i = b.i := by
  intro hwr
  obtain ⟨wrapped, hroom, -, hrel⟩ := h
  cases hroom with
  | linear h =>
    have := h.lt_read hwr
    have := hb.r_le_i hwr
    rw [releaseStart, if_neg (by decide), releaseAt_eq_some h.le_size] at hrel
    simp only [Option.some.injEq, Prod.mk.injEq] at hrel
    omega
  | wrap h =>
    have := h.le_write
    omega

theorem Releasing.i_le {b : BipartiteBuffer α size} {piece : List α} {p i w : ℕ}
    (hb : b.Wf) (h : Releasing b piece p i w) : i ≤ size := by
  have hi := hb.i_le
  have hw := hb.w_lt
  have hr := hb.r_lt
  obtain ⟨wrapped, hroom, -, hrel⟩ := h
  cases hroom with
  | linear h =>
    have hsize := h.le_size
    rw [releaseStart, if_neg (by decide), releaseAt_eq_some hsize] at hrel
    simp only [Option.some.injEq, Prod.mk.injEq] at hrel
    omega
  | wrap h =>
    have := h.lt_read
    rw [releaseStart, if_pos rfl, releaseAt_eq_some (by simp only; omega)] at hrel
    simp only [Option.some.injEq, Prod.mk.injEq] at hrel
    omega

theorem Offered.of_i {r w i i' q len : ℕ} {wrapped : Bool} (h : Offered r w i wrapped q len)
    (hi : w < r → i' = i) : Offered r w i' wrapped q len := by
  obtain ⟨hq, hle, hlt, hat⟩ := h
  refine ⟨hq, hle, fun hf hwr => ?_, fun ht => ?_⟩
  · rw [hi hwr]
    exact hlt hf hwr
  · obtain ⟨hwr, hri, hlen⟩ := hat ht
    exact ⟨hwr, by rw [hi hwr]; exact hri, hlen⟩

theorem heldAt_of_i {mem : ℕ → α} {r w i i' : ℕ} (hi : w < r → i' = i) :
    heldAt mem r w i' = heldAt mem r w i := by
  unfold heldAt
  split
  · rfl
  · rw [hi (by omega)]

/-- What storing `_w` does, once `_i` is stored. -/
structure WStored (b : BipartiteBuffer α size) (piece : List α) (w : ℕ) : Prop where
  wf : ({ b with w } : BipartiteBuffer α size).Wf
  held : ({ b with w } : BipartiteBuffer α size).held = b.held ++ piece
  /-- The consumer's region stays held. -/
  offered : ∀ wrapped q len, Offered b.r b.w b.i wrapped q len → Offered b.r w b.i wrapped q len
  /-- The producer does not pass the consumer. -/
  behind : b.w < b.r → b.w ≤ w ∧ w < b.r

/-- **The store of `_w`** makes the piece held and disturbs nothing. -/
theorem Releasing.wStored {b : BipartiteBuffer α size} {piece : List α} {p w : ℕ}
    (hb : b.Wf) (h : Releasing b piece p b.i w) : WStored b piece w := by
  obtain ⟨hr, hw, hi, hri, hrd⟩ := hb
  obtain ⟨wrapped, hroom, hfilled, hrel⟩ := h
  cases hroom with
  | linear hroom =>
    have hsize := hroom.le_size
    have hfull := hroom.pos_of_full
    have hlt := hroom.lt_read
    rw [releaseStart, if_neg (by decide), releaseAt_eq_some hsize] at hrel
    simp only [Option.some.injEq, Prod.mk.injEq] at hrel
    obtain ⟨himax, hw'⟩ := hrel
    have hheld := heldAt_release_linear hroom hi hri hfilled
    rw [himax, hw'] at hheld
    have hbound : w < size ∧ (b.r ≤ b.w → w < b.r → b.w + piece.length ≤ b.i ∧ b.r ≤ b.i) := by
      split at hw' <;> omega
    have hbehind : b.w < b.r → b.w ≤ w ∧ w < b.r := fun hwr => by
      have := hlt hwr
      split at hw' <;> omega
    refine ⟨⟨hr, hbound.1, hi, ?_, ?_⟩, hheld, ?_, hbehind⟩
    · intro hwr
      rcases Nat.lt_or_ge b.w b.r with h | h
      · exact hri h
      · exact (hbound.2 h hwr).2
    · intro hset
      obtain ⟨hwr, heq⟩ := hrd hset
      exact ⟨(hbehind hwr).2, heq⟩
    · intro wrapped q len hoff
      refine ⟨hoff.start, ?_, ?_, ?_⟩
      · intro hf hrw
        rcases Nat.lt_or_ge b.w b.r with h | h
        · have := (hbehind h).2
          omega
        · have := hoff.le_write hf h
          split at hw' <;> omega
      · intro hf hwr
        rcases Nat.lt_or_ge b.w b.r with h | h
        · exact hoff.le_invalid hf h
        · have := hoff.le_write hf h
          have := (hbound.2 h hwr).1
          omega
      · intro ht
        obtain ⟨hwr, heq, hlen⟩ := hoff.at_invalid ht
        have := hbehind hwr
        exact ⟨this.2, heq, by omega⟩
  | wrap hroom =>
    have hle := hroom.le_write
    have hlt := hroom.lt_read
    rw [releaseStart, if_pos rfl, releaseAt_eq_some (by simp only; omega)] at hrel
    simp only [Option.some.injEq, Prod.mk.injEq] at hrel
    obtain ⟨himax, hw'⟩ := hrel
    have hheld := heldAt_release_wrap (i := b.i) hroom hw hfilled
    rw [himax, hw'] at hheld
    rw [if_neg (by omega)] at hw'
    refine ⟨⟨hr, ?_, hi, ?_, ?_⟩, hheld, ?_, ?_⟩
    · show w < size
      omega
    · intro _
      show b.r ≤ b.i
      omega
    · intro hset
      have := (hrd hset).1
      omega
    · intro wrapped q len hoff
      refine ⟨hoff.start, ?_, ?_, ?_⟩
      · intro _ hrw
        omega
      · intro hf _
        have := hoff.le_write hf hle
        omega
      · intro ht
        have := (hoff.at_invalid ht).1
        omega
    · intro hwr
      omega

/-- The two regions never share a cell. -/
theorem Room.disjoint {r w i n p q len : ℕ} {wrapped readWrapped : Bool}
    (hroom : Room size r w n wrapped p) (hoff : Offered r w i readWrapped q len) (k : ℕ) :
    ¬ (p ≤ k ∧ k < p + n ∧ q ≤ k ∧ k < q + len) := by
  rintro ⟨hpk, hkp, hqk, hkq⟩
  obtain ⟨hq, hle, hlt, hat⟩ := hoff
  cases readWrapped with
  | true =>
    obtain ⟨hwr, -, hlen⟩ := hat rfl
    simp only [if_true] at hq
    cases hroom with
    | linear h => omega
    | wrap h =>
      have := h.le_write
      omega
  | false =>
    simp only [Bool.false_eq_true, if_false] at hq
    cases hroom with
    | linear h =>
      rcases Nat.lt_or_ge w r with hwr | hrw
      · have := h.lt_read hwr
        omega
      · have := hle rfl hrw
        omega
    | wrap h =>
      have := h.lt_read
      omega

/-! ## The producer -/

/-- Copying into the room leaves the queue alone. -/
theorem Room.held_blit {b : BipartiteBuffer α size} {n p k : ℕ} {wrapped : Bool} {xs : List α}
    (hroom : Room size b.r b.w n wrapped p) (hk : k + xs.length ≤ n) :
    ({ b with data := blit b.data (p + k) xs } : BipartiteBuffer α size).held = b.held := by
  cases hroom with
  | linear h => exact heldAt_blit_linear (w := b.w) h (by omega) (by omega)
  | wrap h => exact heldAt_blit_wrap (w := b.w) h (by omega)

/-- What a successful `write_acquire` hands out. -/
theorem Room.of_acquireAt {r w n p : ℕ} {wrapped : Bool} (hw : w < size) (hr : r < size)
    (h : acquireAt size w r n = some (p, wrapped)) : Room size r w n wrapped p := by
  cases wrapped with
  | false =>
    obtain ⟨rfl, hroom⟩ := acquireAt_linear hw h
    exact .linear hroom
  | true =>
    obtain ⟨rfl, hroom, -⟩ := acquireAt_wrapped hw hr h
    exact .wrap hroom

/-- The assertion of `write_release` holds. -/
theorem Room.releaseAt {r w n p : ℕ} {wrapped : Bool} (hroom : Room size r w n wrapped p)
    (hr : r < size) (i : ℕ) :
    ∃ iw, releaseAt size (releaseStart wrapped w i).1 (releaseStart wrapped w i).2 n = some iw := by
  cases hroom with
  | linear h => exact ⟨_, releaseAt_eq_some h.le_size⟩
  | wrap h =>
    have hlt := h.lt_read
    have hsize : 0 + n ≤ size := by omega
    exact ⟨_, releaseAt_eq_some hsize⟩

/-- A piece that is acquired is in flight. -/
theorem StreamOk.accept {consumed held piece : List α} {taken : ℕ} {accepted : List (List α)}
    (h : StreamOk consumed held [] taken accepted) :
    StreamOk consumed held piece taken (accepted ++ [piece]) := by
  obtain ⟨released, hconsumed, htotal⟩ := h
  refine ⟨released, hconsumed, ?_⟩
  rw [List.flatten_append, ← htotal, List.flatten_singleton, List.append_nil]

/-- A piece that is released is held. -/
theorem StreamOk.release {consumed held piece : List α} {taken : ℕ} {accepted : List (List α)}
    (h : StreamOk consumed held piece taken accepted) (htaken : taken ≤ held.length) :
    StreamOk consumed (held ++ piece) [] taken accepted := by
  obtain ⟨released, hconsumed, htotal⟩ := h
  refine ⟨released, ?_, ?_⟩
  · rw [List.take_append_of_le_length htaken]
    exact hconsumed
  · rw [List.append_nil, ← List.append_assoc]
    exact htotal

/-- The consumer has not taken more than there is. -/
theorem ConsumerOk.taken_le {b : BipartiteBuffer α size} (hb : b.Wf) {cpc : ConsumerPc}
    (h : ConsumerOk b cpc) : cpc.taken ≤ b.held.length := by
  have hoffered {wrapped : Bool} {q len k : ℕ} (hoff : Offered b.r b.w b.i wrapped q len)
      (hk : k ≤ len) : k ≤ b.held.length := by
    have hregion : (region b.data q len).length = (b.held.take len).length :=
      congrArg List.length (region_offered hoff hb.r_le_i)
    rw [length_region, List.length_take] at hregion
    omega
  cases cpc with
  | idle => exact Nat.zero_le _
  | acquiring r => exact Nat.zero_le _
  | loadingI r w => exact Nat.zero_le _
  | reading q len k => exact hoffered h.2 h.1
  | storingR q len k r =>
    obtain ⟨-, hk, wrapped, hoff, -⟩ := h
    exact hoffered hoff hk

/-- The consumer does not notice the store of `_i`. -/
theorem ConsumerOk.of_i {b : BipartiteBuffer α size} {cpc : ConsumerPc} {i : ℕ}
    (h : ConsumerOk b cpc) (hi : b.w < b.r → i = b.i) :
    ConsumerOk ({ b with i } : BipartiteBuffer α size) cpc := by
  cases cpc with
  | idle => trivial
  | acquiring r => exact h
  | loadingI r w => exact h
  | reading q len k => exact ⟨h.1, h.2.of_i hi⟩
  | storingR q len k r =>
    obtain ⟨hflag, hk, wrapped, hoff, hrel⟩ := h
    exact ⟨hflag, hk, wrapped, hoff.of_i hi, hrel⟩

/-- The store of `_w` leaves the consumer what it relies on. -/
theorem ConsumerOk.of_w {b : BipartiteBuffer α size} {cpc : ConsumerPc} {w : ℕ}
    {piece : List α} (h : ConsumerOk b cpc) (hw : WStored b piece w) :
    ConsumerOk ({ b with w } : BipartiteBuffer α size) cpc := by
  cases cpc with
  | idle => trivial
  | acquiring r => exact h
  | loadingI r w' =>
    obtain ⟨hr, hle, hlt⟩ := h
    have := hw.behind hlt
    exact ⟨hr, Nat.le_trans hle this.1, this.2⟩
  | reading q len k => exact ⟨h.1, hw.offered _ _ _ h.2⟩
  | storingR q len k r =>
    obtain ⟨hflag, hk, wrapped, hoff, hrel⟩ := h
    exact ⟨hflag, hk, wrapped, hw.offered _ _ _ hoff, hrel⟩

namespace Spsc

variable {b : BipartiteBuffer α size} {pc : ProducerPc α} {cpc : ConsumerPc}
  {todo accepted : List (List α)} {consumed piece : List α}

theorem producerStep_acquiring {w : ℕ}
    (h : Inv ⟨b, .acquiring piece w, cpc, todo, accepted, consumed⟩) :
    ∃ t, producerStep ⟨b, .acquiring piece w, cpc, todo, accepted, consumed⟩ = some t ∧ t.Inv := by
  obtain ⟨hflag, rfl⟩ : b.writeWrapped = false ∧ w = b.w := h.producer
  rcases hacq : acquireAt size b.w b.r piece.length with _ | ⟨p, wrapped⟩
  · exact ⟨⟨b, .idle, cpc, todo, accepted, consumed⟩, by simp only [producerStep, hacq],
      h.wf, hflag, h.consumer, h.stream⟩
  · have hroom := Room.of_acquireAt h.wf.w_lt h.wf.r_lt hacq
    have hstream : StreamOk consumed b.held piece cpc.taken (accepted ++ [piece]) :=
      StreamOk.accept h.stream
    cases wrapped with
    | false =>
      refine ⟨⟨b, .copying piece p 0, cpc, todo, accepted ++ [piece], consumed⟩,
        by simp only [producerStep, hacq], h.wf, ⟨Nat.zero_le _, ?_, rfl⟩, h.consumer, hstream⟩
      rw [hflag]
      exact hroom
    | true =>
      exact ⟨⟨{ b with writeWrapped := true }, .copying piece p 0, cpc, todo, accepted ++ [piece],
        consumed⟩, by simp only [producerStep, hacq],
        ⟨h.wf.r_lt, h.wf.w_lt, h.wf.i_le, h.wf.r_le_i, h.wf.read_wrapped⟩,
        ⟨Nat.zero_le _, hroom, rfl⟩, h.consumer, hstream⟩

theorem producerStep_copying {p k : ℕ}
    (h : Inv ⟨b, .copying piece p k, cpc, todo, accepted, consumed⟩) :
    ∃ t, producerStep ⟨b, .copying piece p k, cpc, todo, accepted, consumed⟩ = some t ∧ t.Inv := by
  obtain ⟨hk, hroom, hcopied⟩ : k ≤ piece.length ∧
    Room size b.r b.w piece.length b.writeWrapped p ∧ region b.data p k = piece.take k := h.producer
  rcases hget : piece[k]? with _ | x
  · -- the copy is done
    obtain rfl : k = piece.length := by
      have := List.getElem?_eq_none_iff.mp hget
      omega
    rw [List.take_length] at hcopied
    rcases hflag : b.writeWrapped with _ | _
    · rw [hflag] at hroom
      exact ⟨⟨b, .loadingI piece p b.w, cpc, todo, accepted, consumed⟩,
        by simp only [producerStep, hget, hflag, Bool.false_eq_true, if_false], h.wf,
        ⟨hflag, rfl, hroom, hcopied⟩, h.consumer, h.stream⟩
    · rw [hflag] at hroom
      obtain ⟨iw, hrel⟩ := hroom.releaseAt h.wf.r_lt b.i
      refine ⟨⟨{ b with writeWrapped := false }, .storingI piece p iw.1 iw.2, cpc, todo, accepted,
        consumed⟩, ?_, ⟨h.wf.r_lt, h.wf.w_lt, h.wf.i_le, h.wf.r_le_i, h.wf.read_wrapped⟩,
        ⟨rfl, true, hroom, hcopied, hrel⟩, h.consumer, h.stream⟩
      simp only [producerStep, hget, hflag, if_true]
      exact congrArg (Option.map _) hrel
  · have hlt : k < piece.length := (List.getElem?_eq_some_iff.mp hget).1
    have hheld :
        ({ b with data := blit b.data (p + k) [x] } : BipartiteBuffer α size).held = b.held :=
      hroom.held_blit (by rw [List.length_singleton]; omega)
    refine ⟨⟨{ b with data := blit b.data (p + k) [x] }, .copying piece p (k + 1), cpc, todo,
      accepted,
      consumed⟩, by simp only [producerStep, hget],
      ⟨h.wf.r_lt, h.wf.w_lt, h.wf.i_le, h.wf.r_le_i, h.wf.read_wrapped⟩, ⟨hlt, hroom, ?_⟩,
      h.consumer, ?_⟩
    · have hnext := region_blit_append b.data p k [x]
      rw [hcopied] at hnext
      rw [List.take_add_one, hget]
      exact hnext
    · show StreamOk consumed _ piece cpc.taken accepted
      rw [hheld]
      exact h.stream

theorem producerStep_storingI {p i w : ℕ}
    (h : Inv ⟨b, .storingI piece p i w, cpc, todo, accepted, consumed⟩) :
    ∃ t, producerStep ⟨b, .storingI piece p i w, cpc, todo, accepted, consumed⟩ = some t ∧
      t.Inv := by
  obtain ⟨hflag, hrel⟩ : b.writeWrapped = false ∧ Releasing b piece p i w := h.producer
  have hi : b.w < b.r → i = b.i := hrel.i_eq h.wf
  refine ⟨⟨{ b with i }, .storingW piece p w, cpc, todo, accepted, consumed⟩, rfl, ?_, ?_,
    h.consumer.of_i hi, ?_⟩
  · refine ⟨h.wf.r_lt, h.wf.w_lt, hrel.i_le h.wf, fun hwr => ?_, fun hset => ?_⟩
    · rw [hi hwr]
      exact h.wf.r_le_i hwr
    · obtain ⟨hwr, heq⟩ := h.wf.read_wrapped hset
      exact ⟨hwr, by rw [hi hwr]; exact heq⟩
  · -- the indexes of the release are the same, computed from the new `_i`
    obtain ⟨wrapped, hroom, hfilled, hat⟩ := hrel
    refine ⟨hflag, wrapped, hroom, hfilled, ?_⟩
    cases wrapped with
    | true => exact hat
    | false =>
      cases hroom with
      | linear hroom =>
        rw [releaseStart, if_neg (by decide), releaseAt_eq_some hroom.le_size] at hat ⊢
        simp only [Option.some.injEq, Prod.mk.injEq] at hat ⊢
        exact ⟨by omega, hat.2⟩
  · show StreamOk consumed _ piece cpc.taken accepted
    rw [BipartiteBuffer.held_eq, heldAt_of_i hi]
    exact h.stream

theorem producerStep_storingW {p w : ℕ}
    (h : Inv ⟨b, .storingW piece p w, cpc, todo, accepted, consumed⟩) :
    ∃ t, producerStep ⟨b, .storingW piece p w, cpc, todo, accepted, consumed⟩ = some t ∧
      t.Inv := by
  obtain ⟨hflag, hrel⟩ : b.writeWrapped = false ∧ Releasing b piece p b.i w := h.producer
  have hstored := hrel.wStored h.wf
  refine ⟨⟨{ b with w }, .idle, cpc, todo, accepted, consumed⟩, rfl, hstored.wf, hflag,
    h.consumer.of_w hstored, ?_⟩
  show StreamOk consumed _ [] cpc.taken accepted
  rw [hstored.held]
  exact StreamOk.release h.stream (h.consumer.taken_le h.wf)

/-- **One step of the producer** keeps the invariant; its assertion holds. -/
theorem producerStep_inv (s : Spsc α size) (h : s.Inv) :
    ∃ t, s.producerStep = some t ∧ t.Inv := by
  obtain ⟨b, pc, cpc, todo, accepted, consumed⟩ := s
  cases pc with
  | idle =>
    cases todo with
    | nil => exact ⟨_, rfl, h⟩
    | cons piece todo =>
      exact ⟨⟨b, .acquiring piece b.w, cpc, todo, accepted, consumed⟩, rfl, h.wf, ⟨h.producer, rfl⟩,
        h.consumer, h.stream⟩
  | acquiring piece w => exact producerStep_acquiring h
  | copying piece p k => exact producerStep_copying h
  | loadingI piece p w =>
    obtain ⟨hflag, rfl, hroom, hcopied⟩ : b.writeWrapped = false ∧ w = b.w ∧
      Room size b.r b.w piece.length false p ∧ region b.data p piece.length = piece := h.producer
    obtain ⟨iw, hrel⟩ := hroom.releaseAt h.wf.r_lt b.i
    exact ⟨⟨b, .storingI piece p iw.1 iw.2, cpc, todo, accepted, consumed⟩,
      congrArg (Option.map _) hrel, h.wf, ⟨hflag, false, hroom, hcopied, hrel⟩, h.consumer,
      h.stream⟩
  | storingI piece p i w => exact producerStep_storingI h
  | storingW piece p w => exact producerStep_storingW h

end Spsc

/-! ## The consumer -/

/-- The producer does not look at `_read_wrapped`. -/
theorem ProducerOk.of_readWrapped {b : BipartiteBuffer α size} {pc : ProducerPc α} {f : Bool}
    (h : ProducerOk b pc) :
    ProducerOk ({ b with readWrapped := f } : BipartiteBuffer α size) pc := by
  cases pc <;> exact h

/-- The store of `_r` leaves the producer what it relies on. -/
theorem ProducerOk.of_r {b : BipartiteBuffer α size} {pc : ProducerPc α} {r : ℕ}
    (h : ProducerOk b pc)
    (hroom : ∀ n wrapped p, Room size b.r b.w n wrapped p → Room size r b.w n wrapped p) :
    ProducerOk ({ b with r } : BipartiteBuffer α size) pc := by
  have hreleasing {piece : List α} {p i w : ℕ} (hrel : Releasing b piece p i w) :
      Releasing ({ b with r } : BipartiteBuffer α size) piece p i w := by
    obtain ⟨wrapped, hrm, hfilled, hat⟩ := hrel
    exact ⟨wrapped, hroom _ _ _ hrm, hfilled, hat⟩
  cases pc with
  | idle => exact h
  | acquiring piece w => exact h
  | copying piece p k => exact ⟨h.1, hroom _ _ _ h.2.1, h.2.2⟩
  | loadingI piece p w => exact ⟨h.1, h.2.1, hroom _ _ _ h.2.2.1, h.2.2.2⟩
  | storingI piece p i w => exact ⟨h.1, hreleasing h.2⟩
  | storingW piece p w => exact ⟨h.1, hreleasing h.2⟩

/-- What `read_acquire` hands out is held. -/
theorem ConsumerOk.of_offered {b : BipartiteBuffer α size} {q len : ℕ}
    (h : Offered b.r b.w b.i b.readWrapped q len) : ConsumerOk b (Spsc.offered q len) := by
  unfold Spsc.offered
  split
  · exact ⟨Nat.zero_le _, h⟩
  · trivial

@[simp] theorem Spsc.taken_offered (q len : ℕ) : (Spsc.offered q len).taken = 0 := by
  unfold Spsc.offered
  split <;> rfl

/-- One more cell of the offered region is consumed. -/
theorem StreamOk.consume {b : BipartiteBuffer α size} (hb : b.Wf) {consumed inFlight : List α}
    {wrapped : Bool} {q len k : ℕ} {accepted : List (List α)}
    (h : StreamOk consumed b.held inFlight k accepted)
    (hoff : Offered b.r b.w b.i wrapped q len) (hk : k < len) :
    StreamOk (consumed ++ [b.data (q + k)]) b.held inFlight (k + 1) accepted := by
  obtain ⟨released, hconsumed, htotal⟩ := h
  refine ⟨released, ?_, htotal⟩
  have hregion {m : ℕ} (hm : m ≤ len) : region b.data q m = b.held.take m := by
    have hfront : region b.data q len = b.held.take len := region_offered hoff hb.r_le_i
    rw [← take_region hm, hfront, List.take_take, Nat.min_eq_left hm]
  rw [hconsumed, List.append_assoc, ← hregion (Nat.le_of_lt hk), ← region_succ, hregion hk]

/-- The consumed cells are released. -/
theorem StreamOk.drop {consumed held inFlight : List α} {k : ℕ} {accepted : List (List α)}
    (h : StreamOk consumed held inFlight k accepted) :
    StreamOk consumed (held.drop k) inFlight 0 accepted := by
  obtain ⟨released, hconsumed, htotal⟩ := h
  refine ⟨released ++ held.take k, ?_, ?_⟩
  · rw [List.take_zero, List.append_nil]
    exact hconsumed
  · rw [List.append_assoc released, List.take_append_drop]
    exact htotal

namespace Spsc

variable {b : BipartiteBuffer α size} {pc : ProducerPc α}
  {todo accepted : List (List α)} {consumed : List α}

theorem consumerStep_acquiring {r : ℕ} (more : Bool)
    (h : Inv ⟨b, pc, .acquiring r, todo, accepted, consumed⟩) :
    ∃ t, consumerStep ⟨b, pc, .acquiring r, todo, accepted, consumed⟩ more = some t ∧ t.Inv := by
  obtain rfl : r = b.r := h.consumer
  rcases lt_trichotomy b.r b.w with hlt | heq | hgt
  · have hclear : b.readWrapped = false := by
      by_contra hset
      have := (h.wf.read_wrapped (by simpa using hset)).1
      simp only at this
      omega
    have hoff : Offered b.r b.w b.i b.readWrapped b.r (b.w - b.r) := by
      rw [hclear]
      refine ⟨rfl, ?_, ?_, by simp⟩ <;> intros <;> omega
    refine ⟨⟨b, pc, offered b.r (b.w - b.r), todo, accepted, consumed⟩, ?_, h.wf, h.producer,
      ConsumerOk.of_offered hoff, ?_⟩
    · simp only [consumerStep, if_neg (Nat.ne_of_lt hlt), if_pos hlt]
    · rw [taken_offered]
      exact h.stream
  · exact ⟨⟨b, pc, .idle, todo, accepted, consumed⟩, by simp only [consumerStep, if_pos heq],
      h.wf, h.producer, trivial, h.stream⟩
  · refine ⟨⟨b, pc, .loadingI b.r b.w, todo, accepted, consumed⟩, ?_, h.wf, h.producer,
      ⟨rfl, Nat.le_refl _, hgt⟩, h.stream⟩
    simp only [consumerStep, if_neg (Nat.ne_of_gt hgt), if_neg (Nat.not_lt.mpr (Nat.le_of_lt hgt))]

theorem consumerStep_loadingI {r w : ℕ} (more : Bool)
    (h : Inv ⟨b, pc, .loadingI r w, todo, accepted, consumed⟩) :
    ∃ t, consumerStep ⟨b, pc, .loadingI r w, todo, accepted, consumed⟩ more = some t ∧ t.Inv := by
  obtain ⟨rfl, hle, hlt⟩ : r = b.r ∧ w ≤ b.w ∧ b.w < b.r := h.consumer
  by_cases hri : b.r = b.i
  · -- the read wraps: `_w` may have grown since it was loaded
    refine ⟨⟨{ b with readWrapped := true }, pc, offered 0 w, todo, accepted, consumed⟩,
      by simp only [consumerStep, if_pos hri],
      ⟨h.wf.r_lt, h.wf.w_lt, h.wf.i_le, h.wf.r_le_i, fun _ => ⟨hlt, hri⟩⟩,
      h.producer.of_readWrapped,
      ConsumerOk.of_offered ⟨rfl, by simp, by simp, fun _ => ⟨hlt, hri, hle⟩⟩, ?_⟩
    rw [taken_offered]
    exact h.stream
  · have hclear : b.readWrapped = false := by
      by_contra hset
      exact hri (h.wf.read_wrapped (by simpa using hset)).2
    have hoff : Offered b.r b.w b.i b.readWrapped b.r (b.i - b.r) := by
      have hle := h.wf.r_le_i hlt
      simp only at hle
      rw [hclear]
      refine ⟨rfl, ?_, ?_, by simp⟩ <;> intros <;> omega
    refine ⟨⟨b, pc, offered b.r (b.i - b.r), todo, accepted, consumed⟩,
      by simp only [consumerStep, if_neg hri], h.wf, h.producer, ConsumerOk.of_offered hoff, ?_⟩
    rw [taken_offered]
    exact h.stream

theorem consumerStep_reading {q len k : ℕ} (more : Bool)
    (h : Inv ⟨b, pc, .reading q len k, todo, accepted, consumed⟩) :
    ∃ t, consumerStep ⟨b, pc, .reading q len k, todo, accepted, consumed⟩ more = some t ∧
      t.Inv := by
  obtain ⟨hk, hoff⟩ : k ≤ len ∧ Offered b.r b.w b.i b.readWrapped q len := h.consumer
  by_cases hmore : (more && decide (k < len)) = true
  · have hlt : k < len := by simpa using (Bool.and_eq_true_iff.mp hmore).2
    exact ⟨⟨b, pc, .reading q len (k + 1), todo, accepted, consumed ++ [b.data (q + k)]⟩,
      by simp only [consumerStep, if_pos hmore], h.wf, h.producer, ⟨hlt, hoff⟩,
      StreamOk.consume h.wf h.stream hoff hlt⟩
  · obtain ⟨r, hrel, -⟩ := heldAt_readRelease b.data hoff h.wf.w_lt h.wf.i_le hk
    refine ⟨⟨{ b with readWrapped := false }, pc, .storingR q len k r, todo, accepted, consumed⟩,
      ?_,
      ⟨h.wf.r_lt, h.wf.w_lt, h.wf.i_le, h.wf.r_le_i, by simp⟩, h.producer.of_readWrapped,
      ⟨rfl, hk, b.readWrapped, hoff, hrel⟩, h.stream⟩
    simp only [consumerStep, if_neg hmore, hrel, Option.map_some]

theorem consumerStep_storingR {q len k r : ℕ} (more : Bool)
    (h : Inv ⟨b, pc, .storingR q len k r, todo, accepted, consumed⟩) :
    ∃ t, consumerStep ⟨b, pc, .storingR q len k r, todo, accepted, consumed⟩ more = some t ∧
      t.Inv := by
  obtain ⟨hflag, hk, wrapped, hoff, hrel⟩ : b.readWrapped = false ∧ k ≤ len ∧
    ∃ wrapped, Offered b.r b.w b.i wrapped q len ∧ readReleaseAt size wrapped b.r k = some r :=
    h.consumer
  obtain ⟨r', hrel', hlt, hle, hheld⟩ := heldAt_readRelease b.data hoff h.wf.w_lt h.wf.i_le hk
  obtain rfl : r' = r := Option.some.inj (hrel'.symm.trans hrel)
  refine ⟨⟨{ b with r := r' }, pc, .idle, todo, accepted, consumed⟩, rfl,
    ⟨hlt, h.wf.w_lt, h.wf.i_le, hle, ?_⟩, ?_, trivial, ?_⟩
  · intro hset
    rw [hflag] at hset
    cases hset
  · exact h.producer.of_r fun _ _ _ hroom =>
      hroom.of_readRelease hoff hk h.wf.w_lt h.wf.i_le hrel
  · show StreamOk consumed _ pc.inFlight 0 accepted
    rw [BipartiteBuffer.held_eq, hheld]
    exact StreamOk.drop h.stream

/-- **One step of the consumer** keeps the invariant; its assertion holds. -/
theorem consumerStep_inv (s : Spsc α size) (more : Bool) (h : s.Inv) :
    ∃ t, s.consumerStep more = some t ∧ t.Inv := by
  obtain ⟨b, pc, cpc, todo, accepted, consumed⟩ := s
  cases cpc with
  | idle =>
    exact ⟨⟨b, pc, .acquiring b.r, todo, accepted, consumed⟩, rfl, h.wf, h.producer, rfl, h.stream⟩
  | acquiring r => exact consumerStep_acquiring more h
  | loadingI r w => exact consumerStep_loadingI more h
  | reading q len k => exact consumerStep_reading more h
  | storingR q len k r => exact consumerStep_storingR more h

/-! ## Interleavings -/

theorem inv_start (data : ℕ → α) (hsize : 0 < size) : (start data : Spsc α size).Inv :=
  ⟨BipartiteBuffer.wf_init data hsize, rfl, trivial, [], rfl, by
    simp [start, ProducerPc.inFlight]⟩

theorem step_inv (s : Spsc α size) (turn : Turn α) (h : s.Inv) :
    ∃ t, s.step turn = some t ∧ t.Inv := by
  cases turn with
  | post pieces => exact ⟨_, rfl, h.wf, h.producer, h.consumer, h.stream⟩
  | producer => exact producerStep_inv s h
  | consumer more => exact consumerStep_inv s more h

/-- What was consumed is the front of what was accepted. -/
theorem Inv.consumed_prefix {s : Spsc α size} (h : s.Inv) : s.consumed <+: s.accepted.flatten := by
  obtain ⟨released, hconsumed, htotal⟩ := h.stream
  rw [hconsumed, ← htotal, List.append_assoc]
  exact List.prefix_append_right_inj released |>.mpr
    ((List.take_prefix _ _).trans (List.prefix_append _ _))

/-- The cells being written are free. -/
theorem Inv.room {s : Spsc α size} (h : s.Inv) {p n : ℕ} (hp : s.producer.region = some (p, n)) :
    ∃ wrapped, Room size s.buffer.r s.buffer.w n wrapped p := by
  obtain ⟨b, pc, cpc, todo, accepted, consumed⟩ := s
  have hok : ProducerOk b pc := h.producer
  cases pc with
  | idle => cases hp
  | acquiring piece w => cases hp
  | copying piece p k =>
    cases hp
    exact ⟨_, hok.2.1⟩
  | loadingI piece p w =>
    cases hp
    exact ⟨_, hok.2.2.1⟩
  | storingI piece p i w =>
    cases hp
    obtain ⟨-, wrapped, hroom, -⟩ := hok
    exact ⟨wrapped, hroom⟩
  | storingW piece p w =>
    cases hp
    obtain ⟨-, wrapped, hroom, -⟩ := hok
    exact ⟨wrapped, hroom⟩

/-- The cells being written are not being read. -/
theorem Inv.regions_disjoint {s : Spsc α size} (h : s.Inv) {p n q len : ℕ}
    (hp : s.producer.region = some (p, n)) (hq : s.consumer.region = some (q, len)) (k : ℕ) :
    ¬ (p ≤ k ∧ k < p + n ∧ q ≤ k ∧ k < q + len) := by
  obtain ⟨wrapped, hroom⟩ := h.room hp
  obtain ⟨b, pc, cpc, todo, accepted, consumed⟩ := s
  have hconsumer : ∃ wrapped, Offered b.r b.w b.i wrapped q len := by
    have hok : ConsumerOk b cpc := h.consumer
    cases cpc with
    | idle => cases hq
    | acquiring r => cases hq
    | loadingI r w => cases hq
    | reading q len k =>
      cases hq
      exact ⟨_, hok.2⟩
    | storingR q len k r =>
      cases hq
      obtain ⟨-, -, wrapped, hoff, -⟩ := hok
      exact ⟨wrapped, hoff⟩
  obtain ⟨readWrapped, hoff⟩ := hconsumer
  exact hroom.disjoint hoff k

/-- What was consumed and what is left in the buffer is what was accepted, once
the producer has released it. -/
theorem Inv.consumed_buffered {s : Spsc α size} (h : s.Inv) (hidle : s.producer = .idle) :
    s.consumed ++ s.buffered = s.accepted.flatten := by
  obtain ⟨released, hconsumed, htotal⟩ := h.stream
  rw [hidle] at htotal
  rw [hconsumed, buffered, List.append_assoc, List.take_append_drop, ← htotal]
  exact (List.append_nil _).symm

/-! ## What is accepted -/

/-- **A step of the producer and its requests.**  Either it answers the request
that waits first, or it leaves what waits and what is accepted alone. -/
theorem producerStep_waiting {s t : Spsc α size} (h : s.producerStep = some t) :
    (∃ piece w, s.producer = .acquiring piece w ∧ s.waiting = piece :: t.waiting ∧
      t.accepted = s.accepted ++ if s.granted piece w then [piece] else []) ∨
    ((∀ piece w, s.producer ≠ .acquiring piece w) ∧ t.waiting = s.waiting ∧
      t.accepted = s.accepted) := by
  obtain ⟨b, pc, cpc, todo, accepted, consumed⟩ := s
  cases pc with
  | idle =>
    right
    refine ⟨by rintro _ _ ⟨⟩, ?_⟩
    cases todo with
    | nil =>
      obtain rfl := Option.some.inj h
      exact ⟨rfl, rfl⟩
    | cons piece todo =>
      obtain rfl := Option.some.inj h
      exact ⟨rfl, rfl⟩
  | acquiring piece w =>
    left
    refine ⟨piece, w, rfl, ?_⟩
    rcases hacq : acquireAt size w b.r piece.length with _ | ⟨p, _ | _⟩
    · simp only [producerStep, hacq, Option.some.injEq] at h
      subst h
      simp only [granted, hacq]
      exact ⟨rfl, (List.append_nil _).symm⟩
    · simp only [producerStep, hacq, Option.some.injEq] at h
      subst h
      simp only [granted, hacq]
      exact ⟨rfl, rfl⟩
    · simp only [producerStep, hacq, Option.some.injEq] at h
      subst h
      simp only [granted, hacq]
      exact ⟨rfl, rfl⟩
  | copying piece p k =>
    right
    refine ⟨by rintro _ _ ⟨⟩, ?_⟩
    simp only [producerStep] at h
    rcases hget : piece[k]? with _ | x
    · rw [hget] at h
      by_cases hflag : b.writeWrapped = true
      · simp only [if_pos hflag, Option.map_eq_some_iff] at h
        obtain ⟨iw, -, rfl⟩ := h
        exact ⟨rfl, rfl⟩
      · simp only [if_neg hflag, Option.some.injEq] at h
        subst h
        exact ⟨rfl, rfl⟩
    · rw [hget] at h
      obtain rfl := Option.some.inj h
      exact ⟨rfl, rfl⟩
  | loadingI piece p w =>
    right
    refine ⟨by rintro _ _ ⟨⟩, ?_⟩
    simp only [producerStep, Option.map_eq_some_iff] at h
    obtain ⟨iw, -, rfl⟩ := h
    exact ⟨rfl, rfl⟩
  | storingI piece p i w =>
    right
    obtain rfl := Option.some.inj h
    exact ⟨by rintro _ _ ⟨⟩, rfl, rfl⟩
  | storingW piece p w =>
    right
    obtain rfl := Option.some.inj h
    exact ⟨by rintro _ _ ⟨⟩, rfl, rfl⟩

/-- A step of the consumer is none of the producer's business. -/
theorem consumerStep_frame {s t : Spsc α size} {more : Bool} (h : s.consumerStep more = some t) :
    t.producer = s.producer ∧ t.todo = s.todo ∧ t.accepted = s.accepted := by
  obtain ⟨b, pc, cpc, todo, accepted, consumed⟩ := s
  cases cpc with
  | idle =>
    obtain rfl := Option.some.inj h
    exact ⟨rfl, rfl, rfl⟩
  | acquiring r =>
    simp only [consumerStep] at h
    split at h
    · obtain rfl := Option.some.inj h
      exact ⟨rfl, rfl, rfl⟩
    · split at h
      · obtain rfl := Option.some.inj h
        exact ⟨rfl, rfl, rfl⟩
      · obtain rfl := Option.some.inj h
        exact ⟨rfl, rfl, rfl⟩
  | loadingI r w =>
    simp only [consumerStep] at h
    split at h
    · obtain rfl := Option.some.inj h
      exact ⟨rfl, rfl, rfl⟩
    · obtain rfl := Option.some.inj h
      exact ⟨rfl, rfl, rfl⟩
  | reading q len k =>
    simp only [consumerStep] at h
    split at h
    · obtain rfl := Option.some.inj h
      exact ⟨rfl, rfl, rfl⟩
    · rw [Option.map_eq_some_iff] at h
      obtain ⟨r, -, rfl⟩ := h
      exact ⟨rfl, rfl, rfl⟩
  | storingR q len k r =>
    obtain rfl := Option.some.inj h
    exact ⟨rfl, rfl, rfl⟩

/-! ## Where the read index goes -/

end Spsc

/-- The read index moves on to `r'`, and does not overtake the write index. -/
structure Advances (size w r r' : ℕ) : Prop where
  behind : r ≤ w → r' ≤ w
  forward : r ≤ w → r ≤ r'
  ahead : w < r → (r ≤ r' ∧ r' < size) ∨ r' ≤ w

theorem Advances.refl {w r : ℕ} (hr : r < size) : Advances size w r r :=
  ⟨id, fun _ => Nat.le_refl r, fun _ => .inl ⟨Nat.le_refl r, hr⟩⟩

/-- What the consumer releases is behind the write index. -/
theorem Offered.advances {r w i q len k r' : ℕ} {wrapped : Bool}
    (h : Offered r w i wrapped q len) (hw : w < size) (hi : i ≤ size) (hk : k ≤ len)
    (hrel : readReleaseAt size wrapped r k = some r') : Advances size w r r' := by
  cases wrapped with
  | true =>
    obtain ⟨hwr, -, hlen⟩ := h.at_invalid rfl
    rw [readReleaseAt_eq_some (by simp only [if_true]; omega)] at hrel
    simp only [if_true, Option.some.injEq] at hrel
    refine ⟨by omega, by omega, fun _ => .inr ?_⟩
    split at hrel <;> omega
  | false =>
    have hbelow := h.le_write rfl
    have hinvalid := h.le_invalid rfl
    rw [readReleaseAt_eq_some (by simp only [Bool.false_eq_true, if_false]; omega)] at hrel
    simp only [Bool.false_eq_true, if_false, Option.some.injEq] at hrel
    constructor <;> intro <;> split at hrel <;> omega

namespace Spsc

/-- What a step of the consumer does to the buffer: the read index moves on. -/
theorem consumerStep_indexes {s t : Spsc α size} {more : Bool} (h : s.Inv)
    (hstep : s.consumerStep more = some t) :
    t.buffer.writeWrapped = s.buffer.writeWrapped ∧ t.buffer.w = s.buffer.w ∧
      t.buffer.i = s.buffer.i ∧ Advances size s.buffer.w s.buffer.r t.buffer.r ∧
      t.buffer.held.length ≤ s.buffer.held.length := by
  have hsame : Advances size s.buffer.w s.buffer.r s.buffer.r := .refl h.wf.r_lt
  obtain ⟨b, pc, cpc, todo, accepted, consumed⟩ := s
  cases cpc with
  | idle =>
    obtain rfl := Option.some.inj hstep
    exact ⟨rfl, rfl, rfl, hsame, Nat.le_refl _⟩
  | acquiring r =>
    simp only [consumerStep] at hstep
    split at hstep
    · obtain rfl := Option.some.inj hstep
      exact ⟨rfl, rfl, rfl, hsame, Nat.le_refl _⟩
    · split at hstep
      · obtain rfl := Option.some.inj hstep
        exact ⟨rfl, rfl, rfl, hsame, Nat.le_refl _⟩
      · obtain rfl := Option.some.inj hstep
        exact ⟨rfl, rfl, rfl, hsame, Nat.le_refl _⟩
  | loadingI r w =>
    simp only [consumerStep] at hstep
    split at hstep
    · obtain rfl := Option.some.inj hstep
      exact ⟨rfl, rfl, rfl, hsame, Nat.le_refl _⟩
    · obtain rfl := Option.some.inj hstep
      exact ⟨rfl, rfl, rfl, hsame, Nat.le_refl _⟩
  | reading q len k =>
    simp only [consumerStep] at hstep
    split at hstep
    · obtain rfl := Option.some.inj hstep
      exact ⟨rfl, rfl, rfl, hsame, Nat.le_refl _⟩
    · rw [Option.map_eq_some_iff] at hstep
      obtain ⟨r, -, rfl⟩ := hstep
      exact ⟨rfl, rfl, rfl, hsame, Nat.le_refl _⟩
  | storingR q len k r =>
    obtain rfl := Option.some.inj hstep
    obtain ⟨-, hk, wrapped, hoff, hrel⟩ : b.readWrapped = false ∧ k ≤ len ∧
      ∃ wrapped, Offered b.r b.w b.i wrapped q len ∧ readReleaseAt size wrapped b.r k = some r :=
      h.consumer
    obtain ⟨r', hrel', -, -, hheld⟩ := heldAt_readRelease b.data hoff h.wf.w_lt h.wf.i_le hk
    obtain rfl : r' = r := Option.some.inj (hrel'.symm.trans hrel)
    refine ⟨rfl, rfl, rfl, hoff.advances h.wf.w_lt h.wf.i_le hk hrel, ?_⟩
    show (heldAt b.data r' b.w b.i).length ≤ (heldAt b.data b.r b.w b.i).length
    rw [hheld, List.length_drop]
    exact Nat.sub_le _ _

/-! ## Every run -/

/-- **Every interleaving keeps the invariant**, and no assertion fails. -/
theorem run_inv (data : ℕ → α) (hsize : 0 < size) (turns : List (Turn α)) :
    ∃ s : Spsc α size, run step (start data) turns = some s ∧ s.Inv :=
  run_total step_inv (inv_start data hsize) turns

end Spsc

end Io
end PsqlTcpProxy
