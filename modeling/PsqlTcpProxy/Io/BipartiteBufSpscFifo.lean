import PsqlTcpProxy.Io.BipartiteBufSpscSafety
import PsqlTcpProxy.Library.Fifo

/-!
# The shared buffer is a queue

`write_acquire`, the copy and `write_release` take many steps, and so do `read_acquire`, the
callback and `read_release`; the steps of the two threads are interleaved.  Seen from the
outside, each of these calls happens at one moment: a piece is put in when the producer stores
`_w`, and what the callback has consumed is taken out when the consumer stores `_r`.  Every
other step changes indexes and flags, and leaves the queue as it is (`step_refines`).

So every interleaving is a run of `Fifo` (`run_refines`), which is the abstract model of the
buffer.
-/

namespace PsqlTcpProxy
namespace Io

open Library

variable {α : Type*} {size : ℕ}

/-- The piece that is acquired and not yet released. -/
def ProducerPc.pieces : ProducerPc α → List (List α)
  | .idle | .acquiring .. => []
  | .copying piece .. | .loadingI piece .. | .storingI piece .. | .storingW piece .. => [piece]

namespace Spsc

/-- The queue that the shared buffer stands for. -/
structure Refines (s : Spsc α size) (q : Fifo α) : Prop where
  inv : s.Inv
  queue : q.queue = s.buffer.held
  /-- What was granted is put in, but for the piece the producer is at. -/
  pushed : s.accepted = q.pushed ++ s.producer.pieces
  /-- What was consumed is taken out, but for the cells the consumer is at. -/
  popped : s.consumed = q.popped ++ s.buffer.held.take s.consumer.taken

theorem refines_start (data : ℕ → α) (hsize : 0 < size) :
    (start data : Spsc α size).Refines .empty :=
  ⟨inv_start data hsize, (BipartiteBuffer.held_init data).symm, rfl, by
    rw [start, BipartiteBuffer.held_init]
    rfl⟩

/-- A step that leaves the queue as it is. -/
theorem Refines.silent {s t : Spsc α size} {q : Fifo α} (h : s.Refines q) (ht : t.Inv)
    (hheld : t.buffer.held = s.buffer.held) (haccepted : t.accepted = s.accepted)
    (hpieces : t.producer.pieces = s.producer.pieces) (hconsumed : t.consumed = s.consumed)
    (htaken : t.consumer.taken = s.consumer.taken) : t.Refines q :=
  ⟨ht, by rw [hheld, h.queue], by rw [haccepted, hpieces, h.pushed],
    by rw [hconsumed, hheld, htaken, h.popped]⟩

variable {b : BipartiteBuffer α size} {pc : ProducerPc α} {cpc : ConsumerPc}
  {todo accepted : List (List α)} {consumed piece : List α} {q : Fifo α}

/-- **The store of `_w`** puts the piece in. -/
theorem Refines.push {p w : ℕ}
    (h : Refines ⟨b, .storingW piece p w, cpc, todo, accepted, consumed⟩ q)
    (ht : Inv ⟨({ b with w } : BipartiteBuffer α size), .idle, cpc, todo, accepted, consumed⟩) :
    Refines ⟨({ b with w } : BipartiteBuffer α size), .idle, cpc, todo, accepted, consumed⟩
      { q with queue := q.queue ++ piece, pushed := q.pushed ++ [piece] } := by
  obtain ⟨-, hrel⟩ : b.writeWrapped = false ∧ Releasing b piece p b.i w := h.inv.producer
  have hheld := (hrel.wStored h.inv.wf).held
  have htaken := h.inv.consumer.taken_le h.inv.wf
  refine ⟨ht, ?_, ?_, ?_⟩
  · show q.queue ++ piece = _
    rw [hheld, h.queue]
  · show accepted = q.pushed ++ [piece] ++ []
    rw [List.append_nil]
    exact h.pushed
  · show consumed = q.popped ++ _
    rw [hheld, List.take_append_of_le_length htaken]
    exact h.popped

/-- **The store of `_r`** takes out what the callback has consumed. -/
theorem Refines.pop {pos len k r : ℕ}
    (h : Refines ⟨b, pc, .storingR pos len k r, todo, accepted, consumed⟩ q)
    (ht : Inv ⟨({ b with r } : BipartiteBuffer α size), pc, .idle, todo, accepted, consumed⟩) :
    q.step (.pop k) = some { q with
      queue := q.queue.drop k, popped := q.popped ++ q.queue.take k } ∧
    Refines ⟨({ b with r } : BipartiteBuffer α size), pc, .idle, todo, accepted, consumed⟩ { q with
      queue := q.queue.drop k, popped := q.popped ++ q.queue.take k } := by
  obtain ⟨hflag, hk, wrapped, hoff, hrel⟩ : b.readWrapped = false ∧ k ≤ len ∧
    ∃ wrapped, Offered b.r b.w b.i wrapped pos len ∧ readReleaseAt size wrapped b.r k = some r :=
    h.inv.consumer
  obtain ⟨r', hrel', -, -, hheld⟩ :=
    heldAt_readRelease b.data hoff h.inv.wf.w_lt h.inv.wf.i_le hk
  obtain rfl : r' = r := Option.some.inj (hrel'.symm.trans hrel)
  have htaken : k ≤ q.queue.length := by
    rw [h.queue]
    exact h.inv.consumer.taken_le h.inv.wf
  refine ⟨if_pos htaken, ht, ?_, h.pushed, ?_⟩
  · show q.queue.drop k = _
    rw [h.queue, BipartiteBuffer.held_eq, BipartiteBuffer.held_eq, hheld]
  · show consumed = q.popped ++ q.queue.take k ++ _
    have hpopped : consumed = q.popped ++ b.held.take k := h.popped
    rw [h.queue, hpopped]
    exact (List.append_nil _).symm

/-- **A step of the producer** puts a piece in or leaves the queue as it is. -/
theorem Refines.producerStep {s t : Spsc α size} (h : s.Refines q)
    (hstep : s.producerStep = some t) :
    t.Refines q ∨ ∃ piece q', q.step (.push piece) = some q' ∧ t.Refines q' := by
  obtain ⟨t', hstep', hinv⟩ := producerStep_inv s h.inv
  obtain rfl := Option.some.inj (hstep'.symm.trans hstep)
  obtain ⟨b, pc, cpc, todo, accepted, consumed⟩ := s
  cases pc with
  | idle =>
    cases todo with
    | nil =>
      obtain rfl := Option.some.inj hstep
      exact Or.inl h
    | cons piece todo =>
      obtain rfl := Option.some.inj hstep
      exact Or.inl (h.silent hinv rfl rfl rfl rfl rfl)
  | acquiring piece w =>
    left
    have hpushed : accepted = q.pushed ++ [] := h.pushed
    have hgranted : accepted ++ [piece] = q.pushed ++ [piece] := by
      rw [hpushed, List.append_nil]
    rcases hacq : acquireAt size w b.r piece.length with _ | ⟨p, _ | _⟩
    · simp only [Spsc.producerStep, hacq, Option.some.injEq] at hstep
      subst hstep
      exact h.silent hinv rfl rfl rfl rfl rfl
    · simp only [Spsc.producerStep, hacq, Option.some.injEq] at hstep
      subst hstep
      exact ⟨hinv, h.queue, hgranted, h.popped⟩
    · simp only [Spsc.producerStep, hacq, Option.some.injEq] at hstep
      subst hstep
      exact ⟨hinv, h.queue, hgranted, h.popped⟩
  | copying piece p k =>
    left
    obtain ⟨hk, hroom, -⟩ : k ≤ piece.length ∧
      Room size b.r b.w piece.length b.writeWrapped p ∧ region b.data p k = piece.take k :=
      h.inv.producer
    rcases hget : piece[k]? with _ | x
    · by_cases hflag : b.writeWrapped = true
      · simp only [Spsc.producerStep, hget, if_pos hflag, Option.map_eq_some_iff] at hstep
        obtain ⟨iw, -, rfl⟩ := hstep
        exact h.silent hinv rfl rfl rfl rfl rfl
      · simp only [Spsc.producerStep, hget, if_neg hflag, Option.some.injEq] at hstep
        subst hstep
        exact h.silent hinv rfl rfl rfl rfl rfl
    · simp only [Spsc.producerStep, hget, Option.some.injEq] at hstep
      subst hstep
      have hlt : k < piece.length := (List.getElem?_eq_some_iff.mp hget).1
      refine h.silent hinv ?_ rfl rfl rfl rfl
      exact hroom.held_blit (by rw [List.length_singleton]; omega)
  | loadingI piece p w =>
    left
    obtain ⟨iw, -, rfl⟩ := Option.map_eq_some_iff.mp hstep
    exact h.silent hinv rfl rfl rfl rfl rfl
  | storingI piece p i w =>
    left
    obtain rfl := Option.some.inj hstep
    obtain ⟨-, hrel⟩ : b.writeWrapped = false ∧ Releasing b piece p i w := h.inv.producer
    refine h.silent hinv ?_ rfl rfl rfl rfl
    show ({ b with i } : BipartiteBuffer α size).held = b.held
    rw [BipartiteBuffer.held_eq, heldAt_of_i (hrel.i_eq h.inv.wf), BipartiteBuffer.held_eq]
  | storingW piece p w =>
    right
    obtain rfl := Option.some.inj hstep
    exact ⟨piece, _, rfl, h.push hinv⟩

/-- **A step of the consumer** takes something out or leaves the queue as it is. -/
theorem Refines.consumerStep {s t : Spsc α size} {more : Bool} (h : s.Refines q)
    (hstep : s.consumerStep more = some t) :
    t.Refines q ∨ ∃ n q', q.step (.pop n) = some q' ∧ t.Refines q' := by
  obtain ⟨t', hstep', hinv⟩ := consumerStep_inv s more h.inv
  obtain rfl := Option.some.inj (hstep'.symm.trans hstep)
  obtain ⟨b, pc, cpc, todo, accepted, consumed⟩ := s
  cases cpc with
  | idle =>
    obtain rfl := Option.some.inj hstep
    exact Or.inl (h.silent hinv rfl rfl rfl rfl rfl)
  | acquiring r =>
    left
    simp only [Spsc.consumerStep] at hstep
    split at hstep
    · obtain rfl := Option.some.inj hstep
      exact h.silent hinv rfl rfl rfl rfl rfl
    · split at hstep
      · obtain rfl := Option.some.inj hstep
        exact h.silent hinv rfl rfl rfl rfl (taken_offered _ _)
      · obtain rfl := Option.some.inj hstep
        exact h.silent hinv rfl rfl rfl rfl rfl
  | loadingI r w =>
    left
    simp only [Spsc.consumerStep] at hstep
    split at hstep
    · obtain rfl := Option.some.inj hstep
      exact h.silent hinv rfl rfl rfl rfl (taken_offered _ _)
    · obtain rfl := Option.some.inj hstep
      exact h.silent hinv rfl rfl rfl rfl (taken_offered _ _)
  | reading pos len k =>
    left
    by_cases hmore : (more && decide (k < len)) = true
    · simp only [Spsc.consumerStep, if_pos hmore, Option.some.injEq] at hstep
      subst hstep
      obtain ⟨hk, hoff⟩ : k ≤ len ∧ Offered b.r b.w b.i b.readWrapped pos len := h.inv.consumer
      have hlt : k < len := by simpa using (Bool.and_eq_true_iff.mp hmore).2
      refine ⟨hinv, h.queue, h.pushed, ?_⟩
      have hpopped : consumed = q.popped ++ b.held.take k := h.popped
      have hnext : b.held.take (k + 1) = b.held.take k ++ [b.data (pos + k)] := by
        have hfront : region b.data pos len = b.held.take len :=
          region_offered hoff h.inv.wf.r_le_i
        have hregion {m : ℕ} (hm : m ≤ len) : region b.data pos m = b.held.take m := by
          rw [← take_region hm, hfront, List.take_take, Nat.min_eq_left hm]
        rw [← hregion hlt, region_succ, hregion hk]
      show consumed ++ [b.data (pos + k)] = q.popped ++ b.held.take (k + 1)
      rw [hnext, ← List.append_assoc, ← hpopped]
    · simp only [Spsc.consumerStep, if_neg hmore, Option.map_eq_some_iff] at hstep
      obtain ⟨r, -, rfl⟩ := hstep
      exact h.silent hinv rfl rfl rfl rfl rfl
  | storingR pos len k r =>
    right
    obtain rfl := Option.some.inj hstep
    obtain ⟨hpop, hrefines⟩ := h.pop hinv
    exact ⟨k, _, hpop, hrefines⟩

/-- **A turn** is one operation of the queue, or none. -/
theorem step_refines {s t : Spsc α size} {turn : Turn α} (h : s.Refines q)
    (hstep : s.step turn = some t) :
    t.Refines q ∨ ∃ op q', q.step op = some q' ∧ t.Refines q' := by
  cases turn with
  | post pieces =>
    obtain rfl := Option.some.inj hstep
    exact Or.inl (h.silent ⟨h.inv.wf, h.inv.producer, h.inv.consumer, h.inv.stream⟩ rfl rfl rfl rfl
      rfl)
  | producer =>
    rcases h.producerStep hstep with hsame | ⟨piece, q', hpush, hnext⟩
    · exact Or.inl hsame
    · exact Or.inr ⟨.push piece, q', hpush, hnext⟩
  | consumer more =>
    rcases h.consumerStep hstep with hsame | ⟨n, q', hpop, hnext⟩
    · exact Or.inl hsame
    · exact Or.inr ⟨.pop n, q', hpop, hnext⟩

/-- **The shared buffer refines a queue.**  However the steps of the two threads are
interleaved, no assertion fails, and there are operations of a queue that lead to what the
buffer holds: every piece that was granted is put in once and in order, but for the one the
producer is at, and what the callback has consumed is what was taken out, but for the cells the
consumer is at. -/
theorem run_refines (data : ℕ → α) (hsize : 0 < size) (turns : List (Turn α)) :
    ∃ (s : Spsc α size) (ops : List (FifoOp α)) (q : Fifo α),
      run step (start data) turns = some s ∧ run Fifo.step .empty ops = some q ∧
      q.queue = s.buffer.held ∧ s.accepted = q.pushed ++ s.producer.pieces ∧
      s.consumed = q.popped ++ q.queue.take s.consumer.taken ∧ q.Balanced := by
  obtain ⟨s, hrun, -⟩ := run_inv data hsize turns
  have hmeets : Meets step (fun _ _ => True) (start data : Spsc α size) turns :=
    meets_of_forall (P := fun _ => True) _ fun _ _ => trivial
  obtain ⟨ops, q, -, hops, hrefines⟩ := run_simulates (R := Refines) (Q := fun _ _ => True)
    (fun s q turn t h _ hstep => by
      rcases step_refines h hstep with hsame | ⟨op, q', hop, hnext⟩
      · exact Or.inl hsame
      · exact Or.inr ⟨op, q', trivial, hop, hnext⟩) (refines_start data hsize) hmeets hrun
  refine ⟨s, ops, q, hrun, hops, hrefines.queue, hrefines.pushed, ?_, Fifo.run_balanced hops⟩
  rw [hrefines.queue]
  exact hrefines.popped

/-- A buffer of two cells, and the consumer in the middle of a piece: it has read one cell and
not released it, so the cell is consumed but not taken out. -/
theorem run_refines_reading :
    ∃ (s : Spsc ℕ 2) (ops : List (FifoOp ℕ)) (q : Fifo ℕ),
      run step (start fun _ => 0) (.post [[7]] :: List.replicate 7 .producer ++
        List.replicate 3 (.consumer true)) = some s ∧ run Fifo.step .empty ops = some q ∧
      q.queue = s.buffer.held ∧ s.accepted = q.pushed ++ s.producer.pieces ∧
      s.consumed = q.popped ++ q.queue.take s.consumer.taken ∧ q.Balanced :=
  run_refines (fun _ => 0) (Nat.succ_pos 1) _

end Spsc

end Io
end PsqlTcpProxy
