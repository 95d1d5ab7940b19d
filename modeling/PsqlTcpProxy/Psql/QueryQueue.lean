import PsqlTcpProxy.Io.BipartiteBufSpscSafety
import PsqlTcpProxy.Psql.QueryProcessor

/-!
# The query processor between two threads

The main thread calls `_add_message`, the writer thread calls `_process`, and
the two share nothing but the buffer.  Here both calls are taken apart into the
loads and stores of `Io.Spsc`: `_add_message` gives the producer its requests,
one after the other, and a call of `_process` is one round of the consumer.

A thread makes one call at a time, so `addMessage` is a turn that counts only
when the producer has nothing left to do.
-/

namespace PsqlTcpProxy
namespace Psql

open Library Io
open QueryProcessor hiding CHUNK_SZ BUFF_SZ

/-- The buffer of a query processor and its two threads. -/
abbrev QueryThreads := Spsc UInt8 QueryProcessor.BUFF_SZ

/-- The query processor in the middle of whatever its two threads are doing. -/
structure QueryQueue where
  /-- `_query_buffer` and the two threads -/
  spsc : QueryThreads
  /-- `_separator` -/
  separator : UInt8
  /-- The messages `add_message` was called with, in order. -/
  added : List Text
  /-- What `write_acquire` has been called for in the last call of `add_message`. -/
  requested : Text
  /-- Whether that call's first `write_acquire` for at least one character
  succeeded; `none` before it. -/
  stored : Option Bool

/-- Whose turn it is. -/
inductive QueryTurn where
  /-- The main thread calls `add_message`. -/
  | addMessage (message : Text)
  /-- A step of the main thread. -/
  | producer
  /-- A step of the writer thread. -/
  | consumer (more : Bool)

namespace QueryQueue

/-- Both threads idle, and nothing stored. -/
def start (data : ℕ → UInt8) (separator : UInt8) : QueryQueue :=
  { spsc := .start data, separator, added := [], requested := [], stored := none }

/-- The main thread is inside `add_message`. -/
def busy (q : QueryQueue) : Bool :=
  match q.spsc.producer, q.spsc.todo with
  | .idle, [] => false
  | _, _ => true

/-- Between two calls nothing is left to do. -/
theorem idle_of_not_busy {q : QueryQueue} (h : q.busy = false) :
    q.spsc.producer = .idle ∧ q.spsc.todo = [] := by
  unfold busy at h
  split at h
  · exact ⟨‹_›, ‹_›⟩
  · cases h

/-- The record of what was requested, after the producer's next step. -/
def note (q : QueryQueue) : QueryQueue :=
  match q.spsc.producer with
  | .acquiring piece w => { q with
      requested := q.requested ++ piece
      stored := if piece = [] then q.stored else some (q.stored.getD (q.spsc.granted piece w)) }
  | _ => q

theorem note_of_acquiring {q : QueryQueue} {piece : Text} {w : ℕ}
    (hpc : q.spsc.producer = .acquiring piece w) : q.note = { q with
      requested := q.requested ++ piece
      stored := if piece = [] then q.stored
        else some (q.stored.getD (q.spsc.granted piece w)) } := by
  unfold note
  rw [hpc]

/-- Only an answer is noted. -/
theorem note_of_ne {q : QueryQueue} (hpc : ∀ piece w, q.spsc.producer ≠ .acquiring piece w) :
    q.note = q := by
  unfold note
  split
  · exact absurd ‹_› (hpc _ _)
  · rfl

@[simp] theorem note_added (q : QueryQueue) : q.note.added = q.added := by
  unfold note
  split <;> rfl

@[simp] theorem note_separator (q : QueryQueue) : q.note.separator = q.separator := by
  unfold note
  split <;> rfl

/-- One turn.  `none` is a failed assertion. -/
def step (q : QueryQueue) : QueryTurn → Option QueryQueue
  | .addMessage message =>
    if q.busy then some q
    else (q.spsc.step (.post (requests q.separator message))).map fun spsc =>
      { q with spsc, added := q.added ++ [message], requested := [], stored := none }
  | .producer => (q.spsc.step .producer).map fun spsc => { q.note with spsc }
  | .consumer more => (q.spsc.step (.consumer more)).map fun spsc => { q with spsc }

/-- The requests of a message of one piece are to be made. -/
def shortAdded (q : QueryQueue) (message : Text) : QueryQueue :=
  { spsc := { q.spsc with todo := [message, [q.separator]] }
    separator := q.separator
    added := q.added ++ [message]
    requested := []
    stored := none }

/-- A call of `_add_message` with such a message. -/
theorem step_short {q : QueryQueue} (hbusy : q.busy = false) {message : Text}
    (h : message.length ≤ QueryProcessor.CHUNK_SZ) :
    q.step (.addMessage message) = some (q.shortAdded message) := by
  rw [step, if_neg (by rw [hbusy]; exact Bool.false_ne_true), requests_of_short _ h, Spsc.step,
    (idle_of_not_busy hbusy).2]
  rfl

/-! ## A correct queue -/

theorem step_inv (q : QueryQueue) (turn : QueryTurn) (h : q.spsc.Inv) :
    ∃ t, q.step turn = some t ∧ t.spsc.Inv := by
  cases turn with
  | addMessage message =>
    by_cases hbusy : q.busy = true
    · exact ⟨q, if_pos hbusy, h⟩
    · obtain ⟨spsc, hspsc, hinv⟩ := Spsc.step_inv q.spsc (.post (requests q.separator message)) h
      exact ⟨⟨spsc, q.separator, q.added ++ [message], [], none⟩,
        (if_neg hbusy).trans (congrArg (Option.map _) hspsc), hinv⟩
  | producer =>
    obtain ⟨spsc, hspsc, hinv⟩ := Spsc.step_inv q.spsc .producer h
    exact ⟨{ q.note with spsc }, congrArg (Option.map _) hspsc, hinv⟩
  | consumer more =>
    obtain ⟨spsc, hspsc, hinv⟩ := Spsc.step_inv q.spsc (.consumer more) h
    exact ⟨{ q with spsc }, congrArg (Option.map _) hspsc, hinv⟩

theorem inv_start (data : ℕ → UInt8) (separator : UInt8) : (start data separator).spsc.Inv :=
  Spsc.inv_start data (by decide)

/-- What was accepted is some of what was requested, and what was requested and
what is still to be are the requests of the messages that were added. -/
def Requested (q : QueryQueue) : Prop :=
  ∃ asked, q.spsc.accepted.Sublist asked ∧
    asked ++ q.spsc.waiting = q.added.flatMap (requests q.separator)

theorem step_requested {q t : QueryQueue} {turn : QueryTurn} (h : q.Requested)
    (hstep : q.step turn = some t) : t.Requested := by
  obtain ⟨asked, hsub, heq⟩ := h
  cases turn with
  | addMessage message =>
    by_cases hbusy : q.busy = true
    · obtain rfl := Option.some.inj ((if_pos hbusy).symm.trans hstep)
      exact ⟨asked, hsub, heq⟩
    · obtain rfl := Option.some.inj ((if_neg hbusy).symm.trans hstep)
      refine ⟨asked, hsub, ?_⟩
      show asked ++ (_ ++ (_ ++ _)) = _
      rw [← List.append_assoc, ← List.append_assoc, List.append_assoc asked, List.flatMap_append,
        ← heq, List.flatMap_singleton]
      rfl
  | producer =>
    obtain ⟨spsc, hspsc, rfl⟩ := Option.map_eq_some_iff.mp hstep
    rcases Spsc.producerStep_waiting hspsc with ⟨piece, w, hpc, hwait, hacc⟩ | ⟨hpc, hwait, hacc⟩
    · refine ⟨asked ++ [piece], ?_, ?_⟩
      · show spsc.accepted.Sublist _
        rw [hacc]
        split
        · exact hsub.append (List.Sublist.refl _)
        · exact hsub.append (List.nil_sublist _)
      · show asked ++ [piece] ++ spsc.waiting = q.note.added.flatMap (requests q.note.separator)
        rw [note_added, note_separator, List.append_assoc, ← heq, hwait]
        rfl
    · refine ⟨asked, ?_, ?_⟩
      · show spsc.accepted.Sublist _
        rw [hacc]
        exact hsub
      · show asked ++ spsc.waiting = q.note.added.flatMap (requests q.note.separator)
        rw [note_added, note_separator, hwait]
        exact heq
  | consumer more =>
    obtain ⟨spsc, hspsc, rfl⟩ := Option.map_eq_some_iff.mp hstep
    obtain ⟨hpc, htodo, hacc⟩ := Spsc.consumerStep_frame hspsc
    refine ⟨asked, ?_, ?_⟩
    · show spsc.accepted.Sublist asked
      rw [hacc]
      exact hsub
    · show asked ++ (spsc.producer.requesting ++ spsc.todo) = _
      rw [hpc, htodo]
      exact heq

theorem step_separator {q t : QueryQueue} {turn : QueryTurn} (hstep : q.step turn = some t) :
    t.separator = q.separator := by
  cases turn with
  | addMessage message =>
    by_cases hbusy : q.busy = true
    · obtain rfl := Option.some.inj ((if_pos hbusy).symm.trans hstep)
      rfl
    · obtain rfl := Option.some.inj ((if_neg hbusy).symm.trans hstep)
      rfl
  | producer =>
    obtain ⟨spsc, -, rfl⟩ := Option.map_eq_some_iff.mp hstep
    exact q.note_separator
  | consumer more =>
    obtain ⟨spsc, -, rfl⟩ := Option.map_eq_some_iff.mp hstep
    rfl

/-- What every turn keeps. -/
structure Safe (separator : UInt8) (q : QueryQueue) : Prop where
  inv : q.spsc.Inv
  separator_eq : q.separator = separator
  requested : q.Requested

theorem step_safe {separator : UInt8} (q : QueryQueue) (turn : QueryTurn) (h : q.Safe separator) :
    ∃ t, q.step turn = some t ∧ t.Safe separator := by
  obtain ⟨t, hstep, hinv⟩ := step_inv q turn h.inv
  exact ⟨t, hstep, hinv, (step_separator hstep).trans h.separator_eq,
    step_requested h.requested hstep⟩

/-- **The query processor is a correct queue.**  However the two threads are
interleaved, whatever the messages are and however much the callback consumes:
no assertion of `write_release` or `read_release` fails, what was consumed is a
prefix of the requests that were granted, and no cell is written while it is
read. -/
theorem interleaving_safe (data : ℕ → UInt8) (separator : UInt8) (turns : List QueryTurn) :
    ∃ q, run step (start data separator) turns = some q ∧
      q.spsc.consumed <+: q.spsc.accepted.flatten ∧
      q.spsc.accepted.Sublist (q.added.flatMap (requests separator)) ∧
      ∀ p n pos len, q.spsc.producer.region = some (p, n) →
        q.spsc.consumer.region = some (pos, len) →
        ∀ k, ¬ (p ≤ k ∧ k < p + n ∧ pos ≤ k ∧ k < pos + len) := by
  obtain ⟨q, hrun, ⟨hinv, hsep, hreq⟩⟩ := run_total step_safe
    ⟨inv_start data separator, rfl, [], List.Sublist.refl _, rfl⟩ turns
  have hseparator : q.separator = separator := hsep
  refine ⟨q, hrun, hinv.consumed_prefix, ?_, ?_⟩
  · obtain ⟨asked, hsub, heq⟩ := hreq
    rw [← hseparator, ← heq]
    exact hsub.trans (List.sublist_append_left _ _)
  · intro p n pos len hp hpos k
    exact hinv.regions_disjoint hp hpos k

/-! ## The main thread alone

While the writer thread does not move, the steps of the main thread amount to
`_add_message` as it stands in the source. -/

section Alone

variable {b : QueryBuffer} {piece : Text} (cpc : ConsumerPc)
  (todo accepted : List Text) (consumed : Text)

/-- `n` steps of the producer. -/
def producerSteps (s : QueryThreads) (n : ℕ) : Option (QueryThreads) :=
  run Spsc.step s (List.replicate n .producer)

theorem producerSteps_add (s : QueryThreads) (m n : ℕ) :
    producerSteps s (m + n) = (producerSteps s m).bind fun t => producerSteps t n := by
  rw [producerSteps, List.replicate_add, run_append]
  rfl

theorem producerSteps_succ (s : QueryThreads) (n : ℕ) :
    producerSteps s (n + 1) = s.producerStep.bind fun t => producerSteps t n := rfl

/-- The copy, cell by cell. -/
theorem producerSteps_copying (p : ℕ) {k : ℕ} (hk : k ≤ piece.length) :
    producerSteps ⟨b, .copying piece p 0, cpc, todo, accepted, consumed⟩ k =
      some ⟨b.store p (piece.take k), .copying piece p k, cpc, todo, accepted, consumed⟩ := by
  induction k with
  | zero =>
    rw [List.take_zero, BipartiteBuffer.store, blit_nil]
    rfl
  | succ k ih =>
    have hget : piece[k]? = some piece[k] := List.getElem?_eq_getElem hk
    have hstore : (b.store p (piece.take k)).store (p + k) [piece[k]] =
        b.store p (piece.take (k + 1)) := by
      have hlen : (piece.take k).length = k := List.length_take_of_le (by omega)
      have hblit := blit_concat b.data p (piece.take k) piece[k]
      rw [hlen] at hblit
      rw [List.take_add_one, hget, BipartiteBuffer.store, BipartiteBuffer.store,
        BipartiteBuffer.store, Option.toList_some, hblit]
    rw [producerSteps_add, ih (by omega), Option.bind_some, producerSteps_succ, ← hstore]
    simp only [Spsc.producerStep, hget]
    rfl

/-- From the acquired region to the end of `write_release`. -/
theorem producerSteps_release {p : ℕ} {b' : QueryBuffer}
    (h : (b.store p piece).writeRelease piece.length = some b') :
    ∃ n, producerSteps ⟨b, .copying piece p 0, cpc, todo, accepted, consumed⟩ n =
      some ⟨b', .idle, cpc, todo, accepted, consumed⟩ := by
  have hcopied := producerSteps_copying (b := b) cpc todo accepted consumed p
    (Nat.le_refl piece.length)
  rw [List.take_length] at hcopied
  have hend : piece[piece.length]? = none := List.getElem?_eq_none (Nat.le_refl _)
  obtain ⟨iw, hrel, rfl⟩ := Option.map_eq_some_iff.mp h
  rcases hflag : b.writeWrapped with _ | _
  · have hrel' : releaseAt QueryProcessor.BUFF_SZ b.w b.i piece.length = some iw := by
      simpa only [BipartiteBuffer.store, hflag, releaseStart, Bool.false_eq_true, if_false]
        using hrel
    refine ⟨piece.length + 4, ?_⟩
    rw [producerSteps_add, hcopied, Option.bind_some]
    simp only [producerSteps_succ, Spsc.producerStep, hend, BipartiteBuffer.store, hflag, hrel',
      Bool.false_eq_true, if_false, Option.bind_some, Option.map_some]
    rfl
  · have hrel' : releaseAt QueryProcessor.BUFF_SZ 0 b.w piece.length = some iw := by
      simpa only [BipartiteBuffer.store, hflag, releaseStart, if_true] using hrel
    refine ⟨piece.length + 3, ?_⟩
    rw [producerSteps_add, hcopied, Option.bind_some]
    simp only [producerSteps_succ, Spsc.producerStep, hend, BipartiteBuffer.store, hflag, hrel',
      if_true, Option.bind_some, Option.map_some]
    rfl

/-- **A piece.**  The producer's steps for one piece are `writePiece`. -/
theorem producerSteps_piece {b' : QueryBuffer} (h : writePiece b piece = some b') :
    ∃ n accepted', producerSteps ⟨b, .idle, cpc, piece :: todo, accepted, consumed⟩ n =
      some ⟨b', .idle, cpc, todo, accepted', consumed⟩ := by
  unfold writePiece at h
  unfold BipartiteBuffer.writeAcquire at h
  rcases hacq : acquireAt QueryProcessor.BUFF_SZ b.w b.r piece.length with _ | ⟨p, _ | _⟩
  · rw [hacq] at h
    obtain rfl := Option.some.inj h
    refine ⟨2, accepted, ?_⟩
    simp only [producerSteps_succ, Spsc.producerStep, hacq, Option.bind_some]
    rfl
  · rw [hacq] at h
    obtain ⟨n, hn⟩ := producerSteps_release cpc todo (accepted ++ [piece]) consumed h
    refine ⟨n + 2, accepted ++ [piece], ?_⟩
    simp only [producerSteps_succ, Spsc.producerStep, hacq, Option.bind_some]
    exact hn
  · rw [hacq] at h
    obtain ⟨n, hn⟩ := producerSteps_release cpc todo (accepted ++ [piece]) consumed h
    refine ⟨n + 2, accepted ++ [piece], ?_⟩
    simp only [producerSteps_succ, Spsc.producerStep, hacq, Option.bind_some]
    exact hn

theorem producerSteps_pieces {b' : QueryBuffer} {pieces : List Text}
    (h : run writePiece b pieces = some b') :
    ∃ n accepted', producerSteps ⟨b, .idle, cpc, pieces, accepted, consumed⟩ n =
      some ⟨b', .idle, cpc, [], accepted', consumed⟩ := by
  induction pieces generalizing b accepted with
  | nil =>
    obtain rfl := Option.some.inj h
    exact ⟨0, accepted, rfl⟩
  | cons piece pieces ih =>
    rw [run_cons, Option.bind_eq_some_iff] at h
    obtain ⟨b₁, hpiece, hrest⟩ := h
    obtain ⟨m, accepted₁, hm⟩ := producerSteps_piece cpc pieces accepted consumed hpiece
    obtain ⟨n, accepted₂, hn⟩ := ih accepted₁ hrest
    refine ⟨m + n, accepted₂, ?_⟩
    rw [producerSteps_add, hm, Option.bind_some, hn]

end Alone

/-- The steps of the producer as turns of the main thread. -/
theorem run_producer (q : QueryQueue) (n : ℕ) {spsc : QueryThreads}
    (h : producerSteps q.spsc n = some spsc) :
    ∃ t, run step q (List.replicate n .producer) = some t ∧ t.spsc = spsc ∧
      t.separator = q.separator ∧ t.added = q.added := by
  induction n generalizing q with
  | zero => exact ⟨q, rfl, Option.some.inj h, rfl, rfl⟩
  | succ n ih =>
    rw [producerSteps_succ, Option.bind_eq_some_iff] at h
    obtain ⟨spsc₁, hstep, hrest⟩ := h
    obtain ⟨t, hrun, hspsc, hsep, hadded⟩ := ih { q.note with spsc := spsc₁ } hrest
    refine ⟨t, ?_, hspsc, hsep.trans q.note_separator, hadded.trans q.note_added⟩
    rw [List.replicate_succ, run_cons]
    have hturn : q.step .producer = some { q.note with spsc := spsc₁ } :=
      congrArg (Option.map _) hstep
    rw [hturn, Option.bind_some, hrun]

/-- **A call of `_add_message` while the writer thread stands still** is
`addMessage`. -/
theorem run_addMessage {q : QueryQueue} (hbusy : q.busy = false) {message : Text}
    {p : QueryProcessor} (h : addMessage ⟨q.spsc.buffer, q.separator⟩ message = some p) :
    ∃ n t, run step q (.addMessage message :: List.replicate n .producer) = some t ∧
      t.busy = false ∧ t.spsc.buffer = p.queryBuffer ∧ t.spsc.consumer = q.spsc.consumer ∧
      t.spsc.consumed = q.spsc.consumed ∧ t.added = q.added ++ [message] := by
  rw [addMessage_eq] at h
  obtain ⟨b', hb', rfl⟩ := Option.map_eq_some_iff.mp h
  obtain ⟨hidle, htodo⟩ := idle_of_not_busy hbusy
  obtain ⟨⟨b, pc, cpc, todo, accepted, consumed⟩, separator, added, requested, stored⟩ := q
  obtain rfl : pc = .idle := hidle
  obtain rfl : todo = [] := htodo
  obtain ⟨n, accepted', hn⟩ := producerSteps_pieces cpc accepted consumed hb'
  obtain ⟨t, hrun, hspsc, -, hadded⟩ := run_producer
    ⟨⟨b, .idle, cpc, requests separator message, accepted, consumed⟩, separator,
      added ++ [message], [], none⟩ n hn
  refine ⟨n, t, ?_, ?_, ?_, ?_, ?_, hadded⟩
  · rw [run_cons]
    exact hrun
  · simp only [busy, hspsc]
  · rw [hspsc]
  · rw [hspsc]
  · rw [hspsc]

/-! ## A run with two messages -/

/-- The fresh queue, with `'\n'` as the separator. -/
def shortStart : QueryQueue := start (fun _ => 0) 10

/-- The main thread stores the first message, and the writer thread consumes it. -/
def firstTurns : List QueryTurn := List.replicate 15 .producer ++ List.replicate 7 (.consumer true)

/-- So with the second one. -/
def secondTurns : List QueryTurn := List.replicate 14 .producer ++ List.replicate 6 (.consumer true)

/-- The messages `ab` and `c`. -/
def pairTurns : List QueryTurn :=
  (.addMessage [97, 98] :: firstTurns) ++ .addMessage [99] :: secondTurns

theorem first_runs : (run step (shortStart.shortAdded [97, 98]) firstTurns).isSome = true := by
  decide

/-- `ab` is consumed, and the indexes meet at `3`. -/
def firstConsumed : QueryQueue :=
  (run step (shortStart.shortAdded [97, 98]) firstTurns).get first_runs

theorem step_first : shortStart.step (.addMessage [97, 98]) =
    some (shortStart.shortAdded [97, 98]) := step_short rfl (by decide)

theorem run_first : run step shortStart (.addMessage [97, 98] :: firstTurns) = some firstConsumed :=
  run_step step_first (Option.some_get first_runs).symm

theorem step_second : firstConsumed.step (.addMessage [99]) =
    some (firstConsumed.shortAdded [99]) := step_short (by decide) (by decide)

theorem run_pair :
    run step shortStart pairTurns = run step (firstConsumed.shortAdded [99]) secondTurns :=
  run_trans run_first (run_step step_second rfl)

/-- A condition holds along the run if it holds of the two calls and in between. -/
theorem meets_pair {P : QueryQueue → QueryTurn → Prop} (hadd : P shortStart (.addMessage [97, 98]))
    (hfirst : Meets step P (shortStart.shortAdded [97, 98]) firstTurns)
    (hadd' : P firstConsumed (.addMessage [99]))
    (hsecond : Meets step P (firstConsumed.shortAdded [99]) secondTurns) :
    Meets step P shortStart pairTurns := by
  refine Meets.append ⟨hadd, fun t ht => ?_⟩ fun t ht => ⟨?_, fun t' ht' => ?_⟩
  · obtain rfl := Option.some.inj (step_first.symm.trans ht)
    exact hfirst
  · obtain rfl := Option.some.inj (run_first.symm.trans ht)
    exact hadd'
  · obtain rfl := Option.some.inj (run_first.symm.trans ht)
    obtain rfl := Option.some.inj (step_second.symm.trans ht')
    exact hsecond

end QueryQueue

end Psql
end PsqlTcpProxy
