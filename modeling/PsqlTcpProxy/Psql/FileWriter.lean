import PsqlTcpProxy.Psql.QueryQueue

/-!
# The writer thread and its end

`file_writer::operator()` (`psql_proxy/file_writer.cpp`): a loop that tests whether
a stop is requested, calls `_process` once, and sleeps if that wrote nothing.  The
stream takes all it is offered, so the callback of `_process` consumes everything.

The main thread calls `add_message`, then `io::context::stop`, then nothing more; the
two threads are interleaved in any order.

The loop ends at its test, whatever is in the buffer then.  From the moment of the stop
on the writer takes what its current turn of the loop takes (`coming`) and no more, so
nothing is lost exactly if that is all there is (`shutdown_complete_iff`).
-/

namespace PsqlTcpProxy
namespace Io

variable {α : Type*} {size : ℕ}

/-! ## A round of the consumer -/

/-- The length of the region `read_acquire` hands out. -/
def regionLength (r w i : ℕ) : ℕ :=
  if r = w then 0 else if r < w then w - r else if r = i then w else i - r

/-- What a round of the consumer is still going to consume, when the callback takes all it
is offered and the producer stands still. -/
def ConsumerPc.coming (b : BipartiteBuffer α size) : ConsumerPc → ℕ
  | .idle | .acquiring _ => regionLength b.r b.w b.i
  | .loadingI r w => if r = b.i then w else b.i - r
  | .reading _ len k => len - k
  | .storingR .. => 0

/-- How far the consumer is from the end of its round, the cells apart. -/
def ConsumerPc.phase : ConsumerPc → ℕ
  | .idle => 5
  | .acquiring _ => 4
  | .loadingI .. => 3
  | .reading .. => 2
  | .storingR .. => 1

/-- What the consumer has been offered is coming, if it is anything. -/
theorem offered_coming (b : BipartiteBuffer α size) (q len : ℕ) :
    (Spsc.offered q len = .idle ∧ len = 0) ∨
      (Spsc.offered q len ≠ .idle ∧ (Spsc.offered q len).coming b = len ∧
        (Spsc.offered q len).phase = 2) := by
  rcases Nat.eq_zero_or_pos len with rfl | hpos
  · exact Or.inl ⟨rfl, rfl⟩
  · right
    rw [Spsc.offered, if_pos hpos]
    exact ⟨by rintro ⟨⟩, rfl, rfl⟩

/-- **A step of the round.**  What is consumed and what is coming stay the same together,
and the end of the round comes nearer. -/
theorem Spsc.consumerStep_coming {s t : Spsc α size} (h : s.Inv)
    (hstep : s.consumerStep true = some t) :
    (t.consumer = .idle ∧
      t.consumed.length = s.consumed.length + s.consumer.coming s.buffer) ∨
    (t.consumer ≠ .idle ∧
      t.consumed.length + t.consumer.coming t.buffer =
        s.consumed.length + s.consumer.coming s.buffer ∧
      t.consumer.coming t.buffer + t.consumer.phase <
        s.consumer.coming s.buffer + s.consumer.phase) := by
  obtain ⟨b, pc, cpc, todo, accepted, consumed⟩ := s
  -- the callback is offered a region of the length that was coming
  have hregion : ∀ (b' : BipartiteBuffer α size) (q len : ℕ), 3 ≤ cpc.phase →
      cpc.coming b = len →
      ((⟨b', pc, offered q len, todo, accepted, consumed⟩ : Spsc α size).consumer = .idle ∧
        consumed.length = consumed.length + cpc.coming b) ∨
      ((⟨b', pc, offered q len, todo, accepted, consumed⟩ : Spsc α size).consumer ≠ .idle ∧
        consumed.length + (offered q len).coming b' = consumed.length + cpc.coming b ∧
        (offered q len).coming b' + (offered q len).phase < cpc.coming b + cpc.phase) := by
    intro b' q len hphase hlen
    rcases offered_coming b' q len with ⟨hidle, hzero⟩ | ⟨hne, hcoming, htwo⟩
    · exact Or.inl ⟨hidle, by omega⟩
    · exact Or.inr ⟨hne, by omega, by omega⟩
  cases cpc with
  | idle =>
    obtain rfl := Option.some.inj hstep
    exact Or.inr ⟨by rintro ⟨⟩, rfl, Nat.lt_succ_self _⟩
  | acquiring r =>
    obtain rfl : r = b.r := h.consumer
    have hcoming : (ConsumerPc.acquiring b.r).coming b = regionLength b.r b.w b.i := rfl
    simp only [consumerStep] at hstep
    unfold regionLength at hcoming
    split at hstep
    · rename_i heq
      obtain rfl := Option.some.inj hstep
      rw [if_pos heq] at hcoming
      exact Or.inl ⟨rfl, by rw [hcoming]; rfl⟩
    · rename_i hne
      rw [if_neg hne] at hcoming
      split at hstep
      · rename_i hlt
        obtain rfl := Option.some.inj hstep
        rw [if_pos hlt] at hcoming
        exact hregion b b.r (b.w - b.r) (Nat.le_succ 3) hcoming
      · rename_i hge
        obtain rfl := Option.some.inj hstep
        rw [if_neg hge] at hcoming
        have hsame : (ConsumerPc.loadingI b.r b.w).coming b =
            (ConsumerPc.acquiring b.r).coming b := hcoming.symm
        refine Or.inr ⟨by rintro ⟨⟩, congrArg (consumed.length + ·) hsame, ?_⟩
        show (ConsumerPc.loadingI b.r b.w).coming b + 3 < (ConsumerPc.acquiring b.r).coming b + 4
        omega
  | loadingI r w =>
    have hcoming : (ConsumerPc.loadingI r w).coming b = if r = b.i then w else b.i - r := rfl
    simp only [consumerStep] at hstep
    split at hstep
    · rename_i heq
      obtain rfl := Option.some.inj hstep
      rw [if_pos heq] at hcoming
      exact hregion { b with readWrapped := true } 0 w (Nat.le_refl 3) hcoming
    · rename_i hne
      obtain rfl := Option.some.inj hstep
      rw [if_neg hne] at hcoming
      exact hregion b r (b.i - r) (Nat.le_refl 3) hcoming
  | reading q len k =>
    simp only [consumerStep, Bool.true_and, decide_eq_true_eq] at hstep
    split at hstep
    · rename_i hlt
      obtain rfl := Option.some.inj hstep
      refine Or.inr ⟨by rintro ⟨⟩, ?_, ?_⟩
      · show (consumed ++ [b.data (q + k)]).length + (len - (k + 1)) = consumed.length + (len - k)
        rw [List.length_append, List.length_singleton]
        omega
      · show len - (k + 1) + 2 < len - k + 2
        omega
    · rename_i hge
      obtain ⟨r, -, rfl⟩ := Option.map_eq_some_iff.mp hstep
      refine Or.inr ⟨by rintro ⟨⟩, ?_, ?_⟩
      · show consumed.length + 0 = consumed.length + (len - k)
        omega
      · show 0 + 1 < len - k + 2
        omega
  | storingR q len k r =>
    obtain rfl := Option.some.inj hstep
    exact Or.inl ⟨rfl, rfl⟩

end Io

namespace Psql

open Library Io
open QueryProcessor hiding CHUNK_SZ BUFF_SZ

/-! ## The two threads -/

/-- Where the writer thread is in `operator()`. -/
inductive WriterPc where
  /-- Before `is_stop_requested`. -/
  | testing
  /-- In `_process`. -/
  | processing
  /-- Behind `_process`, which has returned. -/
  | processed (writtenChars : ℕ)
  /-- In `sleep_for`. -/
  | sleeping
  /-- Behind the loop. -/
  | returned
  deriving DecidableEq

/-- `file_writer`, while its thread and the main thread are running.  The stream has been
passed what the queue's consumer has consumed. -/
structure FileWriter where
  /-- `_data_processor` -/
  dataProcessor : QueryQueue
  /-- `_io_context->is_stop_requested()` -/
  stopRequested : Bool
  /-- The writer thread. -/
  pc : WriterPc

/-- Whose turn it is. -/
inductive WriterTurn where
  /-- The main thread calls `add_message`. -/
  | addMessage (message : Text)
  /-- A step of the main thread inside `add_message`. -/
  | producer
  /-- The main thread calls `stop`. -/
  | stop
  /-- A step of the writer thread. -/
  | writer

namespace FileWriter

/-- Both threads are started. -/
def start (data : ℕ → UInt8) (separator : UInt8) : FileWriter :=
  { dataProcessor := .start data separator, stopRequested := false, pc := .testing }

/-- What `_process` returns, if its next step is its last. -/
def result : ConsumerPc → ℕ
  | .storingR _ _ k _ => k
  | _ => 0

/-- One step of the writer thread. -/
def writerStep (s : FileWriter) : Option FileWriter :=
  match s.pc with
  | .testing => some { s with pc := if s.stopRequested then .returned else .processing }
  | .processing =>
    (s.dataProcessor.step (.consumer true)).map fun q => { s with
      dataProcessor := q
      pc :=
        match q.spsc.consumer with
        | .idle => .processed (result s.dataProcessor.spsc.consumer)
        | _ => .processing }
  | .processed writtenChars =>
    some { s with pc := if writtenChars = 0 then .sleeping else .testing }
  | .sleeping => some { s with pc := .testing }
  | .returned => some s

/-- One turn.  The main thread makes one call at a time, and none after `stop`. -/
def step (s : FileWriter) : WriterTurn → Option FileWriter
  | .addMessage message =>
    if s.stopRequested then some s
    else (s.dataProcessor.step (.addMessage message)).map fun q => { s with dataProcessor := q }
  | .producer => (s.dataProcessor.step .producer).map fun q => { s with dataProcessor := q }
  | .stop => some (if s.dataProcessor.busy then s else { s with stopRequested := true })
  | .writer => s.writerStep

/-- The characters passed to the stream. -/
def written (s : FileWriter) : Text := s.dataProcessor.spsc.consumed

/-- The characters for which `write_acquire` succeeded. -/
def accepted (s : FileWriter) : Text := s.dataProcessor.spsc.accepted.flatten

/-- The characters in the buffer that the stream has not been passed. -/
def unwritten (s : FileWriter) : Text := s.dataProcessor.spsc.buffered

/-- What the writer is still going to write in this turn of its loop, once nothing is
added any more. -/
def coming (s : FileWriter) : ℕ :=
  match s.pc with
  | .processing => s.dataProcessor.spsc.consumer.coming s.dataProcessor.spsc.buffer
  | _ => 0

/-! ## Every interleaving -/

/-- **Every turn** is a turn of the query processor or leaves it alone. -/
theorem step_inv (s : FileWriter) (turn : WriterTurn) (h : s.dataProcessor.spsc.Inv) :
    ∃ t, s.step turn = some t ∧ t.dataProcessor.spsc.Inv := by
  cases turn with
  | addMessage message =>
    by_cases hstop : s.stopRequested = true
    · exact ⟨s, if_pos hstop, h⟩
    · obtain ⟨q, hq, hinv⟩ := s.dataProcessor.step_inv (.addMessage message) h
      exact ⟨{ s with dataProcessor := q }, (if_neg hstop).trans (congrArg (Option.map _) hq), hinv⟩
  | producer =>
    obtain ⟨q, hq, hinv⟩ := s.dataProcessor.step_inv .producer h
    exact ⟨{ s with dataProcessor := q }, congrArg (Option.map _) hq, hinv⟩
  | stop =>
    refine ⟨_, rfl, ?_⟩
    split
    · exact h
    · exact h
  | writer =>
    obtain ⟨q, stop, pc⟩ := s
    cases pc with
    | processing =>
      obtain ⟨q', hq, hinv⟩ := q.step_inv (.consumer true) h
      exact ⟨_, congrArg (Option.map _) hq, hinv⟩
    | testing => exact ⟨_, rfl, h⟩
    | processed n => exact ⟨_, rfl, h⟩
    | sleeping => exact ⟨_, rfl, h⟩
    | returned => exact ⟨_, rfl, h⟩

/-- The main thread has called `stop`. -/
structure Stopped (s : FileWriter) : Prop where
  requested : s.stopRequested = true
  quiet : s.dataProcessor.busy = false
  inv : s.dataProcessor.spsc.Inv

/-- The main thread has nothing left to do. -/
theorem producer_quiet {q : QueryQueue} (h : q.busy = false) : q.step .producer = some q := by
  obtain ⟨hidle, htodo⟩ := QueryQueue.idle_of_not_busy h
  have hnote : q.note = q := by
    unfold QueryQueue.note
    rw [hidle]
  have hstep : q.spsc.step .producer = some q.spsc := by
    show q.spsc.producerStep = some q.spsc
    unfold Spsc.producerStep
    rw [hidle, htodo]
  show (q.spsc.step .producer).map _ = some q
  rw [hstep, hnote]
  rfl

/-- How far the writer thread is from its end. -/
def rank (s : FileWriter) : ℕ :=
  match s.pc with
  | .returned => 0
  | .testing => 1
  | .sleeping => 2
  | .processed _ => 3
  | .processing => s.coming + s.dataProcessor.spsc.consumer.phase + 3

/-- From `s` on, once `stop` is called: nothing is accepted any more, and what is coming
is written. -/
structure Ending (s t : FileWriter) : Prop where
  stopped : t.Stopped
  accepted : t.accepted = s.accepted
  written : t.written.length + t.coming = s.written.length + s.coming

theorem Ending.trans {s t u : FileWriter} (h : Ending s t) (h' : Ending t u) : Ending s u :=
  ⟨h'.stopped, h'.accepted.trans h.accepted, h'.written.trans h.written⟩

/-- **One step of the writer thread** after `stop`. -/
theorem writerStep_ending {s : FileWriter} (h : s.Stopped) :
    ∃ t, s.writerStep = some t ∧ Ending s t ∧ (s.pc ≠ .returned → t.rank < s.rank) := by
  obtain ⟨q, stop, pc⟩ := s
  obtain ⟨rfl, hquiet, hinv⟩ := h
  have hstopped : ∀ pc' : WriterPc, (⟨q, true, pc'⟩ : FileWriter).Stopped :=
    fun pc' => ⟨rfl, hquiet, hinv⟩
  cases pc with
  | testing =>
    exact ⟨⟨q, true, .returned⟩, rfl, ⟨hstopped _, rfl, rfl⟩, fun _ => Nat.zero_lt_one⟩
  | sleeping =>
    exact ⟨⟨q, true, .testing⟩, rfl, ⟨hstopped _, rfl, rfl⟩, fun _ => Nat.lt_succ_self 1⟩
  | returned =>
    exact ⟨⟨q, true, .returned⟩, rfl, ⟨hstopped _, rfl, rfl⟩, fun hne => absurd rfl hne⟩
  | processed n =>
    by_cases hzero : n = 0
    · refine ⟨⟨q, true, .sleeping⟩, ?_, ⟨hstopped _, rfl, rfl⟩, fun _ => Nat.lt_succ_self 2⟩
      simp only [writerStep, if_pos hzero]
    · refine ⟨⟨q, true, .testing⟩, ?_, ⟨hstopped _, rfl, rfl⟩, fun _ => Nat.le_succ 2⟩
      simp only [writerStep, if_neg hzero]
  | processing =>
    obtain ⟨spsc, hspsc, hinv'⟩ := Spsc.consumerStep_inv q.spsc true hinv
    obtain ⟨hproducer, htodo, haccepted⟩ := Spsc.consumerStep_frame hspsc
    have hq : q.step (.consumer true) = some { q with spsc } := congrArg (Option.map _) hspsc
    have hbusy : ({ q with spsc } : QueryQueue).busy = false := by
      rw [← hquiet]
      unfold QueryQueue.busy
      rw [hproducer, htodo]
    have hflatten : spsc.accepted.flatten = q.spsc.accepted.flatten :=
      congrArg List.flatten haccepted
    rcases Spsc.consumerStep_coming hinv hspsc with ⟨hidle, hlen⟩ | ⟨hbetween, hlen, hnear⟩
    · refine ⟨⟨{ q with spsc }, true, .processed (result q.spsc.consumer)⟩, ?_,
        ⟨⟨rfl, hbusy, hinv'⟩, hflatten, hlen⟩, fun _ => ?_⟩
      · simp only [writerStep, hq, Option.map_some, hidle]
      · show 3 < _ + q.spsc.consumer.phase + 3
        have hphase : 0 < q.spsc.consumer.phase := by
          cases q.spsc.consumer <;> exact Nat.succ_pos _
        omega
    · refine ⟨⟨{ q with spsc }, true, .processing⟩, ?_,
        ⟨⟨rfl, hbusy, hinv'⟩, hflatten, hlen⟩, fun _ => Nat.add_lt_add_right hnear 3⟩
      -- the round is not over, by `hbetween`
      simp only [writerStep, hq, Option.map_some]

/-- **One turn** after `stop`. -/
theorem step_ending {s : FileWriter} (h : s.Stopped) (turn : WriterTurn) :
    ∃ t, s.step turn = some t ∧ Ending s t := by
  have hstay : Ending s s := ⟨h, rfl, rfl⟩
  cases turn with
  | addMessage message => exact ⟨s, if_pos h.requested, hstay⟩
  | producer => exact ⟨s, congrArg (Option.map _) (producer_quiet h.quiet), hstay⟩
  | stop =>
    refine ⟨{ s with stopRequested := true }, ?_, ⟨rfl, h.quiet, h.inv⟩, rfl, rfl⟩
    simp only [step, h.quiet]
    rfl
  | writer =>
    obtain ⟨t, hstep, hending, -⟩ := writerStep_ending h
    exact ⟨t, hstep, hending⟩

/-- **Every interleaving** after `stop`. -/
theorem run_ending {s : FileWriter} (h : s.Stopped) (turns : List WriterTurn) :
    ∃ t, run step s turns = some t ∧ Ending s t :=
  run_total (fun _ turn hs => by
    obtain ⟨t, hstep, ht⟩ := step_ending hs.stopped turn
    exact ⟨t, hstep, hs.trans ht⟩) ⟨h, rfl, rfl⟩ turns

/-- **The writer thread comes to its end.** -/
theorem run_returned {s : FileWriter} (h : s.Stopped) :
    ∃ n t, run step s (List.replicate n .writer) = some t ∧ Ending s t ∧ t.pc = .returned :=
  run_reaches rank (fun _ hs hne => by
    obtain ⟨t, hstep, ht, hrank⟩ := writerStep_ending hs.stopped
    exact ⟨t, hstep, hs.trans ht, hrank hne⟩) ⟨h, rfl, rfl⟩

/-- What is written at the end is what was, and what was coming. -/
theorem Ending.length_written {s t : FileWriter} (h : Ending s t) (hreturned : t.pc = .returned) :
    t.written.length = s.written.length + s.coming := by
  have hnone : t.coming = 0 := by rw [coming, hreturned]
  rw [← h.written, hnone, Nat.add_zero]

/-- **When shutdown loses nothing.**  Take any interleaving up to a moment at which the main
thread is between two calls, and let it call `stop` there.  Everything `write_acquire` was
granted for is written whenever the writer thread has come to its end, if and only if all
that is unwritten at that moment is what the current turn of the loop is going to write. -/
theorem shutdown_complete_iff (data : ℕ → UInt8) (separator : UInt8) (turns : List WriterTurn) :
    ∃ s, run step (start data separator) turns = some s ∧ (s.dataProcessor.busy = false →
      ((∀ rest t, run step s (.stop :: rest) = some t → t.pc = .returned →
          t.written = t.accepted) ↔
        s.coming = s.unwritten.length)) := by
  obtain ⟨s, hrun, hinv⟩ := run_total (I := fun s : FileWriter => s.dataProcessor.spsc.Inv)
    step_inv (s := start data separator) (QueryQueue.inv_start data separator) turns
  refine ⟨s, hrun, fun hquiet => ?_⟩
  have hstop : s.step .stop = some { s with stopRequested := true } := by
    simp only [step, hquiet]
    rfl
  have hstopped : ({ s with stopRequested := true } : FileWriter).Stopped := ⟨rfl, hquiet, hinv⟩
  have htotal : s.written.length + s.unwritten.length = s.accepted.length := by
    rw [← List.length_append]
    exact congrArg List.length
      (hinv.consumed_buffered (QueryQueue.idle_of_not_busy hquiet).1)
  constructor
  · intro hall
    obtain ⟨n, t, hn, hending, hreturned⟩ := run_returned hstopped
    have hrest : run step s (.stop :: List.replicate n .writer) = some t := by
      rw [run_cons, hstop, Option.bind_some, hn]
    have hlen := hending.length_written hreturned
    rw [hall _ t hrest hreturned, hending.accepted] at hlen
    have hlen' : s.accepted.length = s.written.length + s.coming := hlen
    omega
  · intro hcoming rest t hrest hreturned
    rw [run_cons, hstop, Option.bind_some] at hrest
    obtain ⟨t', ht', hending⟩ := run_ending hstopped rest
    obtain rfl := Option.some.inj (ht'.symm.trans hrest)
    have hlen := hending.length_written hreturned
    have hlen' : t'.written.length = s.written.length + s.coming := hlen
    have haccepted : t'.accepted = s.accepted := hending.accepted
    refine hending.stopped.inv.consumed_prefix.eq_of_length ?_
    show t'.written.length = t'.accepted.length
    rw [haccepted]
    omega

/-- The writer thread before its first test, when the main thread has been given the
message `a`. -/
def hastyStart : FileWriter where
  dataProcessor :=
    { spsc := { (Spsc.start fun _ => 0) with todo := [[97], [10]] }
      separator := 10
      added := [[97]]
      requested := []
      stored := none }
  stopRequested := false
  pc := .testing

/-- The main thread stores the message and stops, then the writer thread makes its test. -/
def hastyTurns : List WriterTurn := List.replicate 14 .producer ++ [.stop, .writer]

/-- **A query that is lost.**  `write_acquire` is granted for the message and for the
separator, the writer thread comes to its end, and nothing is written. -/
theorem query_lost_at_stop :
    ∃ t, run step (start (fun _ => 0) 10) (.addMessage [97] :: hastyTurns) = some t ∧
      t.pc = .returned ∧ t.accepted = [97, 10] ∧ t.written = [] := by
  have hadd : (start (fun _ => 0) 10).step (.addMessage [97]) = some hastyStart := by
    have hidle : (start (fun _ => 0) 10).dataProcessor.busy = false := rfl
    have hseparator : (start (fun _ => 0) 10).dataProcessor.separator = 10 := rfl
    rw [step, QueryQueue.step, hidle, hseparator,
      QueryProcessor.requests_of_short 10 (Nat.le_of_ble_eq_true rfl)]
    rfl
  have heval : (run step hastyStart hastyTurns).map
      (fun t => (t.pc, t.accepted, t.written)) = some (.returned, [97, 10], []) := by decide
  obtain ⟨t, hrun, ht⟩ := Option.map_eq_some_iff.mp heval
  rw [Prod.mk.injEq, Prod.mk.injEq] at ht
  refine ⟨t, ?_, ht.1, ht.2.1, ht.2.2⟩
  rw [run_cons, hadd, Option.bind_some, hrun]

end FileWriter

end Psql
end PsqlTcpProxy
