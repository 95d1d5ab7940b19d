import PsqlTcpProxy.Psql.QueryQueue

/-!
# Whole records

A message reaches the log as several requests, and every one of them can be
refused on its own.  So the log consists of whole records exactly as long as a
message is answered the same way throughout: `Uniform` asks that of every
`write_acquire` but the first of its message.  Then `Whole` is kept, and between
two calls of `_add_message` the log is the records of some of the messages.
-/

namespace PsqlTcpProxy
namespace Psql

open Library Io
open QueryProcessor hiding CHUNK_SZ BUFF_SZ

namespace QueryQueue

/-- A request for at least one character is answered like the first such request
of its message. -/
def AnsweredLike (q : QueryQueue) : ProducerPc UInt8 → Prop
  | .acquiring piece w => piece ≠ [] → ∀ first ∈ q.stored, q.spsc.granted piece w = first
  | _ => True

instance (q : QueryQueue) : DecidablePred q.AnsweredLike
  | .acquiring piece w => inferInstanceAs
      (Decidable (piece ≠ [] → ∀ first ∈ q.stored, q.spsc.granted piece w = first))
  | .idle | .copying .. | .loadingI .. | .storingI .. | .storingW .. => .isTrue trivial

/-- The main thread's next step is answered like the ones before. -/
def Uniform (q : QueryQueue) : QueryTurn → Prop
  | .producer => q.AnsweredLike q.spsc.producer
  | .addMessage _ | .consumer _ => True

instance (q : QueryQueue) : DecidablePred q.Uniform
  | .producer => inferInstanceAs (Decidable (q.AnsweredLike q.spsc.producer))
  | .addMessage _ | .consumer _ => .isTrue trivial

/-- The requests of the messages before the last are whole records, and of the
last message either all that was requested is accepted or nothing is. -/
structure Whole (q : QueryQueue) (old kept : List Text) (last : Option Text) : Prop where
  added : q.added = old ++ last.toList
  kept_sublist : kept.Sublist old
  accepted : q.spsc.accepted.flatten = kept.flatMap (record q.separator) ++
    if q.stored = some true then q.requested else []
  rest : q.requested ++ q.spsc.waiting.flatten = (last.map (record q.separator)).getD []
  unasked : q.stored = none → q.requested = []

theorem whole_start (data : ℕ → UInt8) (separator : UInt8) :
    (start data separator).Whole [] [] none :=
  ⟨rfl, List.Sublist.refl _, rfl, rfl, fun _ => rfl⟩

theorem waiting_of_not_busy {q : QueryQueue} (h : q.busy = false) : q.spsc.waiting = [] := by
  obtain ⟨hidle, htodo⟩ := idle_of_not_busy h
  rw [Spsc.waiting, hidle, htodo]
  rfl

/-- **Between two calls the accepted requests are whole records.** -/
theorem Whole.records {q : QueryQueue} {old kept : List Text} {last : Option Text}
    (h : q.Whole old kept last) (hbusy : q.busy = false) :
    ∃ kept' : List Text, kept'.Sublist q.added ∧
      q.spsc.accepted.flatten = kept'.flatMap (record q.separator) := by
  have hrest := h.rest
  rw [waiting_of_not_busy hbusy, List.flatten_nil, List.append_nil] at hrest
  by_cases hstored : q.stored = some true
  · refine ⟨kept ++ last.toList, ?_, ?_⟩
    · rw [h.added]
      exact h.kept_sublist.append (List.Sublist.refl _)
    · rw [h.accepted, if_pos hstored, hrest, List.flatMap_append]
      cases last with
      | none => rfl
      | some message => rw [Option.toList_some, List.flatMap_singleton]; rfl
  · refine ⟨kept, ?_, ?_⟩
    · rw [h.added]
      exact h.kept_sublist.trans (List.sublist_append_left _ _)
    · rw [h.accepted, if_neg hstored, List.append_nil]

/-- A call of `_add_message` starts a record. -/
theorem Whole.addMessage {q : QueryQueue} {old kept : List Text} {last : Option Text}
    (h : q.Whole old kept last) (hbusy : q.busy = false) (message : Text) {spsc : QueryThreads}
    (hspsc : q.spsc.step (.post (requests q.separator message)) = some spsc) :
    ∃ old' kept', Whole ⟨spsc, q.separator, q.added ++ [message], [], none⟩ old' kept'
      (some message) := by
  obtain ⟨kept', hsub, hacc⟩ := h.records hbusy
  obtain rfl := Option.some.inj hspsc
  refine ⟨q.added, kept', rfl, hsub, ?_, ?_, fun _ => rfl⟩
  · rw [if_neg (by rintro ⟨⟩), List.append_nil]
    exact hacc
  · have hwait := waiting_of_not_busy hbusy
    show [] ++ (q.spsc.producer.requesting ++ (q.spsc.todo ++ _)).flatten = _
    rw [← List.append_assoc]
    show [] ++ (q.spsc.waiting ++ _).flatten = _
    rw [hwait, List.nil_append, List.nil_append, flatten_requests]
    rfl

/-- **A step of the main thread** keeps the records whole, when its answer is
uniform. -/
theorem Whole.producer {q : QueryQueue} {old kept : List Text} {last : Option Text}
    (h : q.Whole old kept last) (hunif : q.Uniform .producer) {spsc : QueryThreads}
    (hspsc : q.spsc.producerStep = some spsc) : Whole { q.note with spsc } old kept last := by
  obtain ⟨hadded, hkept, haccepted, hrest, hunasked⟩ := h
  rcases Spsc.producerStep_waiting hspsc with ⟨piece, w, hpc, hwait, hacc⟩ | ⟨hpc, hwait, hacc⟩
  · rw [note_of_acquiring hpc]
    have hrest' : q.requested ++ piece ++ spsc.waiting.flatten =
        (last.map (record q.separator)).getD [] := by
      rw [← hrest, hwait, List.flatten_cons, List.append_assoc]
    by_cases hempty : piece = []
    · -- nothing is requested, so the answer does not matter
      subst hempty
      refine ⟨hadded, hkept, ?_, hrest', ?_⟩
      · show spsc.accepted.flatten = _
        rw [hacc, List.flatten_append, haccepted]
        simp only [if_true, List.append_nil]
        split <;> split <;> simp
      · intro hnone
        show q.requested ++ [] = []
        rw [List.append_nil]
        exact hunasked (by simpa using hnone)
    · refine ⟨hadded, hkept, ?_, hrest', ?_⟩
      · show spsc.accepted.flatten = _
        rw [hacc, List.flatten_append, haccepted]
        simp only [if_neg hempty, Option.some.injEq]
        rcases hstored : q.stored with _ | first
        · rw [hunasked hstored]
          cases q.spsc.granted piece w <;> simp
        · have hanswer : q.AnsweredLike (.acquiring piece w) := hpc ▸ hunif
          rw [hanswer hempty first hstored]
          cases first <;> simp
      · intro hnone
        simp only [if_neg hempty] at hnone
        cases hnone
  · rw [note_of_ne hpc]
    refine ⟨hadded, hkept, ?_, ?_, hunasked⟩
    · show spsc.accepted.flatten = _
      rw [hacc]
      exact haccepted
    · show q.requested ++ spsc.waiting.flatten = _
      rw [hwait]
      exact hrest

theorem Whole.step {q t : QueryQueue} {turn : QueryTurn}
    (h : ∃ old kept last, q.Whole old kept last) (hunif : q.Uniform turn)
    (hstep : q.step turn = some t) : ∃ old kept last, t.Whole old kept last := by
  obtain ⟨old, kept, last, h⟩ := h
  cases turn with
  | addMessage message =>
    by_cases hbusy : q.busy = true
    · obtain rfl := Option.some.inj ((if_pos hbusy).symm.trans hstep)
      exact ⟨old, kept, last, h⟩
    · obtain ⟨spsc, hspsc, rfl⟩ := Option.map_eq_some_iff.mp ((if_neg hbusy).symm.trans hstep)
      obtain ⟨old', kept', h'⟩ := h.addMessage (by simpa using hbusy) message hspsc
      exact ⟨old', kept', some message, h'⟩
  | producer =>
    obtain ⟨spsc, hspsc, rfl⟩ := Option.map_eq_some_iff.mp hstep
    exact ⟨old, kept, last, h.producer hunif hspsc⟩
  | consumer more =>
    obtain ⟨spsc, hspsc, rfl⟩ := Option.map_eq_some_iff.mp hstep
    obtain ⟨hpc, htodo, hacc⟩ := Spsc.consumerStep_frame hspsc
    obtain ⟨hadded, hkept, haccepted, hrest, hunasked⟩ := h
    refine ⟨old, kept, last, hadded, hkept, ?_, ?_, hunasked⟩
    · show spsc.accepted.flatten = _
      rw [hacc]
      exact haccepted
    · show q.requested ++ (spsc.producer.requesting ++ spsc.todo).flatten = _
      rw [hpc, htodo]
      exact hrest

/-- **Whole records.**  In every interleaving in which each message is answered uniformly,
between two calls of `_add_message` what was consumed and what is still buffered is the
records of some of the messages, in order. -/
theorem whole_of_uniform (data : ℕ → UInt8) (separator : UInt8) (turns : List QueryTurn)
    (hmeets : Meets step Uniform (start data separator) turns) :
    ∃ q, run step (start data separator) turns = some q ∧ (q.busy = false →
      ∃ kept : List Text, kept.Sublist q.added ∧
        q.spsc.consumed ++ q.spsc.buffered = kept.flatMap (record separator)) := by
  obtain ⟨q, hrun, hsafe⟩ := run_total step_safe
    ⟨inv_start data separator, rfl, [], List.Sublist.refl _, rfl⟩ turns
  refine ⟨q, hrun, ?_⟩
  intro hbusy
  obtain ⟨old, kept, last, hwhole⟩ := run_invariant
    (fun _ _ _ hI hP hs => Whole.step hI hP hs) ⟨[], [], none, whole_start data separator⟩
    hmeets hrun
  obtain ⟨kept', hsub, hacc⟩ := hwhole.records hbusy
  refine ⟨kept', hsub, ?_⟩
  have hseparator : q.separator = separator := hsafe.separator_eq
  rw [hsafe.inv.consumed_buffered (idle_of_not_busy hbusy).1, hacc, hseparator]

end QueryQueue

end Psql
end PsqlTcpProxy
