import PsqlTcpProxy.Library.Weaving
import PsqlTcpProxy.Psql.LogFormat
import PsqlTcpProxy.Psql.QueryProgress

/-!
# One log for all clients

A `psql_proxy` has one query processor, and the handlers of all sessions hand their texts to
it.  The main thread runs the handlers, one call at a time, in whatever order the clients'
bytes arrive; the writer thread takes the characters out meanwhile.

A call of a handler is one turn: it decides what is to be logged and in what order, and
nothing that `add_message` does comes back to it.  The texts are then added one after the
other, step by step.

`Woven` says what can be promised of the log.  `shared_log_whole`: while the requests of each
message are answered alike, the log is made of whole records, and the records of each client
are in its order.  `total_of_granted`: if no request is refused, none is missing.
-/

namespace PsqlTcpProxy
namespace Psql

open Library Io

variable {ι : Type} [DecidableEq ι]

/-- The handlers of the sessions and the query processor. -/
structure SharedLog (ι : Type) where
  /-- The handler of each session. -/
  handler : ι → Handler
  /-- What the call the main thread is in has still to add. -/
  pending : List (ι × Text)
  /-- The query processor and the two threads. -/
  queue : QueryQueue
  /-- Not in the source: the calls of each handler so far. -/
  calls : ι → List HandlerCall

/-- Whose turn it is. -/
inductive LogTurn (ι : Type) where
  /-- A channel of the session calls its handler. -/
  | call (i : ι) (c : HandlerCall)
  /-- The handler calls `add_message`. -/
  | add
  /-- A step of the main thread inside `add_message`. -/
  | main
  /-- A step of the writer thread. -/
  | writer (more : Bool)

namespace SharedLog

/-- Sessions that have seen nothing yet. -/
def start (data : ℕ → UInt8) (separator : UInt8) (fd : ι → FileDescriptor) : SharedLog ι :=
  { handler := fun i => .init (fd i), pending := [], queue := .start data separator,
    calls := fun _ => [] }

/-- The main thread is in no call of a handler. -/
def quiet (s : SharedLog ι) : Bool := s.pending.isEmpty && !s.queue.busy

/-- One turn.  The main thread does one thing at a time.  `none` is a failed assertion. -/
def step (s : SharedLog ι) : LogTurn ι → Option (SharedLog ι)
  | .call i c =>
    if s.quiet then
      let r := (s.handler i).call c.beyond c.result
      some { s with
        handler := Function.update s.handler i r.handler
        pending := (logged r.effects).map fun text => (i, text)
        calls := Function.update s.calls i (s.calls i ++ [c]) }
    else some s
  | .add =>
    match s.pending with
    | [] => some s
    | (_, text) :: pending =>
      if s.queue.busy then some s
      else (s.queue.step (.addMessage text)).map fun queue => { s with queue, pending }
  | .main => (s.queue.step .producer).map fun queue => { s with queue }
  | .writer more => (s.queue.step (.consumer more)).map fun queue => { s with queue }

/-- What the handler of a session has asked to log. -/
def texts (fd : ι → FileDescriptor) (s : SharedLog ι) (i : ι) : List Text :=
  logged ((Handler.init (fd i)).run (s.calls i)).effects

/-! ## What every turn keeps -/

theorem run_concat (h : Handler) (cs : List HandlerCall) (c : HandlerCall) :
    (h.run (cs ++ [c])).handler =
        ((h.run cs).handler.call c.beyond c.result).handler ∧
      (h.run (cs ++ [c])).effects =
        (h.run cs).effects ++ ((h.run cs).handler.call c.beyond c.result).effects := by
  induction cs generalizing h with
  | nil => exact ⟨rfl, List.append_nil _⟩
  | cons c' cs ih =>
    obtain ⟨hhandler, heffects⟩ := ih (h.call c'.beyond c'.result).handler
    refine ⟨hhandler, ?_⟩
    rw [List.cons_append, Handler.run, Handler.run]
    simp only [heffects, List.append_assoc]

/-- What was added is woven from what the sessions have logged, up to what is pending. -/
structure Tracks (fd : ι → FileDescriptor) (separator : UInt8) (s : SharedLog ι) : Prop where
  safe : s.queue.Safe separator
  handler : ∀ i, s.handler i = ((Handler.init (fd i)).run (s.calls i)).handler
  woven : ∃ f, Woven f s.queue.added ∧ ∀ i, f i ++ strand i s.pending = s.texts fd i

theorem tracks_start (data : ℕ → UInt8) (separator : UInt8) (fd : ι → FileDescriptor) :
    (start data separator fd).Tracks fd separator :=
  ⟨⟨QueryQueue.inv_start data separator, rfl, [], List.Sublist.refl _, rfl⟩, fun _ => rfl,
    fun _ => [], Woven.nil, fun _ => rfl⟩

/-- A call of `add_message` notes its message. -/
theorem added_addMessage {q t : QueryQueue} {message : Text} (hbusy : q.busy = false)
    (h : q.step (.addMessage message) = some t) : t.added = q.added ++ [message] := by
  have hidle : ¬ q.busy = true := by rw [hbusy]; exact Bool.false_ne_true
  obtain ⟨spsc, -, rfl⟩ := Option.map_eq_some_iff.mp ((if_neg hidle).symm.trans h)
  rfl

theorem added_of_ne {q t : QueryQueue} {turn : QueryTurn} (hturn : ∀ m, turn ≠ .addMessage m)
    (h : q.step turn = some t) : t.added = q.added := by
  cases turn with
  | addMessage message => exact absurd rfl (hturn message)
  | producer =>
    obtain ⟨spsc, -, rfl⟩ := Option.map_eq_some_iff.mp h
    exact q.note_added
  | consumer more =>
    obtain ⟨spsc, -, rfl⟩ := Option.map_eq_some_iff.mp h
    rfl

variable {fd : ι → FileDescriptor} {separator : UInt8}

/-- A call of a handler. -/
theorem Tracks.call {s : SharedLog ι} (h : s.Tracks fd separator) (hquiet : s.pending = [])
    (i : ι) (c : HandlerCall) :
    Tracks fd separator { s with
      handler := Function.update s.handler i
        ((s.handler i).call c.beyond c.result).handler
      pending := (logged ((s.handler i).call c.beyond c.result).effects).map fun text => (i, text)
      calls := Function.update s.calls i (s.calls i ++ [c]) } := by
  obtain ⟨hhandler, heffects⟩ := run_concat (Handler.init (fd i)) (s.calls i) c
  rw [← h.handler i] at hhandler heffects
  obtain ⟨f, hwoven, hf⟩ := h.woven
  refine ⟨h.safe, fun j => ?_, f, hwoven, fun j => ?_⟩
  · by_cases heq : j = i
    · subst heq
      simp only [Function.update_self]
      exact hhandler.symm
    · simp only [Function.update_of_ne heq]
      exact h.handler j
  · have hbefore := hf j
    rw [hquiet, strand_nil, List.append_nil] at hbefore
    rw [hbefore, strand_map]
    by_cases heq : j = i
    · subst heq
      simp only [texts, Function.update_self, if_pos, heffects, logged_append]
    · rw [if_neg (Ne.symm heq), List.append_nil]
      simp only [texts, Function.update_of_ne heq]

theorem step_tracks (s : SharedLog ι) (turn : LogTurn ι) (h : s.Tracks fd separator) :
    ∃ t, s.step turn = some t ∧ t.Tracks fd separator := by
  cases turn with
  | call i c =>
    by_cases hquiet : s.quiet = true
    · refine ⟨_, if_pos hquiet, h.call ?_ i c⟩
      exact List.isEmpty_iff.mp (Bool.and_eq_true_iff.mp hquiet).1
    · exact ⟨s, if_neg hquiet, h⟩
  | add =>
    rcases hpending : s.pending with _ | ⟨⟨i, text⟩, pending⟩
    · exact ⟨s, by rw [step, hpending], h⟩
    · by_cases hbusy : s.queue.busy = true
      · exact ⟨s, by simp only [step, hpending, if_pos hbusy], h⟩
      · obtain ⟨queue, hqueue, hsafe⟩ :=
          QueryQueue.step_safe s.queue (.addMessage text) h.safe
        refine ⟨{ s with queue, pending }, ?_, hsafe, h.handler, ?_⟩
        · simp only [step, hpending, if_neg hbusy, hqueue, Option.map_some]
        · obtain ⟨f, hwoven, hf⟩ := h.woven
          refine ⟨Function.update f i (f i ++ [text]), ?_, fun j => ?_⟩
          · show Woven _ queue.added
            rw [added_addMessage (by simpa using hbusy) hqueue]
            exact hwoven.append (Function.update_self i _ f)
              fun j hne => Function.update_of_ne hne _ _
          · have hj := hf j
            rw [hpending, strand_cons] at hj
            by_cases heq : i = j
            · subst heq
              rw [if_pos rfl] at hj
              rw [Function.update_self, List.append_assoc, List.singleton_append]
              exact hj
            · rw [if_neg heq] at hj
              rw [Function.update_of_ne (Ne.symm heq)]
              exact hj
  | main =>
    obtain ⟨queue, hqueue, hsafe⟩ := QueryQueue.step_safe s.queue .producer h.safe
    refine ⟨{ s with queue }, congrArg (Option.map _) hqueue, hsafe, h.handler, ?_⟩
    show ∃ f, Woven f queue.added ∧ _
    rw [added_of_ne (fun _ => by rintro ⟨⟩) hqueue]
    exact h.woven
  | writer more =>
    obtain ⟨queue, hqueue, hsafe⟩ := QueryQueue.step_safe s.queue (.consumer more) h.safe
    refine ⟨{ s with queue }, congrArg (Option.map _) hqueue, hsafe, h.handler, ?_⟩
    show ∃ f, Woven f queue.added ∧ _
    rw [added_of_ne (fun _ => by rintro ⟨⟩) hqueue]
    exact h.woven

/-! ## Every run -/

/-- The main thread's next step is answered as `P` says. -/
def Answers (P : QueryQueue → QueryTurn → Prop) (s : SharedLog ι) : LogTurn ι → Prop
  | .main => P s.queue .producer
  | .call .. | .add | .writer _ => True

instance {P : QueryQueue → QueryTurn → Prop} [∀ q, DecidablePred (P q)] (s : SharedLog ι) :
    DecidablePred (s.Answers P)
  | .main => inferInstanceAs (Decidable (P s.queue .producer))
  | .call .. | .add | .writer _ => .isTrue trivial

/-- A turn is a turn of the query processor, or none. -/
theorem step_queue {P : QueryQueue → QueryTurn → Prop} (hconsume : ∀ q more, P q (.consumer more))
    {s t : SharedLog ι} {turn : LogTurn ι}
    (hadd : turn = .add → ∀ p ∈ s.pending.head?, P s.queue (.addMessage p.2))
    (hP : s.Answers P turn) (hstep : s.step turn = some t) :
    t.queue = s.queue ∨ ∃ d, P s.queue d ∧ s.queue.step d = some t.queue := by
  cases turn with
  | call i c =>
    left
    simp only [step] at hstep
    split at hstep
    · obtain rfl := Option.some.inj hstep
      rfl
    · obtain rfl := Option.some.inj hstep
      rfl
  | add =>
    rcases hpending : s.pending with _ | ⟨⟨i, text⟩, pending⟩
    · simp only [step, hpending, Option.some.injEq] at hstep
      exact Or.inl (congrArg queue hstep.symm)
    · by_cases hbusy : s.queue.busy = true
      · simp only [step, hpending, if_pos hbusy, Option.some.injEq] at hstep
        exact Or.inl (congrArg queue hstep.symm)
      · simp only [step, hpending, if_neg hbusy, Option.map_eq_some_iff] at hstep
        obtain ⟨queue, hqueue, rfl⟩ := hstep
        exact Or.inr ⟨.addMessage text, hadd rfl (i, text) (by rw [hpending]; rfl), hqueue⟩
  | main =>
    obtain ⟨queue, hqueue, rfl⟩ := Option.map_eq_some_iff.mp hstep
    exact Or.inr ⟨.producer, hP, hqueue⟩
  | writer more =>
    obtain ⟨queue, hqueue, rfl⟩ := Option.map_eq_some_iff.mp hstep
    exact Or.inr ⟨.consumer more, hconsume _ _, hqueue⟩

/-- A run of the sessions is, as far as the query processor is concerned, one of its runs. -/
theorem queue_run {P : QueryQueue → QueryTurn → Prop} (hadd : ∀ q m, P q (.addMessage m))
    (hconsume : ∀ q more, P q (.consumer more)) {data : ℕ → UInt8} {turns : List (LogTurn ι)}
    (hmeets : Meets step (Answers P) (start data separator fd) turns) {s : SharedLog ι}
    (hrun : run step (start data separator fd) turns = some s) :
    ∃ ds, Meets QueryQueue.step P (.start data separator) ds ∧
      run QueryQueue.step (.start data separator) ds = some s.queue := by
  have hturn : ∀ (s : SharedLog ι) (q : QueryQueue) (turn : LogTurn ι) (t : SharedLog ι),
      s.queue = q → s.Answers P turn → s.step turn = some t →
        t.queue = q ∨ ∃ d q', P q d ∧ q.step d = some q' ∧ t.queue = q' := by
    rintro s q turn t rfl hP hstep
    rcases step_queue hconsume (fun _ _ _ => hadd _ _) hP hstep with hsame | ⟨d, hd, hnext⟩
    · exact Or.inl hsame
    · exact Or.inr ⟨d, t.queue, hd, hnext, rfl⟩
  obtain ⟨ds, q, hmeets', hrun', rfl⟩ := run_simulates hturn rfl hmeets hrun
  exact ⟨ds, hmeets', hrun'⟩

/-- The main thread leaves the writer thread where it is. -/
theorem step_frame {s t : SharedLog ι} {turn : LogTurn ι} (hturn : ∀ more, turn ≠ .writer more)
    (hstep : s.step turn = some t) :
    t.queue.spsc.consumer = s.queue.spsc.consumer ∧
      t.queue.spsc.consumed = s.queue.spsc.consumed := by
  cases turn with
  | call i c =>
    simp only [step] at hstep
    split at hstep
    · obtain rfl := Option.some.inj hstep
      exact ⟨rfl, rfl⟩
    · obtain rfl := Option.some.inj hstep
      exact ⟨rfl, rfl⟩
  | add =>
    rcases hpending : s.pending with _ | ⟨⟨i, text⟩, pending⟩
    · simp only [step, hpending, Option.some.injEq] at hstep
      exact hstep ▸ ⟨rfl, rfl⟩
    · by_cases hbusy : s.queue.busy = true
      · simp only [step, hpending, if_pos hbusy, Option.some.injEq] at hstep
        exact hstep ▸ ⟨rfl, rfl⟩
      · simp only [step, hpending, if_neg hbusy, Option.map_eq_some_iff] at hstep
        obtain ⟨queue, hqueue, rfl⟩ := hstep
        exact QueryQueue.step_frame rfl hqueue
  | main =>
    obtain ⟨queue, hqueue, rfl⟩ := Option.map_eq_some_iff.mp hstep
    exact QueryQueue.step_frame rfl hqueue
  | writer more => exact absurd rfl (hturn more)

/-- Between two calls of the handlers everything that was logged has been added. -/
theorem Tracks.added {s : SharedLog ι} (h : s.Tracks fd separator) (hquiet : s.quiet = true) :
    Woven (s.texts fd) s.queue.added ∧ s.queue.busy = false := by
  obtain ⟨hpending, hbusy⟩ := Bool.and_eq_true_iff.mp hquiet
  obtain ⟨f, hwoven, hf⟩ := h.woven
  have hnil : s.pending = [] := List.isEmpty_iff.mp hpending
  have htexts : s.texts fd = f := funext fun i => by rw [← hf i, hnil, strand_nil, List.append_nil]
  rw [htexts]
  exact ⟨hwoven, by simpa using hbusy⟩

/-- **Whole records, each client's in its order.**  However the clients' bytes arrive, the
texts are added and the writer thread moves: no assertion fails; and if the requests of each
message are answered alike, then between two calls of the handlers what was written and what
is buffered is a sequence of whole records, woven from some of the texts of each session, in
order. -/
theorem shared_log_whole (data : ℕ → UInt8) (separator : UInt8) (fd : ι → FileDescriptor)
    (turns : List (LogTurn ι)) :
    ∃ s, run step (start data separator fd) turns = some s ∧
      (Meets step (Answers QueryQueue.Uniform) (start data separator fd) turns →
        s.quiet = true → ∃ kept g, (∀ i, (g i).Sublist (s.texts fd i)) ∧ Woven g kept ∧
          s.queue.spsc.consumed ++ s.queue.spsc.buffered =
            kept.flatMap (QueryProcessor.record separator)) := by
  obtain ⟨s, hrun, htracks⟩ := run_total step_tracks (tracks_start data separator fd) turns
  refine ⟨s, hrun, fun hmeets hquiet => ?_⟩
  obtain ⟨hwoven, hbusy⟩ := htracks.added hquiet
  obtain ⟨ds, hmeets', hrun'⟩ := queue_run (fun _ _ => trivial) (fun _ _ => trivial) hmeets hrun
  obtain ⟨old, kept, last, hwhole⟩ := run_invariant
    (fun _ _ _ hI hP hs => QueryQueue.Whole.step hI hP hs)
    ⟨[], [], none, QueryQueue.whole_start data separator⟩ hmeets' hrun'
  obtain ⟨kept', hsub, haccepted⟩ := hwhole.records hbusy
  obtain ⟨g, hg, hkept⟩ := hwoven.of_sublist hsub
  refine ⟨kept', g, hg, hkept, ?_⟩
  have hseparator : s.queue.separator = separator := htracks.safe.separator_eq
  rw [htracks.safe.inv.consumed_buffered (QueryQueue.idle_of_not_busy hbusy).1, haccepted,
    hseparator]

/-- **What a log is made of.**  If no request is refused, then once the handlers are done
what was written and what is buffered is the texts of all sessions, none missing. -/
theorem total_of_granted {data : ℕ → UInt8} {turns : List (LogTurn ι)}
    (hgrants : Meets step (Answers QueryQueue.Grants) (start data separator fd) turns)
    {s : SharedLog ι} (hrun : run step (start data separator fd) turns = some s)
    (hquiet : s.quiet = true) :
    Woven (s.texts fd) s.queue.added ∧
      s.queue.spsc.consumed ++ s.queue.spsc.buffered = terminated separator s.queue.added := by
  obtain ⟨t, hrun', htracks⟩ := run_total step_tracks (tracks_start data separator fd) turns
  obtain rfl := Option.some.inj (hrun'.symm.trans hrun)
  obtain ⟨hwoven, hbusy⟩ := htracks.added hquiet
  obtain ⟨ds, hmeets, hqueue⟩ := queue_run (fun _ _ => trivial) (fun _ _ => trivial) hgrants hrun
  have hall : t.queue.AllAccepted :=
    run_invariant (fun _ _ _ hI hP hs => QueryQueue.step_allAccepted hI hP hs)
      (show (QueryQueue.start data separator).AllAccepted from rfl) hmeets hqueue
  exact ⟨hwoven, hall.total htracks.safe hbusy⟩

/-- Texts without a newline can be read back. -/
theorem lines_of_newlineFree {f : ι → List Text} {added : List Text} (h : Woven f added)
    (hfree : ∀ i, ∀ text ∈ f i, QueryQueue.NEWLINE ∉ text) :
    fields QueryQueue.NEWLINE (terminated QueryQueue.NEWLINE added) = added := by
  refine fields_terminated_iff.mpr fun text htext => ?_
  obtain ⟨i, hi⟩ := h.exists_mem htext
  exact hfree i text hi

/-! ## A run with one query -/

/-- A startup packet and the query `a`. -/
def letterBytes : List UInt8 := [0, 0, 0, 8, 0, 3, 0, 0, 81, 0, 0, 0, 6, 97, 0]

/-- They arrive together. -/
def letterCall : HandlerCall := ⟨fun _ _ => 0, .success letterBytes⟩

theorem parse_letter :
    parse false letterBytes = ⟨[⟨0, .be, [0, 3, 0, 0]⟩, ⟨81, .be, [97, 0]⟩], true, []⟩ := by
  have hstartup : nextPacket false letterBytes =
      some (⟨0, .be, [0, 3, 0, 0]⟩, true, [81, 0, 0, 0, 6, 97, 0]) := by decide
  have hquery : nextPacket true [81, 0, 0, 0, 6, 97, 0] = some (⟨81, .be, [97, 0]⟩, true, []) := by
    decide
  rw [parse_of_some hstartup, parse_of_some hquery, parse_of_none (by decide)]

theorem accepted_letter : ∀ p ∈ (parse false letterBytes).frames, p.Accepted := by
  rw [parse_letter]
  simp only [List.forall_mem_cons]
  exact ⟨Packet.accepted_of (by decide) (by decide) (by decide),
    Packet.accepted_of (by decide) (by decide) (by decide), by simp⟩

theorem call_letter (fd : FileDescriptor) :
    (Handler.init fd).call letterCall.beyond letterCall.result =
      { handler := ⟨[], true, fd⟩, effects := [.addMessage [97]] } := by
  rw [call_eq (h := Handler.init fd) rfl letterCall accepted_letter]
  show Handler.expected (Handler.init fd) letterBytes = _
  simp only [Handler.expected, Handler.init, parse_letter]
  rfl

/-- The client's bytes have been handled, and its text is in the query processor. -/
def letterAdded (s : SharedLog ι) (i : ι) (fd : FileDescriptor) : SharedLog ι :=
  { handler := Function.update s.handler i ⟨[], true, fd⟩
    pending := []
    queue := s.queue.shortAdded [97]
    calls := Function.update s.calls i (s.calls i ++ [letterCall]) }

/-- In between: the text is still to be added. -/
def letterCalled (s : SharedLog ι) (i : ι) (fd : FileDescriptor) : SharedLog ι :=
  { s.letterAdded i fd with pending := [(i, [97])], queue := s.queue }

theorem step_letter {s : SharedLog ι} {i : ι} {fd : FileDescriptor} (hquiet : s.quiet = true)
    (hinit : s.handler i = .init fd) :
    s.step (.call i letterCall) = some (s.letterCalled i fd) := by
  rw [step, if_pos hquiet]
  simp only [hinit, call_letter]
  rfl

theorem step_add {s : SharedLog ι} {i : ι} {fd : FileDescriptor} (hquiet : s.quiet = true) :
    (s.letterCalled i fd).step .add = some (s.letterAdded i fd) := by
  have hidle : s.queue.busy = false := by
    simpa using (Bool.and_eq_true_iff.mp hquiet).2
  have hadd : s.queue.step (.addMessage [97]) = some (s.queue.shortAdded [97]) :=
    QueryQueue.step_short hidle (by decide)
  rw [step, letterCalled]
  simp only [hidle, Bool.false_eq_true, if_false, hadd, Option.map_some]
  rfl

/-- A run that begins so. -/
theorem run_letter {s : SharedLog ι} {i : ι} {fd : FileDescriptor} (hquiet : s.quiet = true)
    (hinit : s.handler i = .init fd) (turns : List (LogTurn ι)) :
    run step s (.call i letterCall :: .add :: turns) = run step (s.letterAdded i fd) turns :=
  run_step (step_letter hquiet hinit) (run_step (step_add hquiet) rfl)

theorem meets_letter {P : QueryQueue → QueryTurn → Prop} {s : SharedLog ι} {i : ι}
    {fd : FileDescriptor} (hquiet : s.quiet = true) (hinit : s.handler i = .init fd)
    {turns : List (LogTurn ι)} (h : Meets step (Answers P) (s.letterAdded i fd) turns) :
    Meets step (Answers P) s (.call i letterCall :: .add :: turns) := by
  refine ⟨trivial, fun t ht => ⟨trivial, fun t' ht' => ?_⟩⟩
  obtain rfl := Option.some.inj ((step_letter hquiet hinit).symm.trans ht)
  obtain rfl := Option.some.inj ((step_add hquiet).symm.trans ht')
  exact h

/-! ## A run with two clients -/

/-- The clients' descriptors. -/
def twoSockets : Bool → FileDescriptor
  | false => 7
  | true => 8

/-- Both have seen nothing yet. -/
def twoStart : SharedLog Bool := start (fun _ => 0) QueryQueue.NEWLINE twoSockets

/-- The main thread stores a text, and the writer thread consumes it. -/
def letterStored : List (LogTurn Bool) :=
  List.replicate 14 .main ++ List.replicate 6 (.writer true)

/-- The bytes of one client arrive, and then those of the other. -/
def twoTurns : List (LogTurn Bool) :=
  (.call false letterCall :: .add :: letterStored) ++ .call true letterCall :: .add :: letterStored

theorem one_runs : (run step (twoStart.letterAdded false 7) letterStored).isSome = true := by
  decide

/-- The text of the first client is consumed, and the indexes meet at `2`. -/
def oneConsumed : SharedLog Bool :=
  (run step (twoStart.letterAdded false 7) letterStored).get one_runs

theorem run_one : run step twoStart (.call false letterCall :: .add :: letterStored) =
    some oneConsumed :=
  (run_letter rfl rfl letterStored).trans (Option.some_get one_runs).symm

theorem shared_log_whole_two : ∃ s, run step twoStart twoTurns = some s ∧
    ∃ kept g, (∀ i, (g i).Sublist (s.texts twoSockets i)) ∧ Woven g kept ∧
      s.queue.spsc.consumed ++ s.queue.spsc.buffered =
        kept.flatMap (QueryProcessor.record QueryQueue.NEWLINE) := by
  have hinit : oneConsumed.handler true = .init 8 := rfl
  have hquiet : oneConsumed.quiet = true := by decide
  have hend : (run step (oneConsumed.letterAdded true 8) letterStored).map quiet = some true := by
    decide
  obtain ⟨s, hrun, hwhole⟩ :=
    shared_log_whole (fun _ => 0) QueryQueue.NEWLINE twoSockets twoTurns
  have hrun' : run step (oneConsumed.letterAdded true 8) letterStored = some s := by
    rw [← run_letter hquiet hinit, ← hrun]
    exact (run_trans run_one rfl).symm
  rw [hrun', Option.map_some, Option.some.injEq] at hend
  refine ⟨s, hrun, hwhole ((meets_letter rfl rfl (by decide)).append fun t ht => ?_) hend⟩
  obtain rfl := Option.some.inj (run_one.symm.trans ht)
  exact meets_letter hquiet hinit (by decide)

end SharedLog

end Psql
end PsqlTcpProxy
