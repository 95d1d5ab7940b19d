import PsqlTcpProxy.Proxy.Teardown

/-!
# Failures of the endpoints

A read that fails enqueues an error event for the descriptor it was called for, and the
session is torn down when that event is dispatched.  A write that fails is only logged.

`Failure` is a call of a channel's callback in a run of the server in which one of the two
fails.  Such a call ends its session exactly when an error event for one of the session's
descriptors is there anyway: the read of the same event failed too, or one is in the queue
already, or an input callback enqueues one.
-/

namespace PsqlTcpProxy

namespace Io

open Library

variable {η : Type}

namespace Outcome

/-- `async_read_some` returned an error. -/
def readFailed (o : Outcome η) : Bool :=
  match o.readCall with
  | some (.error _) => true
  | _ => false

/-- `async_write_some` returned an error. -/
def writeFailed (o : Outcome η) : Bool := (o.writeCall.map WriteCall.failed).getD false

end Outcome

namespace Channel

/-- The events the input callbacks enqueue. -/
def inputEvents (c : Channel η) (o : Outcome η) : List Event :=
  (o.readCall.map fun res => (runHandlers c.handlers c.handlerState res).events).getD []

section Errors

variable {c : Channel η} {o : Outcome η} {fd : FileDescriptor}

theorem readPart_events {read : ReadResult CHUNK_SZ} (h : c.readPart fd read = some o) :
    o.writeCall = none ∧
      o.events = (if o.readFailed then [⟨fd, Flags.error⟩] else []) ++ c.inputEvents o := by
  obtain ⟨b, ⟨-, rfl⟩ | ⟨err, -, rfl⟩ | ⟨bytes, -, rfl⟩⟩ := readPart_inv h
  · exact ⟨rfl, rfl⟩
  · exact ⟨rfl, rfl⟩
  · exact ⟨rfl, rfl⟩

/-- A write enqueues no error event, whatever comes of it. -/
theorem writePart_events {write : (offered : List UInt8) → WriteResult offered.length}
    (h : c.writePart fd write = some o) :
    o.readCall = none ∧ ∀ e ∈ o.events, e.flags.test Flags.error = false := by
  obtain ⟨b, events, writeCall, rfl, rfl | rfl⟩ := writePart_inv h
  · exact ⟨rfl, by rintro e ⟨⟩⟩
  · refine ⟨rfl, fun e he => ?_⟩
    rw [List.mem_singleton.mp he]
    exact Flags.test_out_error

/-- **The error events of the left handler**: that of a failed read, and those of the input
callbacks. -/
theorem mem_events_left {mask : Flags} {read : ReadResult CHUNK_SZ}
    {write : (offered : List UInt8) → WriteResult offered.length}
    (h : c.handleLeftIoEvent fd mask read write = some o) {e : Event}
    (he : e.flags.test Flags.error = true) :
    e ∈ o.events ↔ (o.readFailed = true ∧ e = ⟨fd, Flags.error⟩) ∨ e ∈ c.inputEvents o := by
  unfold handleLeftIoEvent at h
  split at h
  · obtain ⟨read', hread, h⟩ := Option.bind_eq_some_iff.mp h
    obtain ⟨-, hevents⟩ := readPart_events hread
    have hsplit : e ∈ read'.events ↔
        (read'.readFailed = true ∧ e = ⟨fd, Flags.error⟩) ∨ e ∈ c.inputEvents read' := by
      rw [hevents, List.mem_append]
      refine or_congr_left ?_
      split
      · rename_i hfailed
        rw [List.mem_singleton]
        exact ⟨fun heq => ⟨hfailed, heq⟩, And.right⟩
      · rename_i hfailed
        exact ⟨fun hmem => absurd hmem List.not_mem_nil, fun hand => absurd hand.1 hfailed⟩
    split at h
    · obtain rfl := Option.some.inj h
      exact hsplit
    · obtain ⟨o', hwrite, rfl⟩ := Option.map_eq_some_iff.mp h
      obtain ⟨-, hquiet⟩ := writePart_events hwrite
      show e ∈ read'.events ++ o'.events ↔ (read'.readFailed = true ∧ _) ∨ e ∈ c.inputEvents read'
      rw [List.mem_append, hsplit]
      refine or_iff_left fun hmem => ?_
      rw [hquiet e hmem] at he
      cases he
  · obtain rfl := Option.some.inj h
    constructor
    · rintro ⟨⟩
    · rintro (⟨⟨⟩, -⟩ | ⟨⟨⟩⟩)

/-- **The right handler** enqueues no error event. -/
theorem mem_events_right {mask : Flags}
    {write : (offered : List UInt8) → WriteResult offered.length}
    (h : c.handleRightIoEvent fd mask write = some o) {e : Event}
    (he : e.flags.test Flags.error = true) :
    e ∈ o.events ↔ (o.readFailed = true ∧ e = ⟨fd, Flags.error⟩) ∨ e ∈ c.inputEvents o := by
  have hboth : o.readCall = none ∧ ∀ e ∈ o.events, e.flags.test Flags.error = false := by
    unfold handleRightIoEvent at h
    split at h
    · exact writePart_events h
    · obtain rfl := Option.some.inj h
      exact ⟨rfl, by rintro e ⟨⟩⟩
  obtain ⟨hcall, hquiet⟩ := hboth
  constructor
  · intro hmem
    rw [hquiet e hmem] at he
    cases he
  · rintro (⟨hfailed, -⟩ | hmem)
    · rw [Outcome.readFailed, hcall] at hfailed
      cases hfailed
    · rw [inputEvents, hcall] at hmem
      cases hmem

end Errors

end Channel

end Io

namespace Proxy

open Library Io Server

variable {η : Type} {cfg : Config η}

/-! ## The call of a channel -/

/-- The channel a callback belongs to. -/
def channelOf (w : World η) : Callback → Option (Channel η)
  | .left sid dir | .right sid dir => (w.sessions sid).map fun x => (x.flow dir).channel
  | .accept | .session _ => none

/-- What the handler of a channel does with the kernel's answers. -/
def handle (cfg : Config η) (w : World η) (c : Channel η) (ev : Event) :
    Callback → Option (Outcome η)
  | .left _ _ => c.handleLeftIoEvent ev.fd ev.flags
      (asyncReadSome c.left w.errno (cfg.kernel w.tick).recv) fun offered =>
        asyncWriteSome c.right (readErrno c (cfg.kernel w.tick) w.errno)
          ((cfg.kernel w.tick).send offered)
  | .right _ _ => c.handleRightIoEvent ev.fd ev.flags fun offered =>
      asyncWriteSome c.right w.errno ((cfg.kernel w.tick).send offered)
  | .accept | .session _ => none

section Calls

variable {s : ProxyBus η}

theorem enqueueAll_events (queued evs : List Event) :
    Ends cfg (fun t => t.events = queued) (enqueueAll evs)
      fun r t => r = .ok () ∧ t.events = queued ++ evs := by
  induction evs generalizing queued with
  | nil => exact Program.Triple.pure fun t ht => ⟨rfl, ht.trans (List.append_nil queued).symm⟩
  | cons ev evs ih =>
    refine Program.Triple.bind (R := fun r t => r = .ok () ∧ t.events = queued ++ [ev]) ?_ ?_ ?_
    · exact Program.Triple.lift fun t ht => ⟨rfl, congrArg (· ++ [ev]) ht⟩
    · intro _ t ht
      have hrest := ih (queued ++ [ev]) t ht.2
      rw [List.append_assoc] at hrest
      exact hrest
    · rintro e t ⟨⟨⟩, -⟩

/-- **A callback of a channel** enqueues the events of its handler. -/
theorem channelEvent_events {sid : SessionId} {dir : Direction}
    {handle : Channel η → Answer → ℤ → Option (Outcome η)} {x : Session η}
    (hx : s.world.sessions sid = some x) {o : Outcome η}
    (ho : handle (x.flow dir).channel (cfg.kernel s.world.tick) s.world.errno = some o) :
    (s.exec (host cfg) (channelEvent cfg sid dir handle)).2.events = s.events ++ o.events := by
  simp only [Bus.exec, channelEvent, ask, world, setWorld, perform, Program.exec_bind,
    Program.exec_lift, Program.andThen_ok, Bus.perform, Program.exec_pure, hx, ho]
  rw [← Program.exec_bind]
  refine (Program.Triple.bind (enqueueAll_events s.events o.events) ?_ fun _ _ ht => ht.2 :
    Ends cfg _ _ fun _ t => t.events = s.events ++ o.events) _ rfl
  intro _
  split
  · exact Program.Triple.throw fun t ht => ht.2
  · exact Program.Triple.pure fun t ht => ht.2

theorem callback_events {callback : Callback} {c : Channel η} {ev : Event} {o : Outcome η}
    (hc : channelOf s.world callback = some c) (ho : handle cfg s.world c ev callback = some o) :
    (s.exec (host cfg) ((host cfg).callback callback ev.fd ev.flags)).2.events =
      s.events ++ o.events := by
  cases callback with
  | accept => cases hc
  | session _ => cases hc
  | left sid dir =>
    obtain ⟨x, hx, rfl⟩ := Option.map_eq_some_iff.mp hc
    show (s.exec (host cfg) (leftEvent cfg sid dir ev.fd ev.flags)).2.events = _
    unfold leftEvent
    exact channelEvent_events hx ho
  | right sid dir =>
    obtain ⟨x, hx, rfl⟩ := Option.map_eq_some_iff.mp hc
    show (s.exec (host cfg) (rightEvent cfg sid dir ev.fd ev.flags)).2.events = _
    unfold rightEvent
    exact channelEvent_events hx ho

/-- **The error events of a callback.** -/
theorem mem_events_handle {w : World η} {callback : Callback} {c : Channel η} {ev : Event}
    {o : Outcome η} (ho : handle cfg w c ev callback = some o) {e : Event}
    (he : e.flags.test Flags.error = true) :
    e ∈ o.events ↔ (o.readFailed = true ∧ e = ⟨ev.fd, Flags.error⟩) ∨ e ∈ c.inputEvents o := by
  cases callback with
  | accept => cases ho
  | session _ => cases ho
  | left _ _ => exact Channel.mem_events_left ho he
  | right _ _ => exact Channel.mem_events_right ho he

end Calls

/-! ## An error event in the queue -/

/-- The session is gone, or it is registered and an error event of it is in the queue. -/
structure Doomed (cfg : Config η) (s : ProxyBus η) (sid : SessionId) (fds : List FileDescriptor) :
    Prop where
  settled : Settled cfg s
  clear : s.callbacksToRemove = []
  fate : Gone s sid ∨ ∃ x, Registered s sid x ∧ x.fds = fds ∧ ∃ e ∈ s.events, Fatal x e

/-- `_wait_events` returns. -/
def Succeeds (polled : Except ℤ (List Event)) : Prop :=
  ∀ errno, polled = .error errno → errno = EINTR

section Doomed

variable {s t : ProxyBus η} {sid : SessionId} {fds : List FileDescriptor}

/-- Two descriptions of the same descriptors. -/
theorem Fatal.of_fds {x y : Session η} {ev : Event} (h : Fatal x ev) (hfds : y.fds = x.fds) :
    Fatal y ev := by
  rw [Fatal, hfds]
  exact h

theorem Doomed.log (h : Doomed cfg s sid fds) (entry : Entry Callback) (hentry : Between entry) :
    Doomed cfg (s.log entry) sid fds := by
  obtain ⟨hsettled, hclear⟩ := (Passes.start.noted entry hentry).settled h.settled h.clear
  refine ⟨hsettled, hclear, ?_⟩
  rcases h.fate with hgone | ⟨x, hregistered, hfds, herror⟩
  · exact Or.inl ⟨hgone.own, hgone.destroyed⟩
  · exact Or.inr ⟨x, ⟨hregistered.session, hregistered.own⟩, hfds, herror⟩

theorem Doomed.setErrno (h : Doomed cfg s sid fds) (errno : ℤ) :
    Doomed cfg (s.setErrno (host cfg) errno) sid fds := by
  obtain ⟨hsettled, hclear⟩ := (Passes.start.errnoSet errno).settled h.settled h.clear
  refine ⟨hsettled, hclear, ?_⟩
  rcases h.fate with hgone | ⟨x, hregistered, hfds, herror⟩
  · exact Or.inl ⟨hgone.own, hgone.destroyed⟩
  · exact Or.inr ⟨x, ⟨hregistered.session, hregistered.own⟩, hfds, herror⟩

/-- **A dispatch** takes nothing from the queue. -/
theorem Doomed.dispatch (h : Doomed cfg s sid fds) (ev : Event) :
    Doomed cfg (s.dispatch (host cfg) (some fun _ => pure ()) ev).2 sid fds := by
  have hstep := h.settled.dispatch h.clear ev
  refine ⟨hstep.settled, hstep.clear, ?_⟩
  rcases h.fate with hgone | ⟨x, hregistered, hfds, e, hmem, hfatal⟩
  · exact Or.inl (hgone.dispatch h.settled h.clear ev).1
  · have hnext := hregistered.dispatch h.settled h.clear ev
    split at hnext
    · exact Or.inl hnext
    · obtain ⟨y, hy, hsame⟩ := hnext
      obtain ⟨l, hemits, -⟩ := (Bus.dispatches (silent_server cfg) ev s).lines
      refine Or.inr ⟨y, hy, hsame.trans hfds, e, ?_, hfatal.of_fds hsame⟩
      rw [hemits.events]
      exact List.mem_append_left _ hmem

theorem Doomed.deliverAll (h : Doomed cfg s sid fds) (batch : List Event) :
    Doomed cfg (s.native (host cfg) (some fun _ => pure ()) (Epoll.deliverAll batch)).2 sid fds := by
  induction batch generalizing s with
  | nil => exact h
  | cons ev evs ih =>
    rw [native_deliverAll_cons]
    exact ih ((Doomed.log h (.delivered ev) trivial).dispatch ev)

theorem Doomed.drain (h : Doomed cfg s sid fds) (evs : List Event) :
    Doomed cfg (s.drain (host cfg) (some fun _ => pure ()) evs).2 sid fds := by
  induction evs generalizing s with
  | nil => exact h
  | cons ev evs ih =>
    rw [drain_cons]
    exact ih ((Doomed.log h (.dispatched ev) trivial).dispatch ev)

/-- **The queue phase** ends the session. -/
theorem Doomed.served (h : Doomed cfg s sid fds) :
    Doomed cfg (({ s with events := [] } : ProxyBus η).drain (host cfg) (some fun _ => pure ())
      s.events).2 sid fds ∧
    Gone (({ s with events := [] } : ProxyBus η).drain (host cfg) (some fun _ => pure ())
      s.events).2 sid := by
  have hpasses := ((handles_swap s).trans (handles_drain cfg s.events _)).passes
  obtain ⟨hsettled, hclear⟩ := hpasses.settled h.settled h.clear
  have hgone : Gone (({ s with events := [] } : ProxyBus η).drain (host cfg)
      (some fun _ => pure ()) s.events).2 sid := by
    rcases h.fate with hgone | ⟨x, hregistered, -, e, hmem, hfatal⟩
    · exact (hgone.passes h.settled h.clear hpasses).1
    · have hend := hregistered.passes h.settled h.clear hpasses
      rw [if_pos ⟨e, hmem, hfatal⟩] at hend
      exact hend
  exact ⟨⟨hsettled, hclear, Or.inl hgone⟩, hgone⟩

/-- The native phase returns when the kernel reports a batch, or is interrupted. -/
theorem native_of_succeeds {polled : Except ℤ (List Event)} (h : Succeeds polled)
    (s : ProxyBus η) :
    (s.native (host cfg) (some fun _ => pure ()) (epollWaitEvents cfg polled)).1 = .ok () := by
  rcases polled with errno | batch
  · obtain rfl := h errno rfl
    rfl
  · rw [native_batch]
    exact native_deliverAll_ok cfg batch _

/-- **A call of `wait_events`** ends the session if its native phase returns; if not, the
error event stays in the queue. -/
theorem Doomed.waitEvents (h : Doomed cfg s sid fds) (polled : Except ℤ (List Event)) :
    Doomed cfg (s.waitEvents (host cfg) (epollWaitEvents cfg polled)
      (some fun _ => pure ())).2 sid fds ∧
    (Succeeds polled → Gone (s.waitEvents (host cfg) (epollWaitEvents cfg polled)
      (some fun _ => pure ())).2 sid) := by
  have hnative : Doomed cfg
      (s.native (host cfg) (some fun _ => pure ()) (epollWaitEvents cfg polled)).2 sid fds := by
    rcases polled with errno | batch
    · rw [native_errno]
      exact Doomed.setErrno h errno
    · rw [native_batch]
      exact (Doomed.log (Doomed.setErrno h 0) (.polled batch) trivial).deliverAll batch
  rcases hserved : s.native (host cfg) (some fun _ => pure ()) (epollWaitEvents cfg polled)
    with ⟨e | ⟨⟩, t⟩
  · rw [hserved] at hnative
    obtain ⟨err, hrefused⟩ := waitEvents_refused hserved
    rw [hrefused]
    refine ⟨Doomed.log hnative (.reported err) trivial, fun hsucceeds => ?_⟩
    have hok : (s.native (host cfg) (some fun _ => pure ()) (epollWaitEvents cfg polled)).1 =
        .ok () := native_of_succeeds hsucceeds s
    rw [hserved] at hok
    cases hok
  · rw [hserved] at hnative
    rw [waitEvents_served hserved]
    exact ⟨hnative.served.1, fun _ => hnative.served.2⟩

end Doomed

/-- A session with all its holders is registered. -/
theorem Settled.registered {s : ProxyBus η} (hs : Settled cfg s) {sid : SessionId} {x : Session η}
    (hx : s.world.sessions sid = some x) (hreferences : x.references = 6) : Registered s sid x := by
  rcases hs.stage sid x hx with ⟨hown, -⟩ | ⟨-, hone⟩ | ⟨-, hzero⟩
  · exact ⟨hx, hown⟩
  · omega
  · omega

/-! ## Failures in a run -/

/-- `wait_events` again and again. -/
def serve (cfg : Config η) (s : ProxyBus η) (polls : List (Except ℤ (List Event))) : ProxyBus η :=
  s.after (host cfg) (Server.runs (host cfg) cfg polls)

/-- Where the dispatch of an event starts in a call of `wait_events` from `s`. -/
inductive Arrives (cfg : Config η) (s : ProxyBus η) (polled : Except ℤ (List Event)) (ev : Event) :
    ProxyBus η → Prop
  /-- The event is in the batch. -/
  | native {pre post : List Event} (hbatch : polled = .ok (pre ++ ev :: post)) :
    Arrives cfg s polled ev
      ((((s.setErrno (host cfg) 0).log (.polled (pre ++ ev :: post))).native (host cfg)
        (some fun _ => pure ()) (Epoll.deliverAll pre)).2.log (.delivered ev))
  /-- It is in the queue after the native phase. -/
  | queue {pre post : List Event} {t : ProxyBus η}
    (hnative : s.native (host cfg) (some fun _ => pure ()) (epollWaitEvents cfg polled) =
      (.ok (), t)) (hqueue : t.events = pre ++ ev :: post) :
    Arrives cfg s polled ev ((({ t with events := [] } : ProxyBus η).drain (host cfg)
      (some fun _ => pure ()) pre).2.log (.dispatched ev))

/-- The bus when the callbacks `before` have been called for an event. -/
def reached (cfg : Config η) (start : ProxyBus η) (ev : Event) (before : List Callback) :
    ProxyBus η :=
  (start.runCallbacks (host cfg) (some fun _ => pure ()) ev before).2

/-- A call of a channel's callback in which `async_read_some` or `async_write_some` returns an
error, in a call of `wait_events` from `s`.  The session has started. -/
structure Failure (cfg : Config η) (s : ProxyBus η) (polled : Except ℤ (List Event)) where
  /-- The event. -/
  ev : Event
  /-- Where its dispatch starts. -/
  start : ProxyBus η
  arrives : Arrives cfg s polled ev start
  before : List Callback
  /-- The callback. -/
  callback : Callback
  rest : List Callback
  callbacks : callbacksAt start ev.fd = before ++ callback :: rest
  called : ev.fd ∉ (reached cfg start ev before).callbacksToRemove
  sid : SessionId
  /-- The session. -/
  session : Session η
  owned : callback.session? = some sid
  registered : Registered start sid session
  /-- The channel. -/
  channel : Channel η
  of_callback : channelOf (reached cfg start ev before).world callback = some channel
  /-- What its handler does. -/
  outcome : Outcome η
  handled : handle cfg (reached cfg start ev before).world channel ev callback = some outcome
  failed : outcome.readFailed = true ∨ outcome.writeFailed = true

section Arrives

variable {s start : ProxyBus η} {polled : Except ℤ (List Event)} {ev : Event}

theorem native_deliverAll_append (cfg : Config η) (batch batch' : List Event) (s : ProxyBus η) :
    s.native (host cfg) (some fun _ => pure ()) (Epoll.deliverAll (batch ++ batch')) =
      (s.native (host cfg) (some fun _ => pure ()) (Epoll.deliverAll batch)).2.native (host cfg)
        (some fun _ => pure ()) (Epoll.deliverAll batch') := by
  simp only [Bus.native_deliverAll]
  exact Bus.dispatchAll_append (silent_server cfg) batch batch' s

theorem drain_append (cfg : Config η) (evs evs' : List Event) (s : ProxyBus η) :
    s.drain (host cfg) (some fun _ => pure ()) (evs ++ evs') =
      (s.drain (host cfg) (some fun _ => pure ()) evs).2.drain (host cfg)
        (some fun _ => pure ()) evs' := by
  simp only [Bus.drain_eq]
  exact Bus.dispatchAll_append (silent_server cfg) evs evs' s

/-- A dispatch starts between two dispatches. -/
theorem Arrives.passes (h : Arrives cfg s polled ev start) : ∃ evs, Passes cfg s evs start := by
  cases h with
  | @native pre post hbatch =>
    have hpre := (handles_setErrno s 0).trans
      ((handles_log _ (.polled (pre ++ ev :: post)) trivial rfl).trans
        (handles_deliverAll cfg pre _))
    exact ⟨_, hpre.passes.noted (.delivered ev) trivial⟩
  | @queue pre post t hnative hqueue =>
    obtain ⟨evs, hpasses⟩ := handles_native cfg polled s
    rw [hnative] at hpasses
    have hpre := hpasses.trans ((handles_swap t).trans (handles_drain cfg pre _))
    exact ⟨_, hpre.passes.noted (.dispatched ev) trivial⟩

/-- **What the dispatch leaves in the queue** is still there at the end of the call, or the
call's own queue phase has dispatched it. -/
theorem Arrives.doomed (h : Arrives cfg s polled ev start) {sid : SessionId}
    {fds : List FileDescriptor}
    (hdoomed : Doomed cfg (start.dispatch (host cfg) (some fun _ => pure ()) ev).2 sid fds) :
    Doomed cfg (s.waitEvents (host cfg) (epollWaitEvents cfg polled)
      (some fun _ => pure ())).2 sid fds := by
  cases h with
  | @native pre post hbatch =>
    subst hbatch
    have hok := native_deliverAll_ok cfg (pre ++ ev :: post)
      ((s.setErrno (host cfg) 0).log (.polled (pre ++ ev :: post)))
    have hrest := hdoomed.deliverAll post
    rw [← native_deliverAll_cons, ← native_deliverAll_append] at hrest
    rcases hserved : s.native (host cfg) (some fun _ => pure ())
      (epollWaitEvents cfg (.ok (pre ++ ev :: post))) with ⟨r, t⟩
    rw [← native_batch, hserved] at hok hrest
    obtain rfl : r = .ok () := hok
    rw [waitEvents_served hserved]
    exact hrest.served.1
  | @queue pre post t hnative hqueue =>
    have hrest := hdoomed.drain post
    rw [← drain_cons, ← drain_append, ← hqueue] at hrest
    rw [waitEvents_served hnative]
    exact hrest

end Arrives

namespace Failure

variable {s : ProxyBus η} {polled : Except ℤ (List Event)}

/-- The bus when the callback is called. -/
def calling (f : Failure cfg s polled) : ProxyBus η := reached cfg f.start f.ev f.before

/-- The bus when it has returned. -/
def returned (f : Failure cfg s polled) : ProxyBus η :=
  (f.calling.invoke (host cfg) f.ev f.callback).2

/-- An error event for one of the session's descriptors is queued on the bus. -/
def Queued (f : Failure cfg s polled) : Prop := ∃ e ∈ f.returned.events, Fatal f.session e

/-- When `wait_events` has been called again, at the latest when its native phase has returned
once more, the callbacks of both descriptors have been removed. -/
def Ended (f : Failure cfg s polled) : Prop :=
  ∀ later last, Succeeds last → Gone (serve cfg s (polled :: later ++ [last])) f.sid

/-- The write is not all that has failed: the read has, or there is another error event for
one of the session's descriptors, in the queue or from an input callback. -/
def Announced (f : Failure cfg s polled) : Prop :=
  f.outcome.readFailed = true ∨ (∃ e ∈ f.calling.events, Fatal f.session e) ∨
    ∃ e ∈ f.channel.inputEvents f.outcome, Fatal f.session e

theorem returned_events (f : Failure cfg s polled) :
    f.returned.events = f.calling.events ++ f.outcome.events := by
  have hexec : ((f.calling.log (.invoked f.callback f.ev)).exec (host cfg)
      ((host cfg).callback f.callback f.ev.fd f.ev.flags)).2.events =
        f.calling.events ++ f.outcome.events := callback_events f.of_callback f.handled
  unfold returned Bus.invoke
  rcases hcall : (f.calling.log (.invoked f.callback f.ev)).exec (host cfg)
    ((host cfg).callback f.callback f.ev.fd f.ev.flags) with ⟨_ | _, t⟩
  · rw [hcall] at hexec
    exact hexec
  · rw [hcall] at hexec
    exact hexec

/-- **What is queued**, exactly. -/
theorem queued_iff (f : Failure cfg s polled) (hs : Settled cfg f.start) :
    f.Queued ↔ f.Announced := by
  have hmem : f.callback ∈ callbacksAt f.start f.ev.fd := by
    rw [f.callbacks]
    exact List.mem_append_right _ List.mem_cons_self
  have hfd : f.ev.fd ∈ f.session.fds := by
    obtain ⟨x, hx, hfd⟩ := hs.live_of_mem hmem f.owned
    obtain rfl := Option.some.inj (f.registered.session.symm.trans hx.1)
    exact hfd
  have hnew : (∃ e ∈ f.outcome.events, Fatal f.session e) ↔
      f.outcome.readFailed = true ∨ ∃ e ∈ f.channel.inputEvents f.outcome, Fatal f.session e := by
    constructor
    · rintro ⟨e, he, hfatal⟩
      rcases (mem_events_handle f.handled hfatal.2).mp he with ⟨hread, -⟩ | hinput
      · exact Or.inl hread
      · exact Or.inr ⟨e, hinput, hfatal⟩
    · rintro (hread | ⟨e, hinput, hfatal⟩)
      · refine ⟨⟨f.ev.fd, Flags.error⟩, ?_, hfd, Flags.test_error_error⟩
        exact (mem_events_handle f.handled Flags.test_error_error).mpr (Or.inl ⟨hread, rfl⟩)
      · exact ⟨e, (mem_events_handle f.handled hfatal.2).mpr (Or.inr hinput), hfatal⟩
  have hboth : f.Queued ↔ (∃ e ∈ f.calling.events, Fatal f.session e) ∨
      ∃ e ∈ f.outcome.events, Fatal f.session e := by
    rw [Queued, returned_events]
    simp only [List.mem_append, or_and_right, exists_or]
  rw [hboth, hnew, Announced]
  exact or_left_comm

/-- What is queued when the callback returns is queued when the dispatch is over. -/
theorem dispatch_events (f : Failure cfg s polled) {e : Event} (he : e ∈ f.returned.events) :
    e ∈ (f.start.dispatch (host cfg) (some fun _ => pure ()) f.ev).2.events := by
  obtain ⟨entries, hcalls⟩ :=
    Bus.runCallbacks_called (silent_server cfg) f.called f.callback f.rest
  have hloop : f.start.runCallbacks (host cfg) (some fun _ => pure ()) f.ev
      (callbacksAt f.start f.ev.fd) = f.calling.runCallbacks (host cfg) (some fun _ => pure ())
        f.ev (f.callback :: f.rest) := by
    rw [f.callbacks]
    exact Bus.runCallbacks_append (silent_server cfg) f.ev f.before _ f.start
  obtain ⟨ops, hflush, -⟩ := Bus.flush_spec (host cfg)
    (f.start.runCallbacks (host cfg) (some fun _ => pure ()) f.ev (callbacksAt f.start f.ev.fd)).2
  rw [dispatch_eq, hflush.events, hloop]
  refine List.mem_append_left _ ?_
  have hevents : (f.calling.runCallbacks (host cfg) (some fun _ => pure ()) f.ev
      (f.callback :: f.rest)).2.events = f.returned.events ++ enqueuedIn entries := hcalls.events
  rw [hevents]
  exact List.mem_append_left _ he

/-- **A queued error event** ends the session. -/
theorem ended_of_queued (f : Failure cfg s polled) (hs : Settled cfg f.start)
    (hclear : f.start.callbacksToRemove = []) (h : f.Queued) : f.Ended := by
  have hdispatched : Doomed cfg (f.start.dispatch (host cfg) (some fun _ => pure ()) f.ev).2 f.sid
      f.session.fds := by
    have hstep := hs.dispatch hclear f.ev
    refine ⟨hstep.settled, hstep.clear, ?_⟩
    have hnext := f.registered.dispatch hs hclear f.ev
    obtain ⟨e, he, hfatal⟩ := h
    split at hnext
    · exact Or.inl hnext
    · obtain ⟨y, hy, hsame⟩ := hnext
      exact Or.inr ⟨y, hy, hsame, e, f.dispatch_events he, hfatal.of_fds hsame⟩
  have hcall := f.arrives.doomed hdispatched
  intro later last hsucceeds
  have hlater : ∀ (polls : List (Except ℤ (List Event))) (t : ProxyBus η),
      Doomed cfg t f.sid f.session.fds → Gone (serve cfg t (polls ++ [last])) f.sid := by
    intro polls
    induction polls with
    | nil => exact fun t ht => (ht.waitEvents last).2 hsucceeds
    | cons poll polls ih => exact fun t ht => ih _ (ht.waitEvents poll).1
  exact hlater later _ hcall

end Failure

/-- **A failure ends its session exactly when it is announced.**  In every call of
`wait_events` of every run, a failed read or write of a channel is followed by an error event
in the queue and by the removal of the session's callbacks, if and only if the write is not all
that has failed. -/
theorem failure_ends_session_iff (cfg : Config η) (opened : List FileDescriptor)
    (polls : List (Except ℤ (List Event))) (polled : Except ℤ (List Event)) :
    ∀ f : Failure cfg (runServer cfg opened polls) polled, (f.Queued ∧ f.Ended) ↔ f.Announced := by
  intro f
  obtain ⟨evs, hrun⟩ := handles_runServer cfg opened polls
  obtain ⟨hsettled, hclear⟩ := hrun.passes.settled (settled_startServer cfg opened) rfl
  obtain ⟨evs', harrives⟩ := f.arrives.passes
  obtain ⟨hsettled', hclear'⟩ := harrives.settled hsettled hclear
  rw [← f.queued_iff hsettled']
  exact ⟨And.left, fun hqueued => ⟨hqueued, f.ended_of_queued hsettled' hclear' hqueued⟩⟩

/-! ## A server that runs out of buffers -/

/-- A client connects and sends one byte, which cannot be sent on: there are no buffers for it
(`ENOBUFS`). -/
def outOfBuffers : Config Unit where
  kernel tick :=
    { recv := .received ⟨[0], Nat.le_of_ble_eq_true rfl⟩
      send := fun _ => .failed 105
      accept := fun opened => if tick = 0 then lowestFree opened else .error EAGAIN
      socket := lowestFree
      connect := none
      epollCtl := none
      shutdown := none
      close := none }
  listener := 3
  epfd := 4
  addresses := 1
  handlers _ := []
  handlerState _ := ()
  memory _ := 0

/-- The client has connected. -/
def connected : ProxyBus Unit := runServer outOfBuffers [0, 1, 2, 4] [.ok [⟨3, Flags.in'⟩]]

/-- Its byte arrives. -/
def arriving : ProxyBus Unit :=
  ((connected.setErrno (host outOfBuffers) 0).log (.polled [⟨5, Flags.in'⟩])).log
    (.delivered ⟨5, Flags.in'⟩)

set_option maxRecDepth 4000 in
theorem connected_sessions : (connected.world.sessions 0).map Session.references = some 6 := by
  decide

set_option maxRecDepth 4000 in
/-- The byte is read, and the write fails. -/
theorem arriving_outcome :
    ((channelOf (reached outOfBuffers arriving ⟨5, Flags.in'⟩ []).world (.left 0 .lr)).bind fun c =>
      (handle outOfBuffers (reached outOfBuffers arriving ⟨5, Flags.in'⟩ []).world c ⟨5, Flags.in'⟩
        (.left 0 .lr)).map fun o => (o.writeFailed, o.events)) = some (true, []) := by
  decide

set_option maxRecDepth 4000 in
/-- **A write error goes unnoticed.**  The target's socket cannot be written to, nothing is
queued on the bus, and after the next call of `wait_events` the session still has all its
callbacks. -/
theorem failed_write_unnoticed :
    ∃ f : Failure outOfBuffers (runServer outOfBuffers [0, 1, 2, 4] [.ok [⟨3, Flags.in'⟩]])
      (.ok [⟨5, Flags.in'⟩]), ¬ f.Queued ∧ ¬ f.Ended := by
  obtain ⟨evs, hrun⟩ := handles_runServer outOfBuffers [0, 1, 2, 4] [.ok [⟨3, Flags.in'⟩]]
  have hpasses : Passes outOfBuffers connected [] arriving :=
    ((Passes.start.errnoSet 0).noted (.polled [⟨5, Flags.in'⟩]) trivial).noted (.delivered _)
      trivial
  obtain ⟨hsettled, -⟩ := (hrun.passes.trans hpasses).settled
    (settled_startServer outOfBuffers [0, 1, 2, 4]) rfl
  obtain ⟨x, hx, hreferences⟩ := Option.map_eq_some_iff.mp connected_sessions
  obtain ⟨c, hc, houtcome⟩ := Option.bind_eq_some_iff.mp arriving_outcome
  obtain ⟨o, ho, hpair⟩ := Option.map_eq_some_iff.mp houtcome
  obtain ⟨hfailed, hnone⟩ := Prod.mk.inj hpair
  have harrives : Arrives outOfBuffers connected (.ok [⟨5, Flags.in'⟩]) ⟨5, Flags.in'⟩ arriving :=
    @Arrives.native _ outOfBuffers connected _ _ [] [] rfl
  refine ⟨⟨⟨5, Flags.in'⟩, arriving, harrives, [], .left 0 .lr, [.right 0 .rl, .session 0],
    by decide, by decide, 0, x, rfl, hsettled.registered hx hreferences, c, hc, o, ho,
    Or.inr hfailed⟩, ?_, ?_⟩
  · rintro ⟨e, he, hfatal⟩
    rw [Failure.returned_events] at he
    have hqueue : arriving.events = [⟨3, Flags.in'⟩] := by decide
    have hmem : e ∈ arriving.events ++ o.events := he
    rw [hqueue, hnone, List.append_nil, List.mem_singleton] at hmem
    rw [hmem] at hfatal
    exact absurd hfatal.2 (by decide)
  · intro hended
    obtain ⟨-, y, hy, hzero⟩ := hended [] (.ok []) (by rintro _ ⟨⟩)
    have hstays : ((serve outOfBuffers connected [.ok [⟨5, Flags.in'⟩], .ok []]).world.sessions
        0).map Session.references = some 6 := by decide
    have hsix : some y.references = some 6 := (congrArg _ hy).symm.trans hstays
    rw [hzero] at hsix
    cases hsix

end Proxy
end PsqlTcpProxy
