import PsqlTcpProxy.Proxy.AcceptWakeups
import PsqlTcpProxy.Psql.Service

/-!
# Retries of the acceptor

Every event for the listening descriptor that is not refused is followed by another
one, wherever it came from.  One from the queue so keeps the number of queued events
(`Tally`); one from `epoll` adds to it.  When two clients connect one after the
other, two events for the listening descriptor go round in the queue from then on.
`accept_retries_single_iff` says when there is one at most.

The input callbacks of a session enqueue events too.  They are known by what `Local`
says: that they enqueue none but for the descriptor of their client.
-/

namespace PsqlTcpProxy
namespace Proxy

open Library Io Server

variable {η : Type} {cfg : Config η} {I : FileDescriptor → η → Prop}

/-! ## Input callbacks -/

/-- The input callbacks of a client keep to its descriptor.  `I` is what they keep of their
state. -/
structure Config.Local (cfg : Config η) (I : FileDescriptor → η → Prop) : Prop where
  start : ∀ fd, I fd (cfg.handlerState fd)
  step : ∀ fd, ∀ callback ∈ cfg.handlers fd, ∀ state res, I fd state →
    I fd (callback state res).state ∧ ∀ ev ∈ (callback state res).events, ev.fd = fd

/-- `tcp_proxy` has no input callbacks. -/
theorem local_nil (hhandlers : ∀ fd, cfg.handlers fd = []) : cfg.Local fun _ _ => True := by
  refine ⟨fun _ => trivial, fun fd callback hmem => ?_⟩
  rw [hhandlers] at hmem
  cases hmem

/-- `psql_proxy` has one, and its events are for its own descriptor. -/
theorem local_psqlServer (cfg : Config Unit)
    (beyond : FileDescriptor → ℕ → List UInt8 → ℕ → UInt8) :
    (Psql.psqlServer cfg beyond).Local fun fd s => s.handler.fd = fd := by
  refine ⟨fun _ => rfl, fun fd callback hmem state res hfd => ?_⟩
  obtain rfl := List.mem_singleton.mp hmem
  obtain ⟨hkept, hevents⟩ := Psql.Inspector.call_fd (beyond fd) state res
  exact ⟨hkept.trans hfd, fun ev hev => (hevents ev hev).trans hfd⟩

/-- The channel has such input callbacks, or none. -/
structure Confined (cfg : Config η) (I : FileDescriptor → η → Prop) (fd : FileDescriptor)
    (c : Channel η) : Prop where
  state : I fd c.handlerState
  handlers : ∀ callback ∈ c.handlers, callback ∈ cfg.handlers fd

section Channels

variable {home fd : FileDescriptor} {c : Channel η} {o : Outcome η}

theorem Config.Local.runHandlers (hlocal : cfg.Local I) {handlers : List (InputCallback η)}
    (hhandlers : ∀ callback ∈ handlers, callback ∈ cfg.handlers home) {state : η}
    (hstate : I home state) (res : InputResult) :
    I home (Io.runHandlers handlers state res).state ∧
      ∀ ev ∈ (Io.runHandlers handlers state res).events, ev.fd = home := by
  induction handlers generalizing state with
  | nil => exact ⟨hstate, by rintro _ ⟨⟩⟩
  | cons callback handlers ih =>
    obtain ⟨hfirst, hrest⟩ := List.forall_mem_cons.mp hhandlers
    have hstep := hlocal.step home callback hfirst state res hstate
    rw [Io.runHandlers]
    rcases hcall : callback state res with ⟨state', evs, _ | e⟩
    · rw [hcall] at hstep
      obtain ⟨hlast, hevents⟩ := ih hrest hstep.1
      refine ⟨hlast, fun ev hmem => ?_⟩
      rcases List.mem_append.mp hmem with hmem | hmem
      · exact hstep.2 ev hmem
      · exact hevents ev hmem
    · rw [hcall] at hstep
      exact hstep

/-- The read of a channel. -/
theorem Confined.readPart (h : Confined cfg I home c) (hlocal : cfg.Local I)
    {read : ReadResult CHUNK_SZ} (ho : c.readPart fd read = some o) :
    Confined cfg I home o.channel ∧ ∀ ev ∈ o.events, ev.fd = fd ∨ ev.fd = home := by
  obtain ⟨b, ⟨-, rfl⟩ | ⟨err, -, rfl⟩ | ⟨bytes, -, rfl⟩⟩ := Channel.readPart_inv ho
  · exact ⟨⟨h.state, h.handlers⟩, by rintro _ ⟨⟩⟩
  · obtain ⟨hstate, hevents⟩ := hlocal.runHandlers h.handlers h.state (.error err)
    refine ⟨⟨hstate, h.handlers⟩, fun ev hmem => ?_⟩
    rcases List.mem_cons.mp hmem with rfl | hmem
    · exact Or.inl rfl
    · exact Or.inr (hevents ev hmem)
  · obtain ⟨hstate, hevents⟩ := hlocal.runHandlers h.handlers h.state (.success bytes.1)
    exact ⟨⟨hstate, h.handlers⟩, fun ev hmem => Or.inr (hevents ev hmem)⟩

/-- The write of a channel. -/
theorem Confined.writePart (h : Confined cfg I home c)
    {write : (offered : List UInt8) → WriteResult offered.length}
    (ho : c.writePart fd write = some o) :
    Confined cfg I home o.channel ∧ ∀ ev ∈ o.events, ev.fd = fd ∨ ev.fd = home := by
  obtain ⟨b, events, writeCall, rfl, rfl | rfl⟩ := Channel.writePart_inv ho
  · exact ⟨⟨h.state, h.handlers⟩, by rintro _ ⟨⟩⟩
  · refine ⟨⟨h.state, h.handlers⟩, fun ev hmem => Or.inl ?_⟩
    rw [List.mem_singleton.mp hmem]

/-- **The left handler** enqueues events for its descriptor and for the client's. -/
theorem Confined.handleLeft (h : Confined cfg I home c) (hlocal : cfg.Local I) {mask : Flags}
    {read : ReadResult CHUNK_SZ} {write : (offered : List UInt8) → WriteResult offered.length}
    (ho : c.handleLeftIoEvent fd mask read write = some o) :
    Confined cfg I home o.channel ∧ ∀ ev ∈ o.events, ev.fd = fd ∨ ev.fd = home := by
  unfold Channel.handleLeftIoEvent at ho
  split at ho
  · obtain ⟨o₁, ho₁, ho⟩ := Option.bind_eq_some_iff.mp ho
    obtain ⟨hread, hreadEvents⟩ := h.readPart hlocal ho₁
    split at ho
    · obtain rfl := Option.some.inj ho
      exact ⟨hread, hreadEvents⟩
    · obtain ⟨o₂, ho₂, rfl⟩ := Option.map_eq_some_iff.mp ho
      obtain ⟨hwrite, hwriteEvents⟩ := hread.writePart ho₂
      refine ⟨hwrite, fun ev hmem => ?_⟩
      rcases List.mem_append.mp hmem with hmem | hmem
      · exact hreadEvents ev hmem
      · exact hwriteEvents ev hmem
  · obtain rfl := Option.some.inj ho
    exact ⟨h, by rintro _ ⟨⟩⟩

/-- **The right handler** does too. -/
theorem Confined.handleRight (h : Confined cfg I home c) {mask : Flags}
    {write : (offered : List UInt8) → WriteResult offered.length}
    (ho : c.handleRightIoEvent fd mask write = some o) :
    Confined cfg I home o.channel ∧ ∀ ev ∈ o.events, ev.fd = fd ∨ ev.fd = home := by
  unfold Channel.handleRightIoEvent at ho
  split at ho
  · exact h.writePart ho
  · obtain rfl := Option.some.inj ho
    exact ⟨h, by rintro _ ⟨⟩⟩

end Channels

/-! ## The number of queued events -/

/-- How many of the events are for the listening descriptor. -/
def wakeups (cfg : Config η) (evs : List Event) : ℕ := evs.countP fun ev => ForListener cfg ev

/-- `n` events for the listening descriptor are queued, and no session enqueues another. -/
structure Tally (cfg : Config η) (I : FileDescriptor → η → Prop) (n : ℕ) (s : ProxyBus η) :
    Prop where
  count : wakeups cfg s.events = n
  sessions : ∀ sid x, s.world.sessions sid = some x → x.client ≠ cfg.listener ∧
    ∀ dir, Confined cfg I x.client (x.flow dir).channel

namespace Tally

variable {n : ℕ} {s t : ProxyBus η}

theorem of_eq (h : Tally cfg I n s) (hevents : t.events = s.events)
    (hsessions : t.world.sessions = s.world.sessions) : Tally cfg I n t := by
  refine ⟨?_, ?_⟩
  · rw [hevents]
    exact h.count
  · rw [hsessions]
    exact h.sessions

/-- A session is replaced, or a new one made. -/
theorem setSession (h : Tally cfg I n s) (sid : SessionId) {x : Session η}
    (hclient : x.client ≠ cfg.listener)
    (hflow : ∀ dir, Confined cfg I x.client (x.flow dir).channel) :
    Tally cfg I n { s with world := s.world.setSession sid x } := by
  refine ⟨h.count, fun sid' y hy => ?_⟩
  have hy' : (if sid' = sid then some x else s.world.sessions sid') = some y := hy
  split at hy'
  · obtain rfl := Option.some.inj hy'
    exact ⟨hclient, hflow⟩
  · exact h.sessions sid' y hy'

/-- The number of holders does not matter. -/
theorem setReferences (h : Tally cfg I n s) {sid : SessionId} {x : Session η}
    (hx : s.world.sessions sid = some x) (k : ℕ) :
    Tally cfg I n { s with world := s.world.setSession sid { x with references := k } } := by
  obtain ⟨hclient, hflow⟩ := h.sessions sid x hx
  refine h.setSession sid hclient fun dir => ?_
  cases dir with
  | lr => exact hflow .lr
  | rl => exact hflow .rl

theorem retain (h : Tally cfg I n s) (sid : SessionId) :
    Tally cfg I n { s with world := s.world.retain sid } := by
  rcases hx : s.world.sessions sid with _ | x
  · rw [World.retain_of_none hx]
    exact h
  · rw [World.retain_of_some hx]
    exact h.setReferences hx _

end Tally

/-! ## Code that enqueues nothing for the listening descriptor -/

section Code

variable {n : ℕ} {fd : FileDescriptor} {sid : SessionId}

theorem closeConnectionNoexcept_tally (fd : FileDescriptor) :
    Stable cfg (Tally cfg I n) (closeConnectionNoexcept cfg fd) :=
  Stable.closeConnectionNoexcept (fun _ hs => hs.of_eq rfl rfl)
    fun _ _ hs hsessions _ _ => hs.of_eq rfl hsessions

theorem release_tally (sid : SessionId) : Stable cfg (Tally cfg I n) (release cfg sid) :=
  release_rule (fun _ hs _ => hs) (fun _ _ hs hx => hs.setReferences hx _)
    fun _ _ _ _ fd _ => closeConnectionNoexcept_tally fd

theorem sessionEvent_tally (sid : SessionId) (mask : Flags) :
    Stable cfg (Tally cfg I n) (sessionEvent sid mask) :=
  sessionEvent_rule (fun _ => Program.Triple.lift fun _ hs => hs.of_eq rfl rfl) sid mask

/-- **A channel's callback** for another descriptor. -/
theorem channelEvent_tally {handle : Channel η → Answer → ℤ → Option (Outcome η)}
    (hfd : fd ≠ cfg.listener)
    (hhandle : ∀ home c answer errno o, Confined cfg I home c → handle c answer errno = some o →
      Confined cfg I home o.channel ∧ ∀ ev ∈ o.events, ev.fd = fd ∨ ev.fd = home)
    (sid : SessionId) (dir : Direction) :
    Stable cfg (Tally cfg I n) (channelEvent cfg sid dir handle) := by
  refine Stable.channelEvent (fun ev => ¬ ForListener cfg ev) (fun s hs => hs.of_eq rfl rfl)
    (fun ev hev => Program.Triple.lift fun s hs => ?_) fun s x o tick errno hs hx ho => ?_
  · refine ⟨?_, hs.sessions⟩
    show wakeups cfg (s.events ++ [ev]) = n
    rw [wakeups, List.countP_append, List.countP_singleton, decide_eq_false hev]
    exact hs.count
  · obtain ⟨hclient, hflow⟩ := hs.sessions sid x hx
    obtain ⟨hconfined, hevents⟩ := hhandle x.client _ _ _ o (hflow dir) ho
    refine ⟨(hs.setSession sid ?_ fun dir' => ?_).of_eq rfl rfl, fun ev hmem => ?_⟩
    · rw [Session.setFlow_client]
      exact hclient
    · rw [Session.setFlow_client]
      have hother := hflow dir'
      cases dir with
      | lr =>
        cases dir' with
        | lr => exact hconfined
        | rl => exact hother
      | rl =>
        cases dir' with
        | lr => exact hother
        | rl => exact hconfined
    · rcases hevents ev hmem with heq | heq
      · exact fun hlistener => hfd (heq.symm.trans hlistener)
      · exact fun hlistener => hclient (heq.symm.trans hlistener)

/-- **A callback of a session**, for an event of its descriptors. -/
theorem callback_tally (hlocal : cfg.Local I) {callback : Callback}
    (hsession : callback ≠ .accept) (hfd : fd ≠ cfg.listener) (mask : Flags) :
    Stable cfg (Tally cfg I n) (Proxy.callback cfg callback fd mask) := by
  cases callback with
  | accept => exact absurd rfl hsession
  | left sid dir =>
    show Stable cfg (Tally cfg I n) (leftEvent cfg sid dir fd mask)
    unfold leftEvent
    refine channelEvent_tally hfd (fun home c answer errno o hc ho => ?_) sid dir
    exact hc.handleLeft hlocal ho
  | right sid dir =>
    show Stable cfg (Tally cfg I n) (rightEvent cfg sid dir fd mask)
    unfold rightEvent
    refine channelEvent_tally hfd (fun home c answer errno o hc ho => ?_) sid dir
    exact hc.handleRight ho
  | session sid => exact sessionEvent_tally sid mask

theorem register_tally (callback : Callback) :
    Stable cfg (Tally cfg I n) (register cfg sid fd callback) := by
  have hadd : Ends cfg (Tally cfg I n) (addFd fd callback) fun r s =>
      (r = .ok () ∧ Tally cfg I n s) ∨ ∃ e, r = .error e ∧ Tally cfg I n s :=
    Ends.addFd (fun s w hs _ _ hsessions _ => ⟨hs.of_eq rfl hsessions, hs.of_eq rfl hsessions⟩)
      fun s hs => hs.of_eq rfl rfl
  refine (Ends.register (fun _ (hs : Tally cfg I n _) => hs.retain sid) hadd
    (release_tally sid)).mono (fun _ hs => hs) fun r s hs => ?_
  rcases hs with ⟨-, hs⟩ | ⟨e, -, hs⟩
  · exact hs
  · exact hs

theorem addHandlers_tally (sid : SessionId) :
    Stable cfg (Tally cfg I n) (addHandlers cfg sid) := by
  refine Ends.modify fun s hs => ?_
  rcases hx : s.world.sessions sid with _ | x
  · simp only
    exact hs
  · obtain ⟨hclient, hflow⟩ := hs.sessions sid x hx
    let x' : Session η := { x with
      lr := { x.lr with channel := { x.lr.channel with handlers := cfg.handlers x.client } } }
    have hflow' : ∀ dir, Confined cfg I x'.client (x'.flow dir).channel := by
      intro dir
      cases dir with
      | lr => exact ⟨(hflow .lr).state, fun callback hmem => hmem⟩
      | rl => exact hflow .rl
    simp only
    exact hs.setSession sid hclient hflow'

theorem startSession_tally (client target : FileDescriptor) :
    Stable cfg (Tally cfg I n) (startSession cfg sid client target) :=
  (register_tally _).bind fun _ => (register_tally _).bind fun _ => (register_tally _).bind fun _ =>
    (register_tally _).bind fun _ => (addHandlers_tally sid).bind fun _ =>
      (register_tally _).bind fun _ => register_tally _

theorem newSession_tally (hlocal : cfg.Local I) {client : FileDescriptor}
    (hclient : client ≠ cfg.listener) (target : FileDescriptor) :
    Stable cfg (Tally cfg I n) (newSession cfg client target) := by
  refine Ends.world fun w => ?_
  refine Program.Triple.bind (R := fun _ => Tally cfg I n) ?_
    (fun _ => Program.Keeps.pure _) fun _ _ hs => hs
  refine Ends.setWorld ?_
  rintro s ⟨hs, rfl⟩
  refine (hs.setSession s.world.nextSession hclient fun dir => ?_).of_eq rfl rfl
  cases dir with
  | lr => exact ⟨hlocal.start client, by rintro _ ⟨⟩⟩
  | rl => exact ⟨hlocal.start client, by rintro _ ⟨⟩⟩

/-- **Making a session** enqueues nothing. -/
theorem makeNewSession_tally (hlocal : cfg.Local I) (hfd : fd ≠ cfg.listener) :
    Stable cfg (Tally cfg I n) (makeNewSession cfg fd) := by
  refine Program.Keeps.bind (Program.Keeps.attempt (openSocket_rule
    (fun _ _ hs hsessions _ => hs.of_eq rfl hsessions) _)) fun r => ?_
  rcases r with e | target
  · exact (closeConnectionNoexcept_tally fd).bind fun _ => Program.Keeps.throw e
  · refine (newSession_tally hlocal hfd target).bind fun sid => ?_
    refine (startSession_tally fd target).attempt.bind fun started => ?_
    exact (release_tally sid).bind fun _ => Stable.rethrow started

end Code

/-! ## A dispatch -/

section Dispatch

variable {n : ℕ} {s : ProxyBus η} {ev : Event}

theorem Tally.flush (h : Tally cfg I n s) : Tally cfg I n (s.flush (host cfg)) :=
  Bus.flush_rule (fun _ _ hs => hs.of_eq rfl rfl) (Stable.destroy release_tally)
    (fun _ hs => hs.of_eq rfl rfl) h

/-- An event for a descriptor of a session. -/
theorem Tally.dispatch_session (h : Tally cfg I n s) (hlocal : cfg.Local I) (hs : Settled cfg s)
    (hev : ¬ ForListener cfg ev) :
    Tally cfg I n (s.dispatch (host cfg) (some fun _ => pure ()) ev).2 := by
  have hsession : ∀ callback ∈ callbacksAt s ev.fd, callback ≠ .accept := by
    rintro callback hmem rfl
    exact hev (hs.lives.accepting ev.fd _ hmem rfl)
  have hloop : (∀ callback ∈ ([] : List Callback), callback ≠ .accept) ∧ Tally cfg I n
      (s.runCallbacks (host cfg) (some fun _ => pure ()) ev (callbacksAt s ev.fd)).2 := by
    refine Bus.runCallbacks_rule (silent_server cfg)
      (I := fun callbacks t => (∀ callback ∈ callbacks, callback ≠ .accept) ∧ Tally cfg I n t)
      ?_ ?_ ?_ ?_ ⟨hsession, h⟩
    · exact fun callback callbacks t _ ht => ⟨(List.forall_mem_cons.mp ht.1).2, ht.2⟩
    · intro callback callbacks t _ ht
      obtain ⟨hcallback, hcallbacks⟩ := List.forall_mem_cons.mp ht.1
      have hlogged : Tally cfg I n (t.log (.invoked callback ev)) := ht.2.of_eq rfl rfl
      exact ⟨hcallbacks, callback_tally hlocal hcallback hev ev.flags _ hlogged⟩
    · exact fun callbacks t entry _ ht => ⟨ht.1, ht.2.of_eq rfl rfl⟩
    · exact fun callbacks t err ht => ht
  rw [dispatch_eq]
  exact hloop.2.flush

/-- An event for the listening descriptor that is not refused. -/
theorem Tally.dispatch_accept (h : Tally cfg I n s) (hlocal : cfg.Local I) (hs : Settled cfg s)
    (hclear : s.callbacksToRemove = []) (hev : ForListener cfg ev)
    (hrefuses : refuses cfg s.world ev = false) :
    Tally cfg I (n + 1) (s.dispatch (host cfg) (some fun _ => pure ()) ev).2 := by
  obtain ⟨conn, t, haccept, hevents, hsessions, hnew⟩ := acceptNewClient_enqueues
    (s := s.log (.invoked .accept ev)) hrefuses
  have hretry : Tally cfg I (n + 1) t := by
    refine ⟨?_, ?_⟩
    · have hone : ForListener cfg ⟨ev.fd, Flags.in'⟩ := hev
      rw [hevents, wakeups, List.countP_append, List.countP_singleton, decide_eq_true hone]
      exact congrArg (· + 1) h.count
    · rw [hsessions]
      exact h.sessions
  have hmade : Tally cfg I (n + 1)
      (t.exec (host cfg) (if 0 < conn then makeNewSession cfg conn else pure ())).2 := by
    split
    · rename_i hpos
      have hne : conn ≠ cfg.listener := by
        rintro rfl
        exact hnew hpos hs.lives.world.listening
      exact makeNewSession_tally hlocal hne t hretry
    · exact hretry
  obtain ⟨v, hdispatch, hevents', -, hworld⟩ :=
    runCallbacks_listener hs hclear hev (acceptEvent_of_ok haccept)
  rw [hdispatch]
  exact (hmade.of_eq hevents' (congrArg World.sessions hworld)).flush

/-- How many events for the listening descriptor a dispatch enqueues. -/
def retriesOf (cfg : Config η) (w : World η) (ev : Event) : ℕ :=
  if ForListener cfg ev ∧ refuses cfg w ev = false then 1 else 0

/-- **A dispatch.** -/
theorem Tally.dispatch (h : Tally cfg I n s) (hlocal : cfg.Local I) (hs : Settled cfg s)
    (hclear : s.callbacksToRemove = []) (ev : Event) :
    Tally cfg I (n + retriesOf cfg s.world ev)
      (s.dispatch (host cfg) (some fun _ => pure ()) ev).2 := by
  unfold retriesOf
  split
  · rename_i hand
    exact h.dispatch_accept hlocal hs hclear hand.1 hand.2
  · rename_i hnot
    by_cases hev : ForListener cfg ev
    · have hrefuses : refuses cfg s.world ev = true :=
        Bool.of_not_eq_false fun hfalse => hnot ⟨hev, hfalse⟩
      obtain ⟨hevents, hsessions⟩ := dispatch_refused hs hclear hev hrefuses
      exact h.of_eq hevents hsessions
    · exact h.dispatch_session hlocal hs hev

end Dispatch

/-! ## The queue -/

theorem wakeups_append (evs evs' : List Event) :
    wakeups cfg (evs ++ evs') = wakeups cfg evs + wakeups cfg evs' := List.countP_append

theorem wakeups_cons (ev : Event) (evs : List Event) :
    wakeups cfg (ev :: evs) = wakeups cfg evs + if ForListener cfg ev then 1 else 0 := by
  rw [wakeups, List.countP_cons]
  simp only [decide_eq_true_eq]
  rfl

/-- A dispatch enqueues one event for the listening descriptor at most. -/
theorem retriesOf_le (w : World η) (ev : Event) :
    retriesOf cfg w ev ≤ if ForListener cfg ev then 1 else 0 := by
  unfold retriesOf
  by_cases hev : ForListener cfg ev
  · rw [if_pos hev]
    split <;> omega
  · rw [if_neg fun hand => hev hand.1]
    exact Nat.zero_le _

/-- The queue: the events that `wait_events` has taken out of it and not dispatched yet, and those
enqueued since. -/
def Listening.queue (w : Listening η) : List Event :=
  match w.loop with
  | .draining queue => queue ++ w.bus.events
  | _ => w.bus.events

/-- There is at most one event for the listening descriptor in the queue. -/
def Single (cfg : Config η) (w : Listening η) : Prop := wakeups cfg w.queue ≤ 1

instance (cfg : Config η) (w : Listening η) : Decidable (Single cfg w) :=
  inferInstanceAs (Decidable (wakeups cfg w.queue ≤ 1))

/-- The condition, for the turns that dispatch an event of a batch: if it is for the listening
descriptor and not refused, no other one is queued. -/
def Alone (cfg : Config η) (w : Listening η) : Turn → Prop
  | .deliver =>
    match w.loop with
    | .delivering (ev :: _) =>
      ForListener cfg ev → refuses cfg w.bus.world ev = false →
        backlogAfter cfg w.bus.world ev w.backlog ≠ none → wakeups cfg w.bus.events = 0
    | _ => True
  | _ => True

section Turns

variable {n : ℕ} {w w' : Listening η} {turn : Turn}

theorem Tally.handled (h : Tally cfg I n w.bus) (hlocal : cfg.Local I) (hcalm : w.Calm cfg)
    (entry : Entry Callback) (hentry : Between entry) (ev : Event) (loop : Loop) (backlog : ℕ) :
    Tally cfg I (n + retriesOf cfg w.bus.world ev)
      (w.handled cfg entry ev loop backlog).bus := by
  obtain ⟨hsettled, hclear⟩ :=
    (Passes.start.noted entry hentry).settled hcalm.settled hcalm.clear
  have hlogged : Tally cfg I n (w.bus.log entry) := h.of_eq rfl rfl
  exact hlogged.dispatch hlocal hsettled hclear ev

/-- **A turn** leaves the input callbacks where they were. -/
theorem Tally.turned (h : Tally cfg I n w.bus) (hlocal : cfg.Local I) (hcalm : w.Calm cfg)
    (hturn : Turned cfg w turn w') : ∃ n', Tally cfg I n' w'.bus := by
  cases hturn with
  | arrive | leave | again => exact ⟨n, h⟩
  | poll | interrupt | fail => exact ⟨n, h.of_eq rfl rfl⟩
  | deliver s backlog edge ev batch _ =>
    exact ⟨_, h.handled hlocal hcalm (.delivered ev) trivial ev (.delivering batch) backlog⟩
  | swap => exact ⟨0, rfl, h.sessions⟩
  | next s backlog edge ev queue _ =>
    exact ⟨_, h.handled hlocal hcalm (.dispatched ev) trivial ev (.draining queue) backlog⟩

/-- A turn without a dispatch leaves the queue as it is. -/
theorem Turned.queue (hturn : Turned cfg w turn w') (hdeliver : turn ≠ .deliver)
    (hnext : turn ≠ .next) : w'.queue = w.queue := by
  cases hturn with
  | arrive | leave | poll | interrupt | fail | again => rfl
  | swap s backlog edge => exact List.append_nil s.events
  | deliver => exact absurd rfl hdeliver
  | next => exact absurd rfl hnext

/-- **One turn.** -/
theorem single_turn_iff (hlocal : cfg.Local I) (hcalm : w.Calm cfg) (htally : Tally cfg I n w.bus)
    (hsingle : Single cfg w) (turn : Turn) :
    (∀ w', listen cfg w turn = some w' → Single cfg w') ↔ Alone cfg w turn := by
  cases turn with
  | deliver =>
    obtain ⟨s, loop, backlog, edge⟩ := w
    rcases loop with _ | (_ | ⟨ev, batch⟩) | queue
    · exact iff_of_true (fun _ hnone => by cases hnone) trivial
    · exact iff_of_true (fun _ hnone => by cases hnone) trivial
    · have hn : wakeups cfg s.events = n := htally.count
      have hle : wakeups cfg s.events ≤ 1 := hsingle
      have hafter : ∀ backlog', Single cfg
          (Listening.handled ⟨s, .delivering (ev :: batch), backlog, edge⟩ cfg (.delivered ev) ev
            (.delivering batch) backlog') ↔ n + retriesOf cfg s.world ev ≤ 1 := by
        intro backlog'
        rw [← (htally.handled hlocal hcalm (.delivered ev) trivial ev (.delivering batch)
          backlog').count]
        exact Iff.rfl
      refine Option.forall_mem_map.trans ?_
      simp only [hafter, retriesOf]
      constructor
      · intro h hev hrefuses hpossible
        obtain ⟨backlog', hbacklog⟩ := Option.ne_none_iff_exists'.mp hpossible
        have hone := h backlog' hbacklog
        rw [if_pos ⟨hev, hrefuses⟩] at hone
        show wakeups cfg s.events = 0
        omega
      · intro h backlog' hbacklog
        split
        · rename_i hand
          have hzero : wakeups cfg s.events = 0 :=
            h hand.1 hand.2 (Option.ne_none_iff_exists'.mpr ⟨backlog', hbacklog⟩)
          omega
        · omega
    · exact iff_of_true (fun _ hnone => by cases hnone) trivial
  | next =>
    refine iff_of_true ?_ trivial
    obtain ⟨s, loop, backlog, edge⟩ := w
    rcases loop with _ | batch | (_ | ⟨ev, queue⟩)
    · exact fun _ hnone => by cases hnone
    · exact fun _ hnone => by cases hnone
    · exact fun _ hnone => by cases hnone
    · refine Option.forall_mem_map.mpr fun backlog' _ => ?_
      have hcount := (htally.handled hlocal hcalm (.dispatched ev) trivial ev
        (.draining queue) backlog').count
      have hn : wakeups cfg s.events = n := htally.count
      have hbefore : wakeups cfg (ev :: queue ++ s.events) ≤ 1 := hsingle
      have hone : retriesOf cfg s.world ev ≤ if ForListener cfg ev then 1 else 0 :=
        retriesOf_le s.world ev
      rw [wakeups_append, wakeups_cons] at hbefore
      have hafter : wakeups cfg queue + (n + retriesOf cfg s.world ev) ≤ 1 := by omega
      rw [Single, Listening.queue, Listening.handled, wakeups_append]
      rw [Listening.handled] at hcount
      rw [hcount]
      exact hafter
  | arrive | leave | poll _ | interrupt | fail _ | swap | again =>
    refine iff_of_true (fun w' hlisten => ?_) trivial
    rw [Single, (turned_of_listen hlisten).queue (Turn.noConfusion ·) (Turn.noConfusion ·)]
    exact hsingle

end Turns

/-- At first nothing is queued, and there is no session. -/
theorem tally_startServer (opened : List FileDescriptor) :
    Tally cfg I 0 (startServer cfg opened) := by
  refine ⟨rfl, fun sid x hx => ?_⟩
  cases hx

/-- **An idle call** of `wait_events` dispatches exactly what is queued. -/
theorem idle_dispatches (cfg : Config η) (s : ProxyBus η) :
    ∃ entries, (s.waitEvents (host cfg) (epollWaitEvents cfg (.ok []))
        (some fun _ => pure ())).2.trace = s.trace ++ entries ∧
      dispatchedIn entries = s.events := by
  obtain ⟨entries, -, htrace, hdispatched, -⟩ := (Bus.serves (silent_server cfg)
    (epollWaitEvents cfg (.ok [])) s).drained ((s.setErrno (host cfg) 0).log (.polled [])) rfl
  refine ⟨.polled [] :: entries, ?_, hdispatched⟩
  rw [htrace]
  exact List.append_assoc _ _ _

/-- **Accept retries stay single exactly if every reported event finds none.**  In every run of a
server there is at most one event for the listening descriptor in the queue in every state, if and
only if one that is reported and not refused is dispatched only while there is none; and what is
queued is the work of the next idle call. -/
theorem accept_retries_single_iff (cfg : Config η) {I : FileDescriptor → η → Prop}
    (hlocal : cfg.Local I) (opened : List FileDescriptor) :
    (∀ polls, ∃ w, Leads cfg (listening cfg opened) w ∧ w.loop = .waiting ∧
      w.bus = runServer cfg opened polls) ∧
    (∀ turns, Meets (listen cfg) (fun w turn => ∀ w', listen cfg w turn = some w' → Single cfg w')
        (listening cfg opened) turns ↔
      Meets (listen cfg) (Alone cfg) (listening cfg opened) turns) ∧
    ∀ s : ProxyBus η, ∃ entries, (s.waitEvents (host cfg) (epollWaitEvents cfg (.ok []))
        (some fun _ => pure ())).2.trace = s.trace ++ entries ∧
      dispatchedIn entries = s.events := by
  refine ⟨leads_runServer cfg opened, fun turns => ?_, idle_dispatches cfg⟩
  refine meets_congr
    (J := fun w => w.Calm cfg ∧ Single cfg w ∧ ∃ n, Tally cfg I n w.bus) ?_ ?_ ?_ turns
  · rintro w turn ⟨hcalm, hsingle, n, htally⟩
    exact single_turn_iff hlocal hcalm htally hsingle turn
  · rintro w turn w' ⟨hcalm, -, n, htally⟩ hsingle hlisten
    have hturn := turned_of_listen hlisten
    exact ⟨hcalm.turned hturn, hsingle w' hlisten, htally.turned hlocal hcalm hturn⟩
  · exact ⟨calm_listening cfg opened, Nat.zero_le 1, 0, tally_startServer opened⟩

/-- Two clients are accepted, one after the other; the target refuses the connections. -/
def busyServer : Config Unit where
  kernel tick :=
    { recv := .failed EAGAIN
      send := fun _ => .failed EAGAIN
      accept := fun opened => if tick = 0 ∨ tick = 5 then lowestFree opened else .error EAGAIN
      socket := lowestFree
      connect := some 111
      epollCtl := none
      shutdown := none
      close := none }
  listener := 3
  epfd := 4
  addresses := 1
  handlers _ := []
  handlerState _ := ()
  memory _ := 0

/-- A client connects in each of two calls of `wait_events`. -/
def busyTurns : List Turn :=
  [.arrive, .poll [⟨3, Flags.in'⟩], .deliver, .swap, .next, .again,
    .arrive, .poll [⟨3, Flags.in'⟩], .deliver, .swap, .next, .next, .again]

theorem accept_retries_single_busy :
    Meets (listen busyServer)
        (fun w turn => ∀ w', listen busyServer w turn = some w' → Single busyServer w')
        (listening busyServer [0, 1, 2, 4]) busyTurns ↔
      Meets (listen busyServer) (Alone busyServer) (listening busyServer [0, 1, 2, 4]) busyTurns :=
  (accept_retries_single_iff busyServer (local_nil fun _ => rfl) [0, 1, 2, 4]).2.1 busyTurns

/-- **A retry for each client.**  Nobody waits any more, and two events for the listening
descriptor go round. -/
theorem accept_retries_multiply :
    ∃ w, run (listen busyServer) (listening busyServer [0, 1, 2, 4]) busyTurns = some w ∧
      w.loop = .waiting ∧ w.backlog = 0 ∧ ¬ Single busyServer w := by
  refine ⟨_, rfl, rfl, rfl, ?_⟩
  decide

end Proxy
end PsqlTcpProxy
