import PsqlTcpProxy.Proxy.Teardown

/-!
# The listening descriptor

The acceptor and the kernel.  A client that connects lengthens the backlog and
raises an edge; the next `epoll_wait` that has room for the listening descriptor
reports the edge and forgets it; `accept` takes a client off the backlog.

A run is a list of turns.  `listen` is one turn of the server or of its
surroundings, and a turn of the server is a piece of `wait_events`, up to the next
dispatch: `Loop` says where it stands.  So every run of the server is a run of turns
(`leads_runServer`), and between two turns the server is between two dispatches
(`Turned.passes`).
-/

namespace PsqlTcpProxy
namespace Proxy

open Library Io Server

variable {η : Type} {cfg : Config η}

/-- Where `wait_events` stands between two dispatches. -/
inductive Loop where
  /-- Before `epoll_wait`. -/
  | waiting
  /-- In the loop over a batch, with these events to come. -/
  | delivering (batch : List Event)
  /-- In the loop over the queue, with these events to come. -/
  | draining (queue : List Event)
  deriving DecidableEq

/-- The events that the loop has still to dispatch. -/
def Loop.toCome : Loop → List Event
  | .waiting => []
  | .delivering evs | .draining evs => evs

/-- A server and the listening descriptor. -/
structure Listening (η : Type) where
  bus : ProxyBus η
  loop : Loop
  /-- The clients that wait to be accepted. -/
  backlog : ℕ
  /-- A client has connected since the descriptor was reported last. -/
  edge : Bool

/-- The events that will be dispatched: those of the loop, and those of the bus's queue. -/
def Listening.toCome (w : Listening η) : List Event := w.loop.toCome ++ w.bus.events

/-- What can happen. -/
inductive Turn where
  /-- A client connects. -/
  | arrive
  /-- A client gives up before it is accepted. -/
  | leave
  /-- `epoll_wait` reports a batch. -/
  | poll (batch : List Event)
  /-- `epoll_wait` is interrupted. -/
  | interrupt
  /-- `epoll_wait` fails, and the error is reported. -/
  | fail (err : Error)
  /-- The next event of the batch is dispatched. -/
  | deliver
  /-- `std::swap(_events, events)` -/
  | swap
  /-- The next event of the queue is dispatched. -/
  | next
  /-- The queue is empty, and `wait_events` is called again. -/
  | again
  deriving DecidableEq

/-- The event is for the listening descriptor. -/
def ForListener (cfg : Config η) (ev : Event) : Prop := ev.fd = cfg.listener

instance (cfg : Config η) : DecidablePred (ForListener cfg) := fun ev =>
  inferInstanceAs (Decidable (ev.fd = cfg.listener))

/-- One of the events is for the listening descriptor. -/
def Wakes (cfg : Config η) (evs : List Event) : Prop := ∃ ev ∈ evs, ForListener cfg ev

instance (cfg : Config η) (evs : List Event) : Decidable (Wakes cfg evs) :=
  inferInstanceAs (Decidable (∃ ev ∈ evs, ForListener cfg ev))

theorem wakes_append {evs evs' : List Event} :
    Wakes cfg (evs ++ evs') ↔ Wakes cfg evs ∨ Wakes cfg evs' := by
  constructor
  · rintro ⟨ev, hmem, hev⟩
    rcases List.mem_append.mp hmem with hmem | hmem
    · exact Or.inl ⟨ev, hmem, hev⟩
    · exact Or.inr ⟨ev, hmem, hev⟩
  · rintro (⟨ev, hmem, hev⟩ | ⟨ev, hmem, hev⟩)
    · exact ⟨ev, List.mem_append_left _ hmem, hev⟩
    · exact ⟨ev, List.mem_append_right _ hmem, hev⟩

theorem wakes_cons {ev : Event} {evs : List Event} :
    Wakes cfg (ev :: evs) ↔ ForListener cfg ev ∨ Wakes cfg evs := by
  have happend : Wakes cfg ([ev] ++ evs) ↔ Wakes cfg [ev] ∨ Wakes cfg evs := wakes_append
  refine happend.trans (or_congr_left ?_)
  constructor
  · rintro ⟨ev', hmem, hev⟩
    rw [← List.mem_singleton.mp hmem]
    exact hev
  · exact fun hev => ⟨ev, List.mem_singleton_self ev, hev⟩

/-- `_accept_new_client` throws: the event carries an error, or `accept` fails with an `errno`
that does not only ask for patience. -/
def refuses (cfg : Config η) (w : World η) (ev : Event) : Bool :=
  ev.flags.test Flags.error ||
    match (cfg.kernel w.tick).accept w.opened with
    | .ok _ => false
    | .error errno => !inProgress errno

/-- The backlog after the dispatch of an event; `accept` returns a client only if there is
one. -/
def backlogAfter (cfg : Config η) (w : World η) (ev : Event) (backlog : ℕ) : Option ℕ :=
  if ev.fd = cfg.listener ∧ ev.flags.test Flags.error = false then
    match (cfg.kernel w.tick).accept w.opened, backlog with
    | .error _, backlog => some backlog
    | .ok _, backlog + 1 => some backlog
    | .ok _, 0 => none
  else some backlog

/-- An event has been dispatched. -/
def Listening.handled (w : Listening η) (cfg : Config η) (entry : Entry Callback) (ev : Event)
    (loop : Loop) (backlog : ℕ) : Listening η :=
  { w with
    bus := ((w.bus.log entry).dispatch (host cfg) (some fun _ => pure ()) ev).2
    loop, backlog }

/-- One turn, where it is possible. -/
def listen (cfg : Config η) (w : Listening η) : Turn → Option (Listening η)
  | .arrive => some { w with backlog := w.backlog + 1, edge := true }
  | .leave => some { w with backlog := w.backlog - 1 }
  | .poll batch =>
    if w.loop = .waiting ∧ (Wakes cfg batch → w.edge = true) then
      some { w with
        bus := (w.bus.setErrno (host cfg) 0).log (.polled batch)
        loop := .delivering batch
        edge := w.edge && !decide (Wakes cfg batch) }
    else none
  | .interrupt =>
    if w.loop = .waiting then
      some { w with bus := w.bus.setErrno (host cfg) EINTR, loop := .delivering [] }
    else none
  | .fail err =>
    if w.loop = .waiting then
      some { w with bus := (w.bus.setErrno (host cfg) err.errno).log (.reported err) }
    else none
  | .deliver =>
    match w.loop with
    | .delivering (ev :: batch) => (backlogAfter cfg w.bus.world ev w.backlog).map
        (w.handled cfg (.delivered ev) ev (.delivering batch))
    | _ => none
  | .swap =>
    if w.loop = .delivering [] then
      some { w with bus := { w.bus with events := [] }, loop := .draining w.bus.events }
    else none
  | .next =>
    match w.loop with
    | .draining (ev :: queue) => (backlogAfter cfg w.bus.world ev w.backlog).map
        (w.handled cfg (.dispatched ev) ev (.draining queue))
    | _ => none
  | .again => if w.loop = .draining [] then some { w with loop := .waiting } else none

/-- A server that is listening, before the first client connects. -/
def listening (cfg : Config η) (opened : List FileDescriptor) : Listening η :=
  { bus := startServer cfg opened, loop := .waiting, backlog := 0, edge := false }

/-- The turns, as a relation. -/
inductive Turned (cfg : Config η) : Listening η → Turn → Listening η → Prop
  | arrive (w : Listening η) :
    Turned cfg w .arrive { w with backlog := w.backlog + 1, edge := true }
  | leave (w : Listening η) : Turned cfg w .leave { w with backlog := w.backlog - 1 }
  | poll (s : ProxyBus η) (backlog : ℕ) (edge : Bool) (batch : List Event)
    (hedge : Wakes cfg batch → edge = true) :
    Turned cfg ⟨s, .waiting, backlog, edge⟩ (.poll batch)
      ⟨(s.setErrno (host cfg) 0).log (.polled batch), .delivering batch, backlog,
        edge && !decide (Wakes cfg batch)⟩
  | interrupt (s : ProxyBus η) (backlog : ℕ) (edge : Bool) :
    Turned cfg ⟨s, .waiting, backlog, edge⟩ .interrupt
      ⟨s.setErrno (host cfg) EINTR, .delivering [], backlog, edge⟩
  | fail (s : ProxyBus η) (backlog : ℕ) (edge : Bool) (err : Error) :
    Turned cfg ⟨s, .waiting, backlog, edge⟩ (.fail err)
      ⟨(s.setErrno (host cfg) err.errno).log (.reported err), .waiting, backlog, edge⟩
  | deliver (s : ProxyBus η) (backlog : ℕ) (edge : Bool) (ev : Event) (batch : List Event)
    {backlog' : ℕ} (hafter : backlogAfter cfg s.world ev backlog = some backlog') :
    Turned cfg ⟨s, .delivering (ev :: batch), backlog, edge⟩ .deliver
      ⟨((s.log (.delivered ev)).dispatch (host cfg) (some fun _ => pure ()) ev).2,
        .delivering batch, backlog', edge⟩
  | swap (s : ProxyBus η) (backlog : ℕ) (edge : Bool) :
    Turned cfg ⟨s, .delivering [], backlog, edge⟩ .swap
      ⟨{ s with events := [] }, .draining s.events, backlog, edge⟩
  | next (s : ProxyBus η) (backlog : ℕ) (edge : Bool) (ev : Event) (queue : List Event)
    {backlog' : ℕ} (hafter : backlogAfter cfg s.world ev backlog = some backlog') :
    Turned cfg ⟨s, .draining (ev :: queue), backlog, edge⟩ .next
      ⟨((s.log (.dispatched ev)).dispatch (host cfg) (some fun _ => pure ()) ev).2,
        .draining queue, backlog', edge⟩
  | again (s : ProxyBus η) (backlog : ℕ) (edge : Bool) :
    Turned cfg ⟨s, .draining [], backlog, edge⟩ .again ⟨s, .waiting, backlog, edge⟩

/-- **What a turn can do.** -/
theorem turned_of_listen {w w' : Listening η} {turn : Turn} (h : listen cfg w turn = some w') :
    Turned cfg w turn w' := by
  obtain ⟨s, loop, backlog, edge⟩ := w
  cases turn with
  | arrive =>
    obtain rfl := Option.some.inj h
    exact .arrive _
  | leave =>
    obtain rfl := Option.some.inj h
    exact .leave _
  | poll batch =>
    obtain ⟨⟨hloop, hedge⟩, heq⟩ := Option.ite_none_right_eq_some.mp h
    obtain rfl : loop = .waiting := hloop
    obtain rfl := Option.some.inj heq
    exact .poll s backlog edge batch hedge
  | interrupt =>
    obtain ⟨hloop, heq⟩ := Option.ite_none_right_eq_some.mp h
    obtain rfl : loop = .waiting := hloop
    obtain rfl := Option.some.inj heq
    exact .interrupt s backlog edge
  | fail err =>
    obtain ⟨hloop, heq⟩ := Option.ite_none_right_eq_some.mp h
    obtain rfl : loop = .waiting := hloop
    obtain rfl := Option.some.inj heq
    exact .fail s backlog edge err
  | deliver =>
    rcases loop with _ | (_ | ⟨ev, batch⟩) | queue
    · cases h
    · cases h
    · obtain ⟨backlog', hafter, rfl⟩ := Option.map_eq_some_iff.mp h
      exact .deliver s backlog edge ev batch hafter
    · cases h
  | swap =>
    obtain ⟨hloop, heq⟩ := Option.ite_none_right_eq_some.mp h
    obtain rfl : loop = .delivering [] := hloop
    obtain rfl := Option.some.inj heq
    exact .swap s backlog edge
  | next =>
    rcases loop with _ | batch | (_ | ⟨ev, queue⟩)
    · cases h
    · cases h
    · cases h
    · obtain ⟨backlog', hafter, rfl⟩ := Option.map_eq_some_iff.mp h
      exact .next s backlog edge ev queue hafter
  | again =>
    obtain ⟨hloop, heq⟩ := Option.ite_none_right_eq_some.mp h
    obtain rfl : loop = .draining [] := hloop
    obtain rfl := Option.some.inj heq
    exact .again s backlog edge

/-! ## One event for the listening descriptor -/

section Accept

variable {s : ProxyBus η} {fd : FileDescriptor} {mask : Flags} {ev : Event}

/-- The acceptor throws, and has enqueued nothing. -/
theorem acceptEvent_refused (h : refuses cfg s.world ⟨fd, mask⟩ = true) :
    ∃ e t, s.exec (host cfg) (acceptEvent cfg (makeNewSession cfg) fd mask) = (.error e, t) ∧
      t.events = s.events ∧
      t.callbacksToRemove = s.callbacksToRemove ∧ t.world.sessions = s.world.sessions := by
  simp only [Bus.exec, acceptEvent, acceptNewClient, ask, world, setWorld, perform, Server.setErrno,
    Server.modify, Program.exec_bind, Program.exec_lift, Program.andThen_ok, Bus.perform,
    Program.exec_pure]
  rw [refuses, Bool.or_eq_true] at h
  rcases hmask : mask.test Flags.error with _ | _
  · have hrefused := h.resolve_left (by rw [hmask]; exact Bool.false_ne_true)
    rcases haccept : (cfg.kernel s.world.tick).accept s.world.opened with errno | conn
    · rw [haccept] at hrefused
      have hpatience : inProgress errno = false := by simpa using hrefused
      simp only [hpatience]
      exact ⟨_, _, rfl, rfl, rfl, rfl⟩
    · rw [haccept] at hrefused
      cases hrefused
  · exact ⟨_, _, rfl, rfl, rfl, rfl⟩

/-- **`_accept_new_client` enqueues one event**, and returns a descriptor that was not open. -/
theorem acceptNewClient_enqueues (h : refuses cfg s.world ⟨fd, mask⟩ = false) :
    ∃ conn t, s.exec (host cfg) (acceptNewClient cfg fd mask) = (.ok conn, t) ∧
      t.events = s.events ++ [⟨fd, Flags.in'⟩] ∧ t.world.sessions = s.world.sessions ∧
      (0 < conn → conn ∉ s.world.opened) := by
  simp only [Bus.exec, acceptNewClient, ask, world, setWorld, perform, Server.setErrno, enqueueEvent,
    Server.modify, Program.exec_bind, Program.exec_lift, Program.andThen_ok, Bus.perform,
    Program.exec_pure]
  rw [refuses, Bool.or_eq_false_iff] at h
  obtain ⟨hmask, hanswer⟩ := h
  have hmask' : mask.test Flags.error = false := hmask
  rcases haccept : (cfg.kernel s.world.tick).accept s.world.opened with errno | conn
  · rw [haccept] at hanswer
    have hpatience : inProgress errno = true := by simpa using hanswer
    simp only [hmask', hpatience, Program.exec_bind, Program.exec_lift, Program.andThen_ok,
      Bus.perform, Program.exec_pure, if_true, Bool.false_eq_true, if_false]
    exact ⟨_, _, rfl, rfl, rfl, fun hpos => absurd hpos (by decide)⟩
  · simp only [hmask', Program.exec_bind, Program.exec_lift, Program.andThen_ok, Bus.perform,
      Program.exec_pure, Bool.false_eq_true, if_false]
    exact ⟨_, _, rfl, rfl, rfl, fun _ => conn.2.2⟩

/-- What comes after it. -/
theorem acceptEvent_of_ok {conn : FileDescriptor} {t : ProxyBus η}
    (h : s.exec (host cfg) (acceptNewClient cfg fd mask) = (.ok conn, t)) :
    s.exec (host cfg) (acceptEvent cfg (makeNewSession cfg) fd mask) =
      t.exec (host cfg) (if 0 < conn then makeNewSession cfg conn else pure ()) := by
  have hnew : Program.exec (Bus.perform (host cfg)) (acceptNewClient cfg fd mask) s =
      (.ok conn, t) := h
  rw [Bus.exec, acceptEvent, Program.exec_bind, hnew]
  rfl

/-- The loop over the callbacks of the listening descriptor ends where the acceptor does, but for
lines of the trace. -/
theorem runCallbacks_listener (hs : Settled cfg s) (hclear : s.callbacksToRemove = [])
    (hev : ForListener cfg ev) {r : Except Exception Unit} {t : ProxyBus η}
    (hexec : (s.log (.invoked .accept ev)).exec (host cfg)
      (acceptEvent cfg (makeNewSession cfg) ev.fd ev.flags) = (r, t)) :
    ∃ v : ProxyBus η, (s.dispatch (host cfg) (some fun _ => pure ()) ev).2 = v.flush (host cfg) ∧
      v.events = t.events ∧ v.callbacksToRemove = t.callbacksToRemove ∧ v.world = t.world := by
  have hat : callbacksAt s ev.fd = [.accept] := by
    rw [callbacksAt, show ev.fd = cfg.listener from hev, hs.listening]
    rfl
  refine ⟨_, dispatch_eq cfg s ev, ?_⟩
  rw [hat]
  rcases runCallbacks_accept cfg s ev hclear hexec with ⟨-, heq⟩ | ⟨e, err, -, heq⟩
  · rw [heq]
    exact ⟨rfl, rfl, rfl⟩
  · rw [heq]
    exact ⟨rfl, rfl, rfl⟩

/-- **A refused event** leaves the queue as it is. -/
theorem dispatch_refused (hs : Settled cfg s) (hclear : s.callbacksToRemove = [])
    (hev : ForListener cfg ev) (h : refuses cfg s.world ev = true) :
    (s.dispatch (host cfg) (some fun _ => pure ()) ev).2.events = s.events ∧
      (s.dispatch (host cfg) (some fun _ => pure ()) ev).2.world.sessions = s.world.sessions := by
  obtain ⟨e, t, hexec, hevents, hmarks, hsessions⟩ :=
    acceptEvent_refused (s := s.log (.invoked .accept ev)) h
  obtain ⟨v, hdispatch, hevents', hmarks', hworld⟩ := runCallbacks_listener hs hclear hev hexec
  have hnone : v.callbacksToRemove = [] := hmarks'.trans (hmarks.trans hclear)
  rw [hdispatch, Bus.flush_of_nil hnone]
  refine ⟨hevents'.trans hevents, ?_⟩
  show v.world.sessions = s.world.sessions
  rw [hworld]
  exact hsessions

/-- **An event that is not refused** is followed by another one. -/
theorem dispatch_accepts (hs : Settled cfg s) (hclear : s.callbacksToRemove = [])
    (hev : ForListener cfg ev) (h : refuses cfg s.world ev = false) :
    ∃ ev' ∈ (s.dispatch (host cfg) (some fun _ => pure ()) ev).2.events, ForListener cfg ev' := by
  obtain ⟨conn, t, haccept, hevents, -⟩ :=
    acceptNewClient_enqueues (s := s.log (.invoked .accept ev)) h
  obtain ⟨v, hdispatch, hevents', -⟩ :=
    runCallbacks_listener hs hclear hev (acceptEvent_of_ok haccept)
  -- what follows only adds to the queue
  obtain ⟨ops, hemits, -⟩ := Bus.used_exec (host cfg)
    (if 0 < conn then makeNewSession cfg conn else pure ()) t
  obtain ⟨ops', hemits', -⟩ := Bus.flush_spec (host cfg) v
  have hmore : t.events ++ enqueuedIn ops = v.events := hemits.events.symm.trans hevents'.symm
  refine ⟨⟨ev.fd, Flags.in'⟩, ?_, hev⟩
  rw [hdispatch, hemits'.events, ← hmore, hevents]
  simp

end Accept

/-! ## Between two turns -/

/-- **One turn** of the server goes from between two dispatches to between two dispatches. -/
theorem Turned.passes {w w' : Listening η} {turn : Turn} (h : Turned cfg w turn w') :
    ∃ evs, Passes cfg w.bus evs w'.bus := by
  cases h with
  | arrive | leave | again => exact ⟨[], .start⟩
  | poll _ _ _ batch => exact ⟨[], (Passes.start.errnoSet 0).noted (.polled batch) trivial⟩
  | interrupt => exact ⟨[], Passes.start.errnoSet EINTR⟩
  | fail _ _ _ err =>
    exact ⟨[], (Passes.start.errnoSet err.errno).noted (.reported err) trivial⟩
  | deliver _ _ _ ev => exact ⟨_, (Passes.start.noted (.delivered ev) trivial).dispatched ev⟩
  | swap => exact ⟨[], Passes.start.swapped⟩
  | next _ _ _ ev => exact ⟨_, (Passes.start.noted (.dispatched ev) trivial).dispatched ev⟩

/-- Between two turns every session stands somewhere, and nothing is marked. -/
structure Listening.Calm (cfg : Config η) (w : Listening η) : Prop where
  settled : Settled cfg w.bus
  clear : w.bus.callbacksToRemove = []

theorem calm_listening (cfg : Config η) (opened : List FileDescriptor) :
    (listening cfg opened).Calm cfg :=
  ⟨settled_startServer cfg opened, rfl⟩

theorem Listening.Calm.turned {w w' : Listening η} {turn : Turn} (h : w.Calm cfg)
    (hturn : Turned cfg w turn w') : w'.Calm cfg := by
  obtain ⟨evs, hpasses⟩ := hturn.passes
  obtain ⟨hsettled, hclear⟩ := hpasses.settled h.settled h.clear
  exact ⟨hsettled, hclear⟩

/-! ## The server's runs -/

/-- From `w` the turns can lead to `w'`. -/
def Leads (cfg : Config η) (w w' : Listening η) : Prop :=
  ∃ turns, run (listen cfg) w turns = some w'

theorem Leads.refl (w : Listening η) : Leads cfg w w := ⟨[], rfl⟩

theorem Leads.trans {w w' w'' : Listening η} (h : Leads cfg w w') (h' : Leads cfg w' w'') :
    Leads cfg w w'' := by
  obtain ⟨turns, hrun⟩ := h
  obtain ⟨turns', hrun'⟩ := h'
  refine ⟨turns ++ turns', ?_⟩
  rw [run_append, hrun]
  exact hrun'

theorem Leads.single {w w' : Listening η} (turn : Turn) (h : listen cfg w turn = some w') :
    Leads cfg w w' := by
  refine ⟨[turn], ?_⟩
  rw [run_cons, h]
  rfl

/-- A client that connects in time makes every answer of `accept` possible. -/
theorem exists_backlogAfter (cfg : Config η) (w : World η) (ev : Event) (backlog : ℕ) :
    ∃ backlog', backlogAfter cfg w ev (backlog + 1) = some backlog' := by
  unfold backlogAfter
  split
  · split
    · exact ⟨_, rfl⟩
    · exact ⟨_, rfl⟩
    · rename_i hzero
      cases hzero
  · exact ⟨_, rfl⟩

/-- A dispatch. -/
theorem leads_handled (turn : Turn) {w : Listening η} {entry : Entry Callback} {ev : Event}
    {loop : Loop} (hlisten : ∀ backlog edge, listen cfg { w with backlog, edge } turn =
      (backlogAfter cfg w.bus.world ev backlog).map
        (({ w with backlog, edge } : Listening η).handled cfg entry ev loop)) :
    ∃ w', Leads cfg w w' ∧ w'.loop = loop ∧
      w'.bus = ((w.bus.log entry).dispatch (host cfg) (some fun _ => pure ()) ev).2 := by
  obtain ⟨backlog', hafter⟩ := exists_backlogAfter cfg w.bus.world ev w.backlog
  have hturn := hlisten (w.backlog + 1) true
  rw [hafter, Option.map_some] at hturn
  exact ⟨_, (Leads.single .arrive rfl).trans (Leads.single turn hturn), rfl, rfl⟩

theorem leads_deliver (cfg : Config η) {w : Listening η} {ev : Event} {batch : List Event}
    (hloop : w.loop = .delivering (ev :: batch)) :
    ∃ w', Leads cfg w w' ∧ w'.loop = .delivering batch ∧
      w'.bus = ((w.bus.log (.delivered ev)).dispatch (host cfg) (some fun _ => pure ()) ev).2 := by
  obtain ⟨s, loop, backlog, edge⟩ := w
  obtain rfl : loop = .delivering (ev :: batch) := hloop
  exact leads_handled .deliver fun _ _ => rfl

theorem leads_next (cfg : Config η) {w : Listening η} {ev : Event} {queue : List Event}
    (hloop : w.loop = .draining (ev :: queue)) :
    ∃ w', Leads cfg w w' ∧ w'.loop = .draining queue ∧
      w'.bus = ((w.bus.log (.dispatched ev)).dispatch (host cfg) (some fun _ => pure ()) ev).2 := by
  obtain ⟨s, loop, backlog, edge⟩ := w
  obtain rfl : loop = .draining (ev :: queue) := hloop
  exact leads_handled .next fun _ _ => rfl

/-- The loop over a batch. -/
theorem leads_deliverAll (cfg : Config η) {w : Listening η} {batch : List Event}
    (hloop : w.loop = .delivering batch) :
    ∃ w', Leads cfg w w' ∧ w'.loop = .delivering [] ∧
      w'.bus = (w.bus.native (host cfg) (some fun _ => pure ()) (Epoll.deliverAll batch)).2 := by
  induction batch generalizing w with
  | nil => exact ⟨w, .refl w, hloop, rfl⟩
  | cons ev batch ih =>
    obtain ⟨w₁, hfirst, hloop₁, hbus₁⟩ := leads_deliver cfg hloop
    obtain ⟨w₂, hrest, hloop₂, hbus₂⟩ := ih hloop₁
    refine ⟨w₂, hfirst.trans hrest, hloop₂, ?_⟩
    rw [hbus₂, hbus₁, native_deliverAll_cons]

/-- The loop over the queue. -/
theorem leads_drain (cfg : Config η) {w : Listening η} {queue : List Event}
    (hloop : w.loop = .draining queue) :
    ∃ w', Leads cfg w w' ∧ w'.loop = .waiting ∧
      w'.bus = (w.bus.drain (host cfg) (some fun _ => pure ()) queue).2 := by
  induction queue generalizing w with
  | nil =>
    exact ⟨{ w with loop := .waiting }, Leads.single .again (if_pos hloop), rfl, rfl⟩
  | cons ev queue ih =>
    obtain ⟨w₁, hfirst, hloop₁, hbus₁⟩ := leads_next cfg hloop
    obtain ⟨w₂, hrest, hloop₂, hbus₂⟩ := ih hloop₁
    refine ⟨w₂, hfirst.trans hrest, hloop₂, ?_⟩
    rw [hbus₂, hbus₁, drain_cons]

/-- The queue phase. -/
theorem leads_swap (cfg : Config η) {w : Listening η} (hloop : w.loop = .delivering []) :
    ∃ w', Leads cfg w w' ∧ w'.loop = .waiting ∧
      w'.bus = (({ w.bus with events := [] } : ProxyBus η).drain (host cfg)
        (some fun _ => pure ()) w.bus.events).2 := by
  have hswap : listen cfg w .swap =
      some { w with bus := { w.bus with events := [] }, loop := .draining w.bus.events } :=
    if_pos hloop
  obtain ⟨w', hdrain, hloop', hbus⟩ := leads_drain cfg
    (w := { w with bus := { w.bus with events := [] }, loop := .draining w.bus.events }) rfl
  exact ⟨w', (Leads.single .swap hswap).trans hdrain, hloop', hbus⟩

/-- **A call of `wait_events`.** -/
theorem leads_waitEvents (cfg : Config η) {w : Listening η} (hloop : w.loop = .waiting)
    (polled : Except ℤ (List Event)) :
    ∃ w', Leads cfg w w' ∧ w'.loop = .waiting ∧
      w'.bus = (w.bus.waitEvents (host cfg) (epollWaitEvents cfg polled)
        (some fun _ => pure ())).2 := by
  obtain ⟨s, loop, backlog, edge⟩ := w
  obtain rfl : loop = .waiting := hloop
  cases polled with
  | ok batch =>
    have hpoll : listen cfg ⟨s, .waiting, backlog + 1, true⟩ (.poll batch) =
        some ⟨(s.setErrno (host cfg) 0).log (.polled batch), .delivering batch, backlog + 1,
          true && !decide (Wakes cfg batch)⟩ :=
      if_pos ⟨rfl, fun _ => rfl⟩
    obtain ⟨w₁, hbatch, hloop₁, hbus₁⟩ := leads_deliverAll cfg
      (w := ⟨(s.setErrno (host cfg) 0).log (.polled batch), .delivering batch, backlog + 1, _⟩) rfl
    obtain ⟨w₂, hqueue, hloop₂, hbus₂⟩ := leads_swap cfg hloop₁
    refine ⟨w₂, (((Leads.single .arrive rfl).trans (Leads.single (.poll batch) hpoll)).trans
      hbatch).trans hqueue, hloop₂, ?_⟩
    have hnative : s.native (host cfg) (some fun _ => pure ()) (epollWaitEvents cfg (.ok batch)) =
        (.ok (), w₁.bus) := by
      rw [native_batch, hbus₁]
      exact Prod.ext (native_deliverAll_ok cfg batch _) rfl
    rw [hbus₂, waitEvents_served hnative]
  | error errno =>
    have hnative := Bus.native_errno (host cfg) (some fun _ => pure ()) cfg.epfd errno s
    by_cases hinterrupted : errno = EINTR
    · subst hinterrupted
      obtain ⟨w₁, hqueue, hloop₁, hbus₁⟩ := leads_swap cfg
        (w := ⟨s.setErrno (host cfg) EINTR, .delivering [], backlog, edge⟩) rfl
      refine ⟨w₁, (Leads.single .interrupt rfl).trans hqueue, hloop₁, ?_⟩
      rw [if_pos rfl] at hnative
      rw [hbus₁, waitEvents_served hnative]
    · rw [if_neg hinterrupted] at hnative
      refine ⟨_, Leads.single (.fail ⟨"epoll wait error", cfg.epfd, errno⟩) rfl, rfl, ?_⟩
      simp only [Bus.waitEvents, Bus.serve, hnative]
      rfl

/-- **Every run of the server** is a run of turns. -/
theorem leads_runServer (cfg : Config η) (opened : List FileDescriptor)
    (polls : List (Except ℤ (List Event))) :
    ∃ w, Leads cfg (listening cfg opened) w ∧ w.loop = .waiting ∧
      w.bus = runServer cfg opened polls := by
  have hafter : ∀ w : Listening η, w.loop = .waiting → ∃ w', Leads cfg w w' ∧ w'.loop = .waiting ∧
      w'.bus = w.bus.after (host cfg) (Server.runs (host cfg) cfg polls) := by
    induction polls with
    | nil => exact fun w hloop => ⟨w, .refl w, hloop, rfl⟩
    | cons polled polls ih =>
      intro w hloop
      obtain ⟨w₁, hfirst, hloop₁, hbus₁⟩ := leads_waitEvents cfg hloop polled
      obtain ⟨w₂, hrest, hloop₂, hbus₂⟩ := ih w₁ hloop₁
      refine ⟨w₂, hfirst.trans hrest, hloop₂, ?_⟩
      rw [hbus₂, hbus₁]
      rfl
  exact hafter (listening cfg opened) rfl

end Proxy
end PsqlTcpProxy
