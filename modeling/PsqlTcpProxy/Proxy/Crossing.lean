import PsqlTcpProxy.Library.Run
import PsqlTcpProxy.Proxy.Server

/-!
# Events and sessions

An entry of the event queue or of an epoll batch names a descriptor, not a
session.  `Watch` reads the trace of a server and notes beside every entry whose
session's the descriptor was when the event was raised; a descriptor is the
session's that registered a callback for it last.

`Clean` is the property one would like: an event of a session calls callbacks of
that session only.  `stale_event_crosses` is a run that is not clean.  One batch
reports an error on both sockets of a session and a new client between the two;
the first error closes both sockets, the new session gets their numbers, and the
second error is delivered to it.

`Unmixed` is what it takes: a session registers a callback for a descriptor only
while no entry that is still to come names it for another session.
-/

namespace PsqlTcpProxy
namespace Proxy

open Library Io Server

/-- Whose events are on their way. -/
structure Watch where
  /-- The session that registered the last callback for a descriptor. -/
  owner : FileDescriptor → Option SessionId
  /-- The rest of the epoll batch, each event with the owner of its descriptor when
  it was reported. -/
  batch : List (Event × Option SessionId)
  /-- The event queue, each event with the owner of its descriptor when it was
  enqueued. -/
  queue : List (Event × Option SessionId)
  /-- The owner noted beside the event being delivered. -/
  current : Option SessionId

namespace Watch

/-- Nothing has happened. -/
def start : Watch := ⟨fun _ => none, [], [], none⟩

/-- One line of the trace. -/
def step (w : Watch) : Entry Callback → Watch
  | .added fd callback =>
    { w with owner := fun fd' => if fd' = fd then callback.session? else w.owner fd' }
  | .enqueued ev => { w with queue := w.queue ++ [(ev, w.owner ev.fd)] }
  | .polled batch => { w with batch := batch.map fun ev => (ev, w.owner ev.fd) }
  | .delivered _ => { w with batch := w.batch.tail, current := w.batch.head?.bind Prod.snd }
  | .dispatched _ => { w with queue := w.queue.tail, current := w.queue.head?.bind Prod.snd }
  | .marked _ | .invoked .. | .returned .. | .reported _ => w

/-- A callback that is called for an event of a session is that session's. -/
def Stays (w : Watch) : Entry Callback → Prop
  | .invoked callback _ => ∀ sid ∈ w.current, callback.session? = some sid
  | _ => True

/-- A callback is registered for a descriptor only while no event that is still to
come names it for another session. -/
def Fresh (w : Watch) : Entry Callback → Prop
  | .added fd callback =>
    ∀ entry ∈ w.batch ++ w.queue, entry.1.fd = fd → ∀ sid ∈ entry.2, callback.session? = some sid
  | _ => True

instance (w : Watch) : DecidablePred w.Stays
  | .invoked callback _ =>
    inferInstanceAs (Decidable (∀ sid ∈ w.current, callback.session? = some sid))
  | .added .. | .marked _ | .enqueued _ | .polled _ | .delivered _ | .dispatched _
  | .returned .. | .reported _ => .isTrue trivial

instance (w : Watch) : DecidablePred w.Fresh
  | .added fd callback =>
    inferInstanceAs (Decidable (∀ entry ∈ w.batch ++ w.queue, entry.1.fd = fd →
      ∀ sid ∈ entry.2, callback.session? = some sid))
  | .invoked .. | .marked _ | .enqueued _ | .polled _ | .delivered _ | .dispatched _
  | .returned .. | .reported _ => .isTrue trivial

end Watch

/-- The watch after a trace. -/
def watch (trace : List (Entry Callback)) : Watch := trace.foldl Watch.step Watch.start

/-- **No event crosses sessions.** -/
def Clean (trace : List (Entry Callback)) : Prop :=
  Meets (fun w entry => some (Watch.step w entry)) Watch.Stays Watch.start trace

/-- No descriptor changes its session while events of the old one are on their
way. -/
def Unmixed (trace : List (Entry Callback)) : Prop :=
  Meets (fun w entry => some (Watch.step w entry)) Watch.Fresh Watch.start trace

instance (trace : List (Entry Callback)) : Decidable (Clean trace) :=
  inferInstanceAs (Decidable (Meets _ _ _ _))

instance (trace : List (Entry Callback)) : Decidable (Unmixed trace) :=
  inferInstanceAs (Decidable (Meets _ _ _ _))

/-! ## A run that is not clean -/

/-- The smaller of 5 and 6 that is free. -/
def lowestFree (opened : List FileDescriptor) : Opened opened :=
  if h : 5 ∈ opened then
    if h' : 6 ∈ opened then .error 24 else .ok ⟨6, by decide, h'⟩
  else .ok ⟨5, by decide, h⟩

/-- A server with room for one session, and a kernel where a client is waiting when
`accept` is called for the first time, and again when it is called after that
session is gone. -/
def reusingServer : Config Unit where
  kernel tick :=
    { recv := .failed EAGAIN
      send := fun _ => .failed EAGAIN
      accept := fun opened => if tick = 0 ∨ tick = 11 then lowestFree opened else .error EAGAIN
      socket := lowestFree
      connect := none
      epollCtl := none
      shutdown := none
      close := none }
  listener := 3
  epfd := 4
  addresses := 1
  handlers _ := []
  handlerState _ := ()
  memory _ := 0

/-- A client connects; then both sockets of its session fail while another client
connects. -/
def reusingRun : ProxyBus Unit :=
  runServer reusingServer [0, 1, 2, 4]
    [.ok [⟨3, Flags.in'⟩], .ok [⟨5, Flags.error⟩, ⟨3, Flags.in'⟩, ⟨6, Flags.error⟩]]

set_option maxRecDepth 4000 in
/-- **A stale error event tears down a new session.**  The error of descriptor 6,
reported while it was session 0's, is delivered to session 1, which is destroyed. -/
theorem stale_event_crosses :
    ¬ Clean reusingRun.trace ∧
    (reusingRun.world.sessions 1).map Session.references = some 0 := by
  decide

/-! ## Reading the watch -/

@[simp] theorem watch_append (l l' : List (Entry Callback)) :
    watch (l ++ l') = l'.foldl Watch.step (watch l) := by
  rw [watch, watch, List.foldl_append]

namespace Watch

/-- Only a registration changes an owner. -/
theorem owner_step (w : Watch) {entry : Entry Callback}
    (h : ∀ fd callback, entry ≠ .added fd callback) : (w.step entry).owner = w.owner := by
  cases entry with
  | added fd callback => exact absurd rfl (h fd callback)
  | marked _ | enqueued _ | polled _ | delivered _ | dispatched _ | invoked _ _ | returned _ _
  | reported _ => rfl

end Watch

end Proxy
end PsqlTcpProxy
