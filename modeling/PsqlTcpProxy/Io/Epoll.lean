import PsqlTcpProxy.Io.Bus
import PsqlTcpProxy.Io.Socket

/-!
# Epoll

`epoll::_wait_events` (`io/epoll.cpp`), as code of a bus with any callbacks.  With it
`wait_events` has two loops, over the batch that the kernel reports and over the
queue.  They differ only in what the trace says of an event, and both end with the
first exception (`dispatchAll`).
-/

namespace PsqlTcpProxy
namespace Io

open Library

variable {κ σ : Type}

namespace Epoll

/-- Code inside `_wait_events`. -/
abbrev WaitProgram (κ σ α : Type) := Program (WaitCall κ σ) WaitCall.Res Exception α

/-- `errno = …` -/
def setErrno (host : Host κ σ) (errno : ℤ) : WaitProgram κ σ Unit := do
  let world ← Program.lift (WaitCall.bus .get : WaitCall κ σ)
  Program.lift (WaitCall.bus (.set (host.setErrno errno world)) : WaitCall κ σ)

/-- What the kernel reports. -/
def poll (batch : List Event) : WaitProgram κ σ Unit :=
  Program.lift (WaitCall.poll batch : WaitCall κ σ)

/-- `callback(this, event.data.fd, flags)` -/
def deliver (ev : Event) : WaitProgram κ σ Unit := do
  match ← Program.lift (WaitCall.deliver ev : WaitCall κ σ) with
  | .ok () => pure ()
  | .error e => throw e

/-- `for (const event_t &event : _events_buff)` -/
def deliverAll : List Event → WaitProgram κ σ Unit
  | [] => pure ()
  | ev :: evs => do
    deliver ev
    deliverAll evs

/-- `epoll::_wait_events`: the kernel reports a batch of events, or an `errno`. -/
def waitEvents (host : Host κ σ) (epfd : FileDescriptor) :
    Except ℤ (List Event) → WaitProgram κ σ Unit
  | .ok batch => do
    setErrno host 0
    poll batch
    deliverAll batch
  | .error errno => do
    setErrno host errno
    if errno = EINTR then pure () else throw (.io ⟨"epoll wait error", epfd, errno⟩)

end Epoll

namespace Bus

/-- Dispatch events one after the other, up to the first exception. -/
def dispatchAll (host : Host κ σ) (errorCallback : ErrorCallback κ σ) (note : Event → Entry κ) :
    List Event → Bus κ σ → Except Exception Unit × Bus κ σ
  | [], s => (.ok (), s)
  | ev :: evs, s =>
    match (s.log (note ev)).dispatch host errorCallback ev with
    | (.ok (), s) => dispatchAll host errorCallback note evs s
    | (.error e, s) => (.error e, s)

section Loops

variable (host : Host κ σ) (errorCallback : ErrorCallback κ σ)

/-- The loop over the queue. -/
theorem drain_eq (evs : List Event) (s : Bus κ σ) :
    s.drain host errorCallback evs = s.dispatchAll host errorCallback .dispatched evs := by
  induction evs generalizing s with
  | nil => rfl
  | cons ev evs ih =>
    rw [drain, dispatchAll]
    rcases (s.log (.dispatched ev)).dispatch host errorCallback ev with ⟨e | ⟨⟩, t⟩
    · rfl
    · exact ih t

/-- The loop over a batch. -/
theorem native_deliverAll (evs : List Event) (s : Bus κ σ) :
    s.native host errorCallback (Epoll.deliverAll evs) =
      s.dispatchAll host errorCallback .delivered evs := by
  induction evs generalizing s with
  | nil => rfl
  | cons ev evs ih =>
    simp only [native, Epoll.deliverAll, Epoll.deliver, Program.exec_bind, Program.exec_lift,
      Program.andThen_ok, performWait]
    rw [dispatchAll]
    rcases (s.log (.delivered ev)).dispatch host errorCallback ev with ⟨e | ⟨⟩, t⟩
    · rfl
    · exact ih t

/-- **The native phase** with a batch. -/
theorem native_batch (epfd : FileDescriptor) (batch : List Event) (s : Bus κ σ) :
    s.native host errorCallback (Epoll.waitEvents host epfd (.ok batch)) =
      ((s.setErrno host 0).log (.polled batch)).dispatchAll host errorCallback .delivered batch :=
  native_deliverAll host errorCallback batch _

/-- **The native phase** without one. -/
theorem native_errno (epfd : FileDescriptor) (errno : ℤ) (s : Bus κ σ) :
    s.native host errorCallback (Epoll.waitEvents host epfd (.error errno)) =
      (if errno = EINTR then .ok () else .error (.io ⟨"epoll wait error", epfd, errno⟩),
        s.setErrno host errno) := by
  simp only [native, Epoll.waitEvents, Epoll.setErrno, Program.exec_bind, Program.exec_lift,
    Program.andThen_ok]
  split
  · rfl
  · rfl

end Loops

end Bus

end Io
end PsqlTcpProxy
