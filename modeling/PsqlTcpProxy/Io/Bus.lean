import Mathlib.Algebra.Group.Nat.Defs
import PsqlTcpProxy.Io.Event
import PsqlTcpProxy.Library.LiveSet
import PsqlTcpProxy.Library.Program

/-!
# The bus

`io/bus.hpp` and `io/bus.cpp`.  The bus knows its callbacks only by what they
do, so here a callback is a name `κ`, and `Host` says what it does: a `Code`, a
program that calls the bus and reads and writes a world `σ` that the bus does not
look into.  The native half of the bus (`_add_fd`, `_del_fd`, `_wait_events`) is
the host's too.

* `add_fd` during the dispatch of the same descriptor would invalidate the
  iteration in the source; here the dispatch goes on with the callbacks it
  started with.
* The callbacks of a descriptor are destroyed when its entry is erased, and what
  they own goes with them.  `Host.destroy` is that code; a destructor lets no
  exception out.
* A destructor may insert into `_callbacks_to_remove` while the loop that erases
  visits it.  `Host.layout` says where the set puts a new descriptor and how it
  rearranges the others, and the iterator goes on from the descriptor it stands at.
  (The C++ standard does not allow to use the iterator after a rehash; a set of nodes
  does that.)
* An empty `error_callback` throws `std::bad_function_call` when it is called.

`trace` is not in the source: it records what happened, for the specifications.
The time to wait and the size of the event buffer matter only to `_wait_events`
and are left out.
-/

namespace PsqlTcpProxy
namespace Io

open Library

/-- What can be told apart in a run of the bus. -/
inductive Entry (κ : Type) where
  /-- `add_fd` registered a callback. -/
  | added (fd : FileDescriptor) (callback : κ)
  /-- `del_fd` or `del_fd_callbacks` was called. -/
  | marked (fd : FileDescriptor)
  /-- `enqueue_event` was called. -/
  | enqueued (ev : Event)
  /-- The kernel reported a batch of events to `_wait_events`. -/
  | polled (batch : List Event)
  /-- `_wait_events` called back with an event. -/
  | delivered (ev : Event)
  /-- An event was taken from the queue. -/
  | dispatched (ev : Event)
  /-- A callback was called. -/
  | invoked (callback : κ) (ev : Event)
  /-- It returned, or threw. -/
  | returned (callback : κ) (thrown : Option Exception)
  /-- The error callback was called. -/
  | reported (err : Error)
  deriving DecidableEq

/-- `bus` -/
structure Bus (κ σ : Type) where
  /-- `_callback_map` -/
  callbackMap : FileDescriptor → Option (List κ)
  /-- `_callbacks_to_remove`, in the order of its chain -/
  callbacksToRemove : List FileDescriptor
  /-- `_events` -/
  events : List Event
  /-- What the bus does not look into. -/
  world : σ
  /-- What happened, in order. -/
  trace : List (Entry κ)

/-! ## What a callback may do -/

/-- The operations of the bus as seen by a callback, and its access to the world. -/
inductive BusCall (κ σ : Type) where
  | addFd (fd : FileDescriptor) (callback : Option κ)
  | delFdCallbacks (fd : FileDescriptor)
  | delFd (fd : FileDescriptor)
  | enqueueEvent (ev : Event)
  | get
  | set (world : σ)

/-- The answers; `add_fd` and `del_fd` can throw. -/
abbrev BusCall.Res {κ σ : Type} : BusCall κ σ → Type
  | .addFd _ _ | .delFd _ => Except Exception Unit
  | .delFdCallbacks _ | .enqueueEvent _ | .set _ => Unit
  | .get => σ

/-- The code of a callback. -/
abbrev Code (κ σ α : Type) := Program (BusCall κ σ) BusCall.Res Exception α

/-- What `_wait_events` can do besides: see what the kernel reports, and call
back. -/
inductive WaitCall (κ σ : Type) where
  | bus (call : BusCall κ σ)
  | poll (batch : List Event)
  | deliver (ev : Event)

/-- The answers; what the callback of `wait_events` throws reaches
`_wait_events`. -/
abbrev WaitCall.Res {κ σ : Type} : WaitCall κ σ → Type
  | .bus call => call.Res
  | .poll _ => Unit
  | .deliver _ => Except Exception Unit

/-- The code of `_wait_events`. -/
abbrev WaitCode (κ σ : Type) := Program (WaitCall κ σ) WaitCall.Res Exception Unit

/-- `error_callback_t`; `none` is the empty function. -/
abbrev ErrorCallback (κ σ : Type) := Option (Error → Code κ σ Unit)

/-- What the bus is not. -/
structure Host (κ σ : Type) where
  /-- `_add_fd` -/
  nativeAddFd : FileDescriptor → σ → Except Exception Unit × σ
  /-- `_del_fd` -/
  nativeDelFd : FileDescriptor → σ → Except Exception Unit × σ
  /-- The code of a callback. -/
  callback : κ → FileDescriptor → Flags → Code κ σ Unit
  /-- What happens when a callback is destroyed. -/
  destroy : κ → Code κ σ Unit
  /-- `errno` -/
  errno : σ → ℤ
  /-- `errno = …` in `_wait_events` -/
  setErrno : ℤ → σ → σ := fun _ world => world
  /-- How `_callbacks_to_remove` arranges its elements. -/
  layout : Layout (List (Entry κ)) FileDescriptor := .front

namespace Bus

variable {κ σ : Type}

/-- The constructor. -/
def start (world : σ) : Bus κ σ :=
  { callbackMap := fun _ => none, callbacksToRemove := [], events := [], world, trace := [] }

/-- A line of the trace. -/
def log (s : Bus κ σ) (entry : Entry κ) : Bus κ σ := { s with trace := s.trace ++ [entry] }

/-- Another `errno`. -/
def setErrno (host : Host κ σ) (errno : ℤ) (s : Bus κ σ) : Bus κ σ :=
  { s with world := host.setErrno errno s.world }

/-- `_callback_map` with the entry for `fd` replaced. -/
def setCallbacks (s : Bus κ σ) (fd : FileDescriptor) (callbacks : Option (List κ)) : Bus κ σ :=
  { s with callbackMap := fun fd' => if fd' = fd then callbacks else s.callbackMap fd' }

/-- `i->second.push_back(callback)`, for a callback that is not empty -/
def pushBack (s : Bus κ σ) (fd : FileDescriptor) (callbacks : List κ) : Option κ → Bus κ σ
  | some callback => (s.setCallbacks fd (some (callbacks ++ [callback]))).log (.added fd callback)
  | none => s

/-- `add_fd` -/
def addFd (host : Host κ σ) (fd : FileDescriptor) (callback : Option κ) (s : Bus κ σ) :
    Except Exception Unit × Bus κ σ :=
  match s.callbackMap fd with
  | some callbacks => (.ok (), s.pushBack fd callbacks callback)
  | none =>
    let s := s.setCallbacks fd (some [])
    match host.nativeAddFd fd s.world with
    | (.error e, world) => (.error e, { s with world })
    | (.ok (), world) => (.ok (), ({ s with world } : Bus κ σ).pushBack fd [] callback)

/-- `_callbacks_to_remove.insert(fd)` -/
def mark (host : Host κ σ) (fd : FileDescriptor) (s : Bus κ σ) : Bus κ σ :=
  { s with callbacksToRemove := host.layout.insert s.trace s.callbacksToRemove fd }

/-- `del_fd_callbacks` -/
def delFdCallbacks (host : Host κ σ) (fd : FileDescriptor) (s : Bus κ σ) : Bus κ σ :=
  (s.mark host fd).log (.marked fd)

/-- `del_fd` -/
def delFd (host : Host κ σ) (fd : FileDescriptor) (s : Bus κ σ) : Except Exception Unit × Bus κ σ :=
  let s := (s.mark host fd).log (.marked fd)
  let native := host.nativeDelFd fd s.world
  (native.1, { s with world := native.2 })

/-- `_enqueue_event` -/
def enqueueEvent (ev : Event) (s : Bus κ σ) : Bus κ σ :=
  ({ s with events := s.events ++ [ev] } : Bus κ σ).log (.enqueued ev)

/-- The operations. -/
def perform (host : Host κ σ) : (call : BusCall κ σ) → Bus κ σ → call.Res × Bus κ σ
  | .addFd fd callback, s => s.addFd host fd callback
  | .delFdCallbacks fd, s => ((), s.delFdCallbacks host fd)
  | .delFd fd, s => s.delFd host fd
  | .enqueueEvent ev, s => ((), s.enqueueEvent ev)
  | .get, s => (s.world, s)
  | .set world, s => ((), { s with world })

/-- Run the code of a callback. -/
def exec {α : Type} (host : Host κ σ) (code : Code κ σ α) (s : Bus κ σ) :
    Except Exception α × Bus κ σ :=
  Program.exec (perform host) code s

/-! ## Dispatching an event -/

/-- What the `catch` ladder makes of an exception. -/
def asError (fd : FileDescriptor) (errno : ℤ) : Exception → Error
  | .io err => err
  | .std what => ⟨what, fd, errno⟩
  | .unknown => ⟨"unknown io error", fd, errno⟩

/-- `error_callback(reciever, err)` -/
def report (host : Host κ σ) (errorCallback : ErrorCallback κ σ) (err : Error) (s : Bus κ σ) :
    Except Exception Unit × Bus κ σ :=
  match errorCallback with
  | none => (.error (.std "bad_function_call"), s)
  | some callback => (s.log (.reported err)).exec host (callback err)

/-- `callback(reciever, fd, mask)` inside its `try`: the exception it left with,
if any. -/
def invoke (host : Host κ σ) (ev : Event) (callback : κ) (s : Bus κ σ) :
    Option Exception × Bus κ σ :=
  match (s.log (.invoked callback ev)).exec host (host.callback callback ev.fd ev.flags) with
  | (.ok (), s) => (none, s.log (.returned callback none))
  | (.error e, s) => (some e, s.log (.returned callback (some e)))

/-- `for (const auto &callback : i->second)` -/
def runCallbacks (host : Host κ σ) (errorCallback : ErrorCallback κ σ) (ev : Event) :
    List κ → Bus κ σ → Except Exception Unit × Bus κ σ
  | [], s => (.ok (), s)
  | callback :: callbacks, s =>
    if ev.fd ∈ s.callbacksToRemove then runCallbacks host errorCallback ev callbacks s
    else
      match s.invoke host ev callback with
      | (none, s) => runCallbacks host errorCallback ev callbacks s
      | (some e, s) =>
        match s.report host errorCallback (asError ev.fd (host.errno s.world) e) with
        | (.ok (), s) => runCallbacks host errorCallback ev callbacks s
        | (.error e, s) => (.error e, s)

/-- Destroying the callbacks of an erased entry. -/
def destroyAll (host : Host κ σ) : List κ → Bus κ σ → Bus κ σ
  | [], s => s
  | callback :: callbacks, s => destroyAll host callbacks (s.exec host (host.destroy callback)).2

/-- `_callback_map.erase(fd)` -/
def erase (host : Host κ σ) (fd : FileDescriptor) (s : Bus κ σ) : Bus κ σ :=
  match s.callbackMap fd with
  | some callbacks => destroyAll host callbacks (s.setCallbacks fd none)
  | none => s

/-- `for (fd_to_remove : _callbacks_to_remove) _callback_map.erase(fd_to_remove);`, from the
descriptor behind `current` on. -/
def eraseAll (host : Host κ σ) : ℕ → Option FileDescriptor → Bus κ σ → Bus κ σ
  | 0, _, s => s
  | n + 1, current, s =>
    match ahead current s.callbacksToRemove with
    | [] => s
    | fd :: _ => eraseAll host n (some fd) (s.erase host fd)

/-- More passes than that loop makes.  Descriptors have 32 bits, so the set has at most
`2 ^ 32` elements, is inserted into at most as often, and is visited once from one
insertion to the next. -/
def passes (s : Bus κ σ) : ℕ := 2 ^ 64 + s.callbacksToRemove.length

/-- Remove the callbacks of closed connections. -/
def flush (host : Host κ σ) (s : Bus κ σ) : Bus κ σ :=
  { s.eraseAll host s.passes none with callbacksToRemove := [] }

/-- The lambda `cb` of `wait_events`. -/
def dispatch (host : Host κ σ) (errorCallback : ErrorCallback κ σ) (ev : Event) (s : Bus κ σ) :
    Except Exception Unit × Bus κ σ :=
  match s.runCallbacks host errorCallback ev ((s.callbackMap ev.fd).getD []) with
  | (.ok (), s) => (.ok (), s.flush host)
  | (.error e, s) => (.error e, s)

/-! ## `wait_events` -/

/-- What `_wait_events` can do. -/
def performWait (host : Host κ σ) (errorCallback : ErrorCallback κ σ) :
    (call : WaitCall κ σ) → Bus κ σ → call.Res × Bus κ σ
  | .bus call, s => s.perform host call
  | .poll batch, s => ((), s.log (.polled batch))
  | .deliver ev, s => (s.log (.delivered ev)).dispatch host errorCallback ev

/-- `while (!events.empty())`.  An exception takes the local queue with it. -/
def drain (host : Host κ σ) (errorCallback : ErrorCallback κ σ) :
    List Event → Bus κ σ → Except Exception Unit × Bus κ σ
  | [], s => (.ok (), s)
  | ev :: evs, s =>
    match (s.log (.dispatched ev)).dispatch host errorCallback ev with
    | (.ok (), s) => drain host errorCallback evs s
    | (.error e, s) => (.error e, s)

/-- `_wait_events(timeout_msec, events_buf_size, cb)` -/
def native (host : Host κ σ) (errorCallback : ErrorCallback κ σ) (wait : WaitCode κ σ)
    (s : Bus κ σ) : Except Exception Unit × Bus κ σ :=
  wait.exec (performWait host errorCallback) s

/-- The body of the outer `try`. -/
def serve (host : Host κ σ) (errorCallback : ErrorCallback κ σ) (wait : WaitCode κ σ)
    (s : Bus κ σ) : Except Exception Unit × Bus κ σ :=
  match s.native host errorCallback wait with
  | (.ok (), s) => ({ s with events := [] } : Bus κ σ).drain host errorCallback s.events
  | (.error e, s) => (.error e, s)

/-- `wait_events` -/
def waitEvents (host : Host κ σ) (wait : WaitCode κ σ) (errorCallback : ErrorCallback κ σ)
    (s : Bus κ σ) : Except Exception Unit × Bus κ σ :=
  match s.serve host errorCallback wait with
  | (.ok (), s) => (.ok (), s)
  | (.error e, s) => s.report host errorCallback (asError (-1) (host.errno s.world) e)

end Bus

/-! ## Runs -/

/-- What happens to a bus. -/
inductive BusInput (κ σ : Type) where
  /-- Code outside `wait_events` uses the bus. -/
  | code (code : Code κ σ Unit)
  /-- `wait_events` -/
  | waitEvents (wait : WaitCode κ σ) (errorCallback : ErrorCallback κ σ)

namespace Bus

variable {κ σ : Type}

/-- One input. -/
def step (host : Host κ σ) (s : Bus κ σ) : BusInput κ σ → Bus κ σ
  | .code code => (s.exec host code).2
  | .waitEvents wait errorCallback => (s.waitEvents host wait errorCallback).2

/-- A run. -/
def after (host : Host κ σ) (s : Bus κ σ) (inputs : List (BusInput κ σ)) : Bus κ σ :=
  inputs.foldl (step host) s

end Bus

end Io
end PsqlTcpProxy
