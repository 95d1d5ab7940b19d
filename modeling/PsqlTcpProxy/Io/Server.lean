import PsqlTcpProxy.Io.Channel
import PsqlTcpProxy.Io.Epoll

/-!
# Servers of sessions

What the echo server and the proxy servers share: the acceptor (`io/acceptor_base.cpp`,
`io/acceptor.cpp`), the end of a socket (`io/socket.cpp`), the holders of a session
(`io/session_base.cpp`), and `epoll` (`io/epoll.cpp`), the native half of the bus; and the
answers of the kernel, which are a parameter.

The servers differ in what a session is.  Here it is any type `ξ` whose holders are counted
(`Held`): a session lives as long as somebody holds it, the callbacks on the bus through `self`,
the stack while it is being made.  `ending` is what is destroyed with the last holder.

What only ends up in a message or in an `io::ip::v4` nobody reads is left out: the address of a
client and everything that is printed.
-/

namespace PsqlTcpProxy
namespace Io

open Library

/-- A session's place in the order of creation. -/
abbrev SessionId := ℕ

/-- The two channels of a session. -/
inductive Direction where
  /-- `_socket_pipe_lr`, from client to server -/
  | lr
  /-- `_socket_pipe_rl`, from server to client -/
  | rl
  deriving DecidableEq

/-- The callbacks registered on the bus. -/
inductive Callback where
  /-- The lambda of `acceptor_base`. -/
  | accept
  /-- `channel::_make_left_socket_callback` -/
  | left (sid : SessionId) (dir : Direction)
  /-- `channel::_make_right_socket_callback` -/
  | right (sid : SessionId) (dir : Direction)
  /-- The lambda of `session_base::start`. -/
  | session (sid : SessionId)
  deriving DecidableEq

/-- The session a callback belongs to, and holds. -/
def Callback.session? : Callback → Option SessionId
  | .accept => none
  | .left sid _ | .right sid _ | .session sid => some sid

/-! ## The kernel -/

/-- A descriptor the kernel may hand out while those of `opened` are open. -/
abbrev NewDescriptor (opened : List FileDescriptor) :=
  { fd : FileDescriptor // 0 ≤ fd ∧ fd ∉ opened }

/-- What a system call that makes a descriptor answers, or its `errno`. -/
abbrev Opened (opened : List FileDescriptor) := Except ℤ (NewDescriptor opened)

/-- The kernel's answers at one moment, whatever it is asked; an `errno` where the
call fails. -/
structure Answer where
  recv : Recv CHUNK_SZ
  send : (offered : List UInt8) → Send offered.length
  accept : (opened : List FileDescriptor) → Opened opened
  socket : (opened : List FileDescriptor) → Opened opened
  connect : Option ℤ
  epollCtl : Option ℤ
  shutdown : Option ℤ
  close : Option ℤ

/-- A system call about a descriptor, as far as a descriptor is made or given back by it, or
fails to be. -/
inductive SysCall where
  /-- `::accept` returned the descriptor. -/
  | accepted (fd : FileDescriptor)
  /-- `::socket` returned it. -/
  | opened (fd : FileDescriptor)
  /-- It was passed to `::close`. -/
  | closed (fd : FileDescriptor)
  /-- `epoll_ctl` or `::shutdown` failed for it. -/
  | failed (fd : FileDescriptor)
  deriving DecidableEq

/-- What does not change. -/
structure ServerConfig where
  /-- The kernel, moment by moment. -/
  kernel : ℕ → Answer
  /-- The acceptor's descriptor. -/
  listener : FileDescriptor
  /-- The epoll descriptor. -/
  epfd : FileDescriptor
  /-- How the bus arranges the descriptors that are to be removed. -/
  layout : Layout (List (Entry Callback)) FileDescriptor := .front

/-! ## The world -/

/-- What the callbacks read and write. -/
structure World (ξ : Type) where
  /-- The moment. -/
  tick : ℕ
  /-- The descriptors that are open. -/
  opened : List FileDescriptor
  /-- The sessions ever made. -/
  sessions : SessionId → Option ξ
  /-- The next session. -/
  nextSession : SessionId
  /-- `errno` -/
  errno : ℤ
  /-- Not in the source: the system calls that were made, in order, for the
  specifications. -/
  calls : List SysCall

/-- A session counts its holders. -/
class Held (ξ : Type) where
  /-- How many hold it. -/
  references : ξ → ℕ
  /-- Another number of them. -/
  setReferences : ℕ → ξ → ξ

open Held (references setReferences)

variable {ξ : Type}

namespace World

/-- The world with a session replaced. -/
def setSession (w : World ξ) (sid : SessionId) (x : ξ) : World ξ :=
  { w with sessions := fun sid' => if sid' = sid then some x else w.sessions sid' }

/-- The world in which one more holds a session. -/
def retain [Held ξ] (w : World ξ) (sid : SessionId) : World ξ :=
  match w.sessions sid with
  | some x => w.setSession sid (setReferences (references x + 1) x)
  | none => w

theorem retain_of_none [Held ξ] {w : World ξ} {sid : SessionId} (h : w.sessions sid = none) :
    w.retain sid = w := by
  simp only [retain, h]

theorem retain_of_some [Held ξ] {w : World ξ} {sid : SessionId} {x : ξ}
    (h : w.sessions sid = some x) :
    w.retain sid = w.setSession sid (setReferences (references x + 1) x) := by
  simp only [retain, h]

end World

/-- The code of a callback of a server. -/
abbrev ServerCode (ξ α : Type) := Code Callback (World ξ) α

namespace Server

/-! ## Operations -/

/-- One operation of the bus. -/
def perform (call : BusCall Callback (World ξ)) : ServerCode ξ call.Res := Program.lift call

/-- The world. -/
def world : ServerCode ξ (World ξ) := perform .get

/-- Replace it. -/
def setWorld (w : World ξ) : ServerCode ξ Unit := perform (.set w)

/-- Change the world. -/
def modify (f : World ξ → World ξ) : ServerCode ξ Unit := do
  let w ← world
  setWorld (f w)

/-- Leave with an exception, if there is one. -/
def rethrow : Except Exception Unit → ServerCode ξ Unit
  | .ok () => pure ()
  | .error e => throw e

/-- `bus::add_fd` -/
def addFd (fd : FileDescriptor) (callback : Callback) : ServerCode ξ Unit := do
  rethrow (← perform (.addFd fd (some callback)))

/-- `bus::del_fd` -/
def delFd (fd : FileDescriptor) : ServerCode ξ Unit := do
  rethrow (← perform (.delFd fd))

/-- `bus::del_fd_callbacks` -/
def delFdCallbacks (fd : FileDescriptor) : ServerCode ξ Unit := perform (.delFdCallbacks fd)

/-- `event_reciever::enqueue_event` -/
def enqueueEvent (ev : Event) : ServerCode ξ Unit := perform (.enqueueEvent ev)

/-- Several of them. -/
def enqueueAll : List Event → ServerCode ξ Unit
  | [] => pure ()
  | ev :: evs => do
    enqueueEvent ev
    enqueueAll evs

/-- The kernel's answers, and on to the next moment. -/
def ask (cfg : ServerConfig) : ServerCode ξ Answer := do
  let w ← world
  setWorld { w with tick := w.tick + 1 }
  pure (cfg.kernel w.tick)

/-- `errno` is set. -/
def setErrno (errno : ℤ) : ServerCode ξ Unit := modify fun w => { w with errno }

/-- A system call about a descriptor has failed. -/
def fail (call : SysCall) (errno : ℤ) : ServerCode ξ Unit := modify fun w =>
  { w with errno, calls := w.calls ++ [call] }

/-! ## Closing -/

/-- `socket::_close_connection` -/
def closeConnection (cfg : ServerConfig) (fd : FileDescriptor) : ServerCode ξ Unit := do
  delFd fd
  let answer ← ask cfg
  match answer.shutdown with
  | some errno => do
    fail (.failed fd) errno
    throw (.io ⟨"failed to shutdown socket fd", fd, errno⟩)
  | none =>
    match answer.close with
    | some errno => do
      fail (.closed fd) errno
      throw (.io ⟨"failed to close socket fd", fd, errno⟩)
    | none => modify fun w =>
      { w with opened := w.opened.filter (· ≠ fd), calls := w.calls ++ [.closed fd] }

/-- `socket::_close_connection_noexcept`, that is, `~socket` -/
def closeConnectionNoexcept (cfg : ServerConfig) (fd : FileDescriptor) : ServerCode ξ Unit := do
  let _ ← (closeConnection cfg fd).attempt
  pure ()

/-! ## The holders of a session -/

section Held

variable [Held ξ] (ending : ξ → ServerCode ξ Unit)

/-- One holder more. -/
def retain (sid : SessionId) : ServerCode ξ Unit := modify fun w => w.retain sid

/-- One holder less.  After the last one the sockets are destroyed. -/
def release (sid : SessionId) : ServerCode ξ Unit := do
  let w ← world
  match w.sessions sid with
  | none => pure ()
  | some x =>
    setWorld (w.setSession sid (setReferences (references x - 1) x))
    if references x = 1 then ending x else pure ()

/-- What goes with a callback. -/
def destroy (callback : Callback) : ServerCode ξ Unit :=
  match callback.session? with
  | some sid => release ending sid
  | none => pure ()

/-- `add_fd` with a callback that holds the session. -/
def register (sid : SessionId) (fd : FileDescriptor) (callback : Callback) :
    ServerCode ξ Unit := do
  retain sid
  match ← (addFd fd callback).attempt with
  | .ok () => pure ()
  | .error e => do
    release ending sid
    throw e

end Held

/-! ## Events of a channel -/

section Errno

variable {η : Type}

/-- `errno` after the read in `_handle_left_io_event`. -/
def readErrno (c : Channel η) (answer : Answer) (errno : ℤ) : ℤ :=
  match (c.buffer.writeAcquire CHUNK_SZ).1 with
  | some _ => recvErrno c.left errno answer.recv
  | none => errno

/-- `errno` after an event handler and the calls it has made. -/
def handlerErrno (c : Channel η) (answer : Answer) (errno : ℤ) (o : Outcome η) : ℤ :=
  let errno := if o.readCall.isSome then recvErrno c.left errno answer.recv else errno
  match o.writeCall with
  | some call => sendErrno c.right errno (answer.send call.offered)
  | none => errno

end Errno

/-! ## The acceptor -/

/-- `acceptor::_accept_new_client` -/
def acceptNewClient (cfg : ServerConfig) (fd : FileDescriptor) (mask : Flags) :
    ServerCode ξ FileDescriptor := do
  let answer ← ask cfg
  let w ← world
  if mask.test Flags.error then throw (.io ⟨"failed to accept", fd, w.errno⟩)
  else
    match answer.accept w.opened with
    | .error errno => do
      setErrno errno
      if inProgress errno then do
        enqueueEvent ⟨fd, Flags.in'⟩
        pure (-1)
      else throw (.io ⟨"failed to accept", cfg.listener, errno⟩)
    | .ok conn => do
      modify fun w =>
        { w with opened := conn.1 :: w.opened, calls := w.calls ++ [.accepted conn.1] }
      -- EPOLLET workaround
      enqueueEvent ⟨fd, Flags.in'⟩
      pure conn.1

/-- The lambda of `acceptor_base`, with the callback of the session manager. -/
def acceptEvent (cfg : ServerConfig) (makeNewSession : FileDescriptor → ServerCode ξ Unit)
    (fd : FileDescriptor) (mask : Flags) : ServerCode ξ Unit := do
  let conn ← acceptNewClient cfg fd mask
  if 0 < conn then makeNewSession conn else pure ()

/-! ## The native half of the bus -/

/-- `epoll_ctl`, as `epoll::_add_fd` and `epoll::_del_fd` call it. -/
def epollCtl (cfg : ServerConfig) (what : String) (fd : FileDescriptor) (w : World ξ) :
    Except Exception Unit × World ξ :=
  match (cfg.kernel w.tick).epollCtl with
  | none => (.ok (), { w with tick := w.tick + 1 })
  | some errno =>
    (.error (.io ⟨what, fd, errno⟩),
      { w with tick := w.tick + 1, errno, calls := w.calls ++ [.failed fd] })

/-- A server on an `epoll` bus. -/
def host [Held ξ] (cfg : ServerConfig) (ending : ξ → ServerCode ξ Unit)
    (callback : Callback → FileDescriptor → Flags → ServerCode ξ Unit) :
    Host Callback (World ξ) where
  nativeAddFd := epollCtl cfg "failed to add file descriptor to epoll"
  nativeDelFd := epollCtl cfg "failed to delete file descriptor from epoll"
  callback
  destroy := destroy ending
  errno w := w.errno
  setErrno errno w := { w with errno }
  layout := cfg.layout

/-! ## Runs -/

/-- A server that is listening, while `opened` are the descriptors it has open. -/
def start (cfg : ServerConfig) (opened : List FileDescriptor) : Bus Callback (World ξ) :=
  { (Bus.start
      { tick := 0, opened := cfg.listener :: opened, sessions := fun _ => none, nextSession := 0,
        errno := 0, calls := [] } : Bus Callback (World ξ)) with
    callbackMap := fun fd => if fd = cfg.listener then some [.accept] else none
    trace := [.added cfg.listener .accept] }

/-- `context::run`: `wait_events` in a loop, with an error callback that only
prints. -/
def runs (host : Host Callback (World ξ)) (cfg : ServerConfig)
    (polls : List (Except ℤ (List Event))) : List (BusInput Callback (World ξ)) :=
  polls.map fun poll =>
    .waitEvents (Epoll.waitEvents host cfg.epfd poll) (some fun _ => pure ())

end Server

end Io
end PsqlTcpProxy
