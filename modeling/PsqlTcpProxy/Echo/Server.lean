import PsqlTcpProxy.Echo.Pair
import PsqlTcpProxy.Io.BusWorld

/-!
# The echo server

`echo/server.cpp` and `echo/session.cpp` on the classes they share with the proxies: the
session manager, the session (`io/session_base.cpp`) and the channels (`io/channel.cpp`).  The
acceptor and the end of a socket are those of every server.

The callbacks of a session are all registered for the one descriptor it has, in the order in
which the constructor and `start` register them: the left and the right callback of
`_socket_pipe_lr`, the same of `_socket_pipe_rl`, and the session's own.  An event of the
socket calls them one after the other.

`references` counts the holders of the socket.
-/

namespace PsqlTcpProxy
namespace Echo

open Library Io Server

/-- `echo::session` -/
structure Session where
  /-- The descriptor of the client's socket, the only one of `_fds`. -/
  fd : FileDescriptor
  /-- `_socket_pipe_lr` and `_socket_pipe_rl` -/
  pair : Pair
  /-- How many hold the socket. -/
  references : ℕ
  /-- Not in the source: the calls of the channels' handlers, in order. -/
  history : List (Direction × ChannelEvent)

instance : Held Session := ⟨Session.references, fun n x => { x with references := n }⟩

/-- What does not change. -/
structure Config extends ServerConfig where
  /-- What a fresh buffer contains. -/
  memory : ℕ → UInt8

instance : CoeOut Config ServerConfig := ⟨Config.toServerConfig⟩

/-- What the callbacks read and write. -/
abbrev World := Io.World Session

/-- The bus of an echo server. -/
abbrev EchoBus := Bus Callback World

/-- The code of a callback. -/
abbrev EchoCode (α : Type) := Code Callback World α

/-! ## The end of a session -/

/-- The socket is destroyed. -/
def endSession (cfg : Config) (x : Session) : EchoCode Unit := closeConnectionNoexcept cfg x.fd

/-- One holder less. -/
def release (cfg : Config) (sid : SessionId) : EchoCode Unit :=
  Server.release (endSession cfg) sid

/-- What goes with a callback. -/
def destroy (cfg : Config) (callback : Callback) : EchoCode Unit :=
  Server.destroy (endSession cfg) callback

/-- `add_fd` with a callback that holds the session. -/
def register (cfg : Config) (sid : SessionId) (fd : FileDescriptor) (callback : Callback) :
    EchoCode Unit :=
  Server.register (endSession cfg) sid fd callback

/-! ## Events of a session -/

/-- A handler of a channel as a callback: run it, note what it did, enqueue its events. -/
def channelEvent (cfg : Config) (sid : SessionId) (dir : Direction)
    (event : Channel Unit → Answer → ℤ → ChannelEvent) : EchoCode Unit := do
  let answer ← ask cfg
  let w ← world
  match w.sessions sid with
  | none => pure ()
  | some x =>
    let c := (x.pair.flow dir).channel
    match c.handle (event c answer w.errno) with
    | none => pure ()
    | some o =>
      let x : Session := { x with
        pair := x.pair.after dir o
        history := x.history ++ [(dir, event c answer w.errno)] }
      setWorld { w.setSession sid x with errno := handlerErrno c answer w.errno o }
      enqueueAll o.events
      match o.thrown with
      | some e => throw e
      | none => pure ()

/-- The left callback of a channel. -/
def leftEvent (cfg : Config) (sid : SessionId) (dir : Direction) (fd : FileDescriptor)
    (mask : Flags) : EchoCode Unit :=
  channelEvent cfg sid dir fun c answer errno =>
    .left fd mask (asyncReadSome c.left errno answer.recv) fun offered =>
      asyncWriteSome c.right (readErrno c answer errno) (answer.send offered)

/-- The right callback of a channel. -/
def rightEvent (cfg : Config) (sid : SessionId) (dir : Direction) (fd : FileDescriptor)
    (mask : Flags) : EchoCode Unit :=
  channelEvent cfg sid dir fun c answer errno =>
    .right fd mask fun offered => asyncWriteSome c.right errno (answer.send offered)

/-- The lambda of `session_base::start`. -/
def sessionEvent (sid : SessionId) (mask : Flags) : EchoCode Unit := do
  let w ← world
  match w.sessions sid with
  | none => pure ()
  | some x => if mask.test Flags.error then delFdCallbacks x.fd else pure ()

/-! ## Making a session -/

/-- A socket and two channels, held by the stack. -/
def newSession (cfg : Config) (fd : FileDescriptor) : EchoCode SessionId := do
  let w ← world
  let x : Session := { fd, pair := .start cfg.memory fd, references := 1, history := [] }
  setWorld { w.setSession w.nextSession x with nextSession := w.nextSession + 1 }
  pure w.nextSession

/-- The constructor of the session and `start`. -/
def startSession (cfg : Config) (sid : SessionId) (fd : FileDescriptor) : EchoCode Unit := do
  register cfg sid fd (.left sid .lr)
  register cfg sid fd (.right sid .lr)
  register cfg sid fd (.left sid .rl)
  register cfg sid fd (.right sid .rl)
  register cfg sid fd (.session sid)

/-- `_make_new_session(fd, address)->start()` -/
def makeNewSession (cfg : Config) (fd : FileDescriptor) : EchoCode Unit := do
  let sid ← newSession cfg fd
  let started ← (startSession cfg sid fd).attempt
  release cfg sid
  rethrow started

/-! ## The server -/

/-- What the callbacks of an echo server do. -/
def callback (cfg : Config) : Callback → FileDescriptor → Flags → EchoCode Unit
  | .accept, fd, mask => acceptEvent cfg (makeNewSession cfg) fd mask
  | .left sid dir, fd, mask => leftEvent cfg sid dir fd mask
  | .right sid dir, fd, mask => rightEvent cfg sid dir fd mask
  | .session sid, _, mask => sessionEvent sid mask

/-- The echo server on an `epoll` bus. -/
def host (cfg : Config) : Host Callback World := Server.host cfg (endSession cfg) (callback cfg)

/-- A server that is listening, while `opened` are the descriptors it has open. -/
def startServer (cfg : Config) (opened : List FileDescriptor) : EchoBus :=
  Server.start cfg opened

/-- `context::run` -/
def runServer (cfg : Config) (opened : List FileDescriptor)
    (polls : List (Except ℤ (List Event))) : EchoBus :=
  (startServer cfg opened).after (host cfg) (Server.runs (host cfg) cfg polls)

/-- The states of a run in which no callback is running. -/
abbrev ServerMoment (cfg : Config) (opened : List FileDescriptor) (s : EchoBus) : Prop :=
  Bus.Moment (host cfg) (fun _ => pure ()) (startServer cfg opened) s

theorem moment_runServer (cfg : Config) (opened : List FileDescriptor)
    (polls : List (Except ℤ (List Event))) : ServerMoment cfg opened (runServer cfg opened polls) :=
  Bus.Moment.start.after cfg.epfd polls

end Echo
end PsqlTcpProxy
