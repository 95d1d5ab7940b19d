import PsqlTcpProxy.Proxy.World

/-!
# The proxy server

The callbacks of a proxy server, as code over the bus: the session manager and
`_make_new_session` (`io/session_manager.cpp`, `tcp_proxy/server.cpp`,
`psql_proxy/server.cpp`), the session (`io/session_base.cpp`), the two event
handlers of a channel (`io/channel.cpp`), and what is destroyed with the last
callback of a session (`io/socket.cpp`).  The acceptor, the end of a socket and
`epoll` are those of every server.

The address of the target is left out as well: it only ends up in a message.
-/

namespace PsqlTcpProxy
namespace Proxy

open Library Io Server

variable {η : Type}

/-! ## The end of a session -/

/-- The sockets are destroyed, the target's first. -/
def endSession (cfg : Config η) (x : Session η) : ProxyCode η Unit := do
  closeConnectionNoexcept cfg x.target
  closeConnectionNoexcept cfg x.client

/-- One holder less. -/
def release (cfg : Config η) (sid : SessionId) : ProxyCode η Unit :=
  Server.release (endSession cfg) sid

/-- What goes with a callback. -/
def destroy (cfg : Config η) (callback : Callback) : ProxyCode η Unit :=
  Server.destroy (endSession cfg) callback

/-- `add_fd` with a callback that holds the session. -/
def register (cfg : Config η) (sid : SessionId) (fd : FileDescriptor) (callback : Callback) :
    ProxyCode η Unit :=
  Server.register (endSession cfg) sid fd callback

/-! ## Events of a session -/

/-- `channel::_handle_left_io_event` and `_handle_right_io_event` as callbacks: run
the handler, note what it did, enqueue its events. -/
def channelEvent (cfg : Config η) (sid : SessionId) (dir : Direction)
    (handle : Channel η → Answer → ℤ → Option (Outcome η)) : ProxyCode η Unit := do
  let answer ← ask cfg
  let w ← world
  match w.sessions sid with
  | none => pure ()
  | some x =>
    match handle (x.flow dir).channel answer w.errno with
    | none => pure ()
    | some o =>
      setWorld { w.setSession sid (x.setFlow dir ((x.flow dir).after o)) with
        errno := handlerErrno (x.flow dir).channel answer w.errno o }
      enqueueAll o.events
      match o.thrown with
      | some e => throw e
      | none => pure ()

/-- The left callback of a channel. -/
def leftEvent (cfg : Config η) (sid : SessionId) (dir : Direction) (fd : FileDescriptor)
    (mask : Flags) : ProxyCode η Unit :=
  channelEvent cfg sid dir fun c answer errno =>
    c.handleLeftIoEvent fd mask (asyncReadSome c.left errno answer.recv) fun offered =>
      asyncWriteSome c.right (readErrno c answer errno) (answer.send offered)

/-- The right callback of a channel. -/
def rightEvent (cfg : Config η) (sid : SessionId) (dir : Direction) (fd : FileDescriptor)
    (mask : Flags) : ProxyCode η Unit :=
  channelEvent cfg sid dir fun c answer errno =>
    c.handleRightIoEvent fd mask fun offered => asyncWriteSome c.right errno (answer.send offered)

/-- The lambda of `session_base::start`. -/
def sessionEvent (sid : SessionId) (mask : Flags) : ProxyCode η Unit := do
  let w ← world
  match w.sessions sid with
  | none => pure ()
  | some x =>
    if mask.test Flags.error then do
      delFdCallbacks x.client
      delFdCallbacks x.target
    else pure ()

/-! ## Making a session -/

/-- The loop of `_open_socket` over the target's addresses. -/
def openSocket (cfg : Config η) : ℕ → ProxyCode η FileDescriptor
  | 0 => do
    let w ← world
    throw (.io ⟨"failed to connect", -1, w.errno⟩)
  | n + 1 => do
    let answer ← ask cfg
    let w ← world
    match answer.socket w.opened with
    | .error errno => do
      setErrno errno
      openSocket cfg n
    | .ok sockfd =>
      match answer.connect with
      | none => do
        modify fun w =>
          { w with opened := sockfd.1 :: w.opened, calls := w.calls ++ [.opened sockfd.1] }
        pure sockfd.1
      | some errno =>
        if errno = EINPROGRESS then do
          modify fun w =>
            { w with
              opened := sockfd.1 :: w.opened
              errno
              calls := w.calls ++ [.opened sockfd.1] }
          pure sockfd.1
        else do
          -- `::close(sockfd)`, which may fail
          modify fun w =>
            { w with
              opened := if answer.close.isSome then sockfd.1 :: w.opened else w.opened
              errno := answer.close.getD errno
              calls := w.calls ++ [.opened sockfd.1, .closed sockfd.1] }
          openSocket cfg n

/-- Two sockets and two channels, held by the stack. -/
def newSession (cfg : Config η) (client target : FileDescriptor) : ProxyCode η SessionId := do
  let w ← world
  let x : Session η :=
    { client, target
      lr := .start (.make cfg.memory client target [] (cfg.handlerState client))
      rl := .start (.make cfg.memory target client [] (cfg.handlerState client))
      references := 1 }
  setWorld { w.setSession w.nextSession x with nextSession := w.nextSession + 1 }
  pure w.nextSession

/-- `_socket_pipe_lr->add_handler(…)` -/
def addHandlers (cfg : Config η) (sid : SessionId) : ProxyCode η Unit := modify fun w =>
  match w.sessions sid with
  | some x => w.setSession sid { x with
      lr := { x.lr with channel := { x.lr.channel with handlers := cfg.handlers x.client } } }
  | none => w

/-- The constructor of the session and `start`: the callbacks of the two channels,
the input callbacks, and the session's own callbacks. -/
def startSession (cfg : Config η) (sid : SessionId) (client target : FileDescriptor) :
    ProxyCode η Unit := do
  register cfg sid client (.left sid .lr)
  register cfg sid target (.right sid .lr)
  register cfg sid target (.left sid .rl)
  register cfg sid client (.right sid .rl)
  addHandlers cfg sid
  register cfg sid client (.session sid)
  register cfg sid target (.session sid)

/-- `_make_new_session(fd, address)->start()` -/
def makeNewSession (cfg : Config η) (fd : FileDescriptor) : ProxyCode η Unit := do
  match ← (openSocket cfg cfg.addresses).attempt with
  | .error e => do
    -- `from` is destroyed
    closeConnectionNoexcept cfg fd
    throw e
  | .ok target => do
    let sid ← newSession cfg fd target
    let started ← (startSession cfg sid fd target).attempt
    release cfg sid
    rethrow started

/-! ## The server -/

/-- What the callbacks of a proxy server do. -/
def callback (cfg : Config η) : Callback → FileDescriptor → Flags → ProxyCode η Unit
  | .accept, fd, mask => acceptEvent cfg (makeNewSession cfg) fd mask
  | .left sid dir, fd, mask => leftEvent cfg sid dir fd mask
  | .right sid dir, fd, mask => rightEvent cfg sid dir fd mask
  | .session sid, _, mask => sessionEvent sid mask

/-- The proxy server on an `epoll` bus. -/
def host (cfg : Config η) : Host Callback (World η) :=
  Server.host cfg (endSession cfg) (callback cfg)

/-- A server that is listening, while `opened` are the descriptors it has open. -/
def startServer (cfg : Config η) (opened : List FileDescriptor) : ProxyBus η :=
  Server.start cfg opened

/-- `epoll::_wait_events` -/
abbrev epollWaitEvents (cfg : Config η) (polled : Except ℤ (List Event)) :
    WaitCode Callback (World η) :=
  Epoll.waitEvents (host cfg) cfg.epfd polled

/-- `context::run` -/
def runServer (cfg : Config η) (opened : List FileDescriptor)
    (polls : List (Except ℤ (List Event))) : ProxyBus η :=
  (startServer cfg opened).after (host cfg) (Server.runs (host cfg) cfg polls)

end Proxy
end PsqlTcpProxy
