import PsqlTcpProxy.Io.ChannelFlow
import PsqlTcpProxy.Io.Server

/-!
# The proxy's world

The sessions of a proxy server (`tcp_proxy/session.hpp`, `psql_proxy/session.hpp`): what its
callbacks read and write besides the bus, the open descriptors and the answers of the kernel,
which every server has.

A session is two sockets and two channels.  It lives as long as somebody holds
it: the callbacks on the bus hold it through `self`, the stack holds it while it
is being made.  `references` counts the holders of its sockets; since each
channel and the session itself hold both sockets, there is one count for both.

`Config` is what does not change.  The same server code serves `tcp_proxy` (no
input callbacks) and `psql_proxy` (one input callback on the channel from client
to target), so the input callbacks are part of it.
-/

namespace PsqlTcpProxy
namespace Proxy

open Library Io

/-- A proxy session. -/
structure Session (η : Type) where
  /-- The descriptor of the client's socket. -/
  client : FileDescriptor
  /-- The descriptor of the target's socket. -/
  target : FileDescriptor
  /-- `_socket_pipe_lr`, with the bytes that have passed it. -/
  lr : Flow η
  /-- `_socket_pipe_rl`, with the bytes that have passed it. -/
  rl : Flow η
  /-- How many hold the sockets. -/
  references : ℕ

namespace Session

variable {η : Type}

/-- `session_base::_fds` -/
def fds (x : Session η) : List FileDescriptor := [x.client, x.target]

/-- A channel. -/
def flow (x : Session η) : Direction → Flow η
  | .lr => x.lr
  | .rl => x.rl

/-- The session with one channel replaced. -/
def setFlow (x : Session η) (dir : Direction) (f : Flow η) : Session η :=
  match dir with
  | .lr => { x with lr := f }
  | .rl => { x with rl := f }

end Session

instance (η : Type) : Held (Session η) := ⟨Session.references, fun n x => { x with references := n }⟩

@[simp] theorem held_references {η : Type} (x : Session η) :
    Held.references x = x.references := rfl

@[simp] theorem held_setReferences {η : Type} (n : ℕ) (x : Session η) :
    Held.setReferences n x = { x with references := n } := rfl

/-- What does not change. -/
structure Config (η : Type) extends ServerConfig where
  /-- The length of the target's address list. -/
  addresses : ℕ
  /-- The input callbacks of the channel from a client, given its descriptor. -/
  handlers : FileDescriptor → List (InputCallback η)
  /-- Their first state. -/
  handlerState : FileDescriptor → η
  /-- What a fresh buffer contains. -/
  memory : ℕ → UInt8

instance (η : Type) : CoeOut (Config η) ServerConfig := ⟨Config.toServerConfig⟩

/-- What the callbacks read and write. -/
abbrev World (η : Type) := Io.World (Session η)

theorem World.retain_of_some {η : Type} {w : World η} {sid : SessionId} {x : Session η}
    (h : w.sessions sid = some x) :
    w.retain sid = w.setSession sid { x with references := x.references + 1 } :=
  Io.World.retain_of_some h

/-- The bus of a proxy. -/
abbrev ProxyBus (η : Type) := Bus Callback (World η)

/-- The code of a callback of a proxy. -/
abbrev ProxyCode (η α : Type) := Code Callback (World η) α

end Proxy
end PsqlTcpProxy
