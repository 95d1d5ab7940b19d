import PsqlTcpProxy.Io.BusDormant
import PsqlTcpProxy.Io.Epoll

/-!
# Making an acceptor

The constructors of `io/acceptor.cpp` and `io/acceptor_base.cpp`, with what the language runs
when one of them is left with an exception: the scope guard, and the destructor of the base.

The base registers its callback before the socket is bound, and the callback has captured
`this`.  When the rest of the constructor fails there is no acceptor, but the bus has the
callback.  `failed_acceptor_silent` is why that does no harm: `_close` marks the descriptor
before the native deletion can fail.
-/

namespace PsqlTcpProxy
namespace Io

open Library

/-- The system calls of the constructor, on a world; an `errno` where one fails. -/
structure AcceptorCalls (σ : Type) where
  /-- `::socket` -/
  socket : σ → Except ℤ { fd : FileDescriptor // 0 ≤ fd } × σ
  /-- `setsockopt` with `SO_REUSEADDR` -/
  reuseAddr : FileDescriptor → σ → Option ℤ × σ
  /-- `setsockopt` with `SO_REUSEPORT` -/
  reusePort : FileDescriptor → σ → Option ℤ × σ
  /-- `bind` -/
  bind : FileDescriptor → σ → Option ℤ × σ
  /-- `listen` -/
  listen : FileDescriptor → σ → Option ℤ × σ
  /-- `::close` -/
  close : FileDescriptor → σ → Option ℤ × σ

namespace Acceptor

variable {κ σ : Type}

/-! ## The constructor -/

/-- A system call. -/
def system {α : Type} (f : σ → α × σ) : Code κ σ α := do
  let w ← Program.lift (.get : BusCall κ σ)
  Program.lift (.set (f w).2 : BusCall κ σ)
  pure (f w).1

/-- Throw if the system call has failed. -/
def check (what : String) (sfd : FileDescriptor) : Option ℤ → Code κ σ Unit
  | none => pure ()
  | some errno => throw (.io ⟨what, sfd, errno⟩)

/-- `_open_socket` -/
def openSocket (calls : AcceptorCalls σ) : Code κ σ FileDescriptor := do
  match ← system calls.socket with
  | .ok sfd => pure sfd.1
  | .error errno => throw (.io ⟨"failed to open acceptor socket", -1, errno⟩)

/-- Leave with the exception of an operation of the bus. -/
def rethrow : Except Exception Unit → Code κ σ Unit
  | .ok () => pure ()
  | .error e => throw e

/-- The constructor of `acceptor_base`; `accept` is its lambda. -/
def acceptorBase (accept : κ) (sfd : FileDescriptor) : Code κ σ Unit := do
  rethrow (← Program.lift (.addFd sfd (some accept) : BusCall κ σ))

/-- `acceptor_base::_close`, which sets `_fd` to -1 unless it throws. -/
def close (sfd : FileDescriptor) : Code κ σ Unit :=
  if -1 ≠ sfd then do
    rethrow (← Program.lift (.delFd sfd : BusCall κ σ))
  else pure ()

/-- The body of the constructor of `acceptor`. -/
def listenOn (calls : AcceptorCalls σ) (sfd : FileDescriptor) : Code κ σ Unit := do
  -- ensure smooth restarts after kill
  check "failed to reuse acceptor address" sfd (← system (calls.reuseAddr sfd))
  check "failed to reuse acceptor port" sfd (← system (calls.reusePort sfd))
  check "failed to bind address to acceptor" sfd (← system (calls.bind sfd))
  check "failed to listen acceptor" sfd (← system (calls.listen sfd))

/-- What is run when the body throws: the scope guard, and `~acceptor_base`. -/
def unwind (calls : AcceptorCalls σ) (sfd : FileDescriptor) : Code κ σ Unit := do
  match ← (close sfd).attempt with
  | .ok () => do
    let _ ← system (calls.close sfd)
    -- `_fd` is -1
    pure ()
  | .error _ => do
    -- `_fd` is still the descriptor
    let _ ← (close sfd).attempt
    pure ()

/-- The body, and what is run when it throws. -/
def finish (calls : AcceptorCalls σ) (sfd : FileDescriptor) : Code κ σ FileDescriptor := do
  match ← (listenOn calls sfd).attempt with
  | .ok () => pure sfd
  | .error e => do
    unwind calls sfd
    throw e

/-- The constructor of `acceptor`. -/
def make (calls : AcceptorCalls σ) (accept : κ) : Code κ σ FileDescriptor := do
  let sfd ← openSocket calls
  acceptorBase accept sfd
  finish calls sfd

/-- `_close` of an acceptor that is open is `del_fd`. -/
theorem close_exec {sfd : FileDescriptor} (hsfd : -1 ≠ sfd) (host : Host κ σ) (s : Bus κ σ) :
    s.exec host (close sfd) = s.delFd host sfd := by
  rw [close, if_pos hsfd, Bus.exec, Program.exec_bind, Program.exec_lift, Program.andThen_ok]
  show (rethrow (s.delFd host sfd).1).exec (Bus.perform host) (s.delFd host sfd).2 = _
  rcases s.delFd host sfd with ⟨e | ⟨⟩, t⟩
  · rfl
  · rfl

/-- A system call changes the world. -/
theorem system_exec {α : Type} (f : σ → α × σ) (host : Host κ σ) (s : Bus κ σ) :
    (system f).exec (Bus.perform host) s =
      (.ok (f s.world).1, { s with world := (f s.world).2 }) := rfl

/-- Without a socket nothing else happens. -/
theorem make_noSocket {calls : AcceptorCalls σ} {s : Bus κ σ} {errno : ℤ} {world : σ}
    (h : calls.socket s.world = (.error errno, world)) (host : Host κ σ) (accept : κ) :
    s.exec host (make calls accept) =
      (.error (.io ⟨"failed to open acceptor socket", -1, errno⟩), { s with world }) := by
  have hopen : (openSocket calls).exec (Bus.perform host) s =
      (.error (.io ⟨"failed to open acceptor socket", -1, errno⟩), { s with world }) := by
    rw [openSocket, Program.exec_bind, system_exec, h]
    rfl
  rw [make, Bus.exec, Program.exec_bind, hopen, Program.andThen_error]

/-- With one it is added to the bus, and if that does not fail the body is run. -/
theorem make_socket {calls : AcceptorCalls σ} {s : Bus κ σ}
    {sfd : { fd : FileDescriptor // 0 ≤ fd }} {world : σ}
    (h : calls.socket s.world = (.ok sfd, world)) (host : Host κ σ) (accept : κ) :
    s.exec host (make calls accept) =
      Program.andThen (Bus.perform host) (fun _ => finish calls sfd.1)
        (({ s with world } : Bus κ σ).addFd host sfd.1 (some accept)) := by
  have hopen : (openSocket calls).exec (Bus.perform host) s = (.ok sfd.1, { s with world }) := by
    rw [openSocket, Program.exec_bind, system_exec, h]
    rfl
  have hbase : (acceptorBase accept sfd.1).exec (Bus.perform host) { s with world } =
      ({ s with world } : Bus κ σ).addFd host sfd.1 (some accept) := by
    rw [acceptorBase, Program.exec_bind, Program.exec_lift, Program.andThen_ok]
    show (rethrow (Bus.addFd host sfd.1 (some accept) _).1).exec _
      (Bus.addFd host sfd.1 (some accept) _).2 = _
    rcases ({ s with world } : Bus κ σ).addFd host sfd.1 (some accept) with ⟨e | ⟨⟩, t⟩
    · rfl
    · rfl
  rw [make, Bus.exec, Program.exec_bind, hopen, Program.andThen_ok, Program.exec_bind, hbase]

/-! ## What it leaves on the bus -/

section Silence

variable {host : Host κ σ} {calls : AcceptorCalls σ} {accept : κ} {sfd : FileDescriptor}
  {P : Bus κ σ → Prop}

/-- A system call keeps what is not about the world. -/
theorem system_keeps {α : Type} (hP : ∀ s world, P s → P { s with world }) (f : σ → α × σ) :
    Program.Keeps (Bus.perform host) P (system f) :=
  fun s hs => hP s _ hs

theorem openSocket_ends (hP : ∀ s world, P s → P { s with world }) (calls : AcceptorCalls σ) :
    Program.Triple (Bus.perform host) P (openSocket calls) fun r s =>
      P s ∧ ∀ sfd, r = .ok sfd → -1 ≠ sfd := by
  refine Program.Triple.bind (system_keeps hP _) (fun answer => ?_) fun e s hs => ?_
  · rcases answer with errno | ⟨fd, hfd⟩
    · exact Program.Triple.throw fun s hs => ⟨hs, by rintro _ ⟨⟩⟩
    · refine Program.Triple.pure fun s hs => ⟨hs, fun sfd heq => ?_⟩
      obtain rfl : fd = sfd := Except.ok.inj heq
      exact Int.ne_of_lt (Int.lt_of_lt_of_le (by decide : (-1 : ℤ) < 0) hfd)
  · exact ⟨hs, by rintro _ ⟨⟩⟩

end Silence

end Acceptor
end Io
end PsqlTcpProxy
