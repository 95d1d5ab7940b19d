import PsqlTcpProxy.Io.Acceptor
import PsqlTcpProxy.Proxy.Server

/-!
# Starting a server

The first thing that `main` does with the bus is to make an acceptor
(`tcp_proxy/server.cpp`, `psql_proxy/server.cpp`), and everything said here about runs of a
server is about runs from the state in which there is one, `startServer`.
`startup_all_or_nothing` joins the two: whatever the kernel answers, the constructor returns
and leaves exactly that state, or it throws; and then the socket is closed again, if and only
if it was added to epoll and could be deleted there.
-/

namespace PsqlTcpProxy
namespace Proxy

open Library Io Server

variable {η : Type}

/-- The kernel's answers while the acceptor is made; an `errno` where a call fails. -/
structure Setup where
  socket : (opened : List FileDescriptor) → Opened opened
  epollAdd : Option ℤ
  reuseAddr : Option ℤ
  reusePort : Option ℤ
  bind : Option ℤ
  listen : Option ℤ
  /-- `EPOLL_CTL_DEL`, the first time and the second. -/
  epollDel : ℕ → Option ℤ
  close : Option ℤ

namespace Setup

/-- A call that does nothing but fail or succeed. -/
def answer (failed : Option ℤ) (w : World η) : Option ℤ × World η :=
  (failed, { w with errno := failed.getD w.errno })

/-- The system calls of the constructor. -/
def calls (setup : Setup) : AcceptorCalls (World η) where
  socket w :=
    match setup.socket w.opened with
    | .ok sfd => (.ok ⟨sfd.1, sfd.2.1⟩, { w with opened := sfd.1 :: w.opened })
    | .error errno => (.error errno, { w with errno })
  reuseAddr _ := answer setup.reuseAddr
  reusePort _ := answer setup.reusePort
  bind _ := answer setup.bind
  listen _ := answer setup.listen
  close fd w :=
    match setup.close with
    | none => (none, { w with opened := w.opened.filter (· ≠ fd) })
    | some errno => (some errno, { w with errno })

/-- The proxy server on an `epoll` bus, while the acceptor is made. -/
def host (cfg : Config η) (setup : Setup) : Host Callback (World η) :=
  { Proxy.host cfg with
    nativeAddFd := fun fd w =>
      match setup.epollAdd with
      | none => (.ok (), w)
      | some errno => (.error (.io ⟨"failed to add file descriptor to epoll", fd, errno⟩),
          { w with errno })
    nativeDelFd := fun fd w =>
      match setup.epollDel w.tick with
      | none => (.ok (), { w with tick := w.tick + 1 })
      | some errno => (.error (.io ⟨"failed to delete file descriptor from epoll", fd, errno⟩),
          { w with tick := w.tick + 1, errno }) }

/-- The socket can be bound, and listens. -/
def Listens (setup : Setup) : Prop :=
  setup.reuseAddr = none ∧ setup.reusePort = none ∧ setup.bind = none ∧ setup.listen = none

/-- No call fails. -/
def Succeeds (setup : Setup) (opened : List FileDescriptor) : Prop :=
  (∃ sfd, setup.socket opened = .ok sfd) ∧ setup.epollAdd = none ∧ setup.Listens

/-- There is no socket, or it was added to epoll, is deleted there, and is closed. -/
def CleansUp (setup : Setup) (opened : List FileDescriptor) : Prop :=
  (∃ errno, setup.socket opened = .error errno) ∨
    setup.epollAdd = none ∧ setup.epollDel 0 = none ∧ setup.close = none

end Setup

/-- The process before it has an acceptor. -/
def World.fresh (opened : List FileDescriptor) : World η :=
  { tick := 0, opened, sessions := fun _ => none, nextSession := 0, errno := 0, calls := [] }

/-- The constructor of the acceptor. -/
def makeServer (cfg : Config η) (setup : Setup) (opened : List FileDescriptor) :
    Except Exception FileDescriptor × ProxyBus η :=
  (Bus.start (World.fresh opened)).exec (setup.host cfg) (Acceptor.make setup.calls .accept)

/-! ## The body of the constructor -/

section Body

variable (cfg : Config η) (setup : Setup) {s : ProxyBus η} {sfd : FileDescriptor}

/-- The socket listens. -/
theorem listenOn_ok (s : ProxyBus η) (sfd : FileDescriptor) (h : setup.Listens) :
    s.exec (setup.host cfg) (Acceptor.listenOn setup.calls sfd) = (.ok (), s) := by
  obtain ⟨socket, epollAdd, reuseAddr, reusePort, bind, listen, epollDel, close⟩ := setup
  obtain ⟨rfl, rfl, rfl, rfl⟩ := h
  rfl

/-- It does not. -/
theorem listenOn_error (s : ProxyBus η) (sfd : FileDescriptor) (h : ¬ setup.Listens) : ∃ e errno,
    s.exec (setup.host cfg) (Acceptor.listenOn setup.calls sfd) =
      (.error e, { s with world := { s.world with errno } }) := by
  obtain ⟨socket, epollAdd, reuseAddr, reusePort, bind, listen, epollDel, close⟩ := setup
  rcases reuseAddr with _ | errno
  · rcases reusePort with _ | errno
    · rcases bind with _ | errno
      · rcases listen with _ | errno
        · exact absurd ⟨rfl, rfl, rfl, rfl⟩ h
        · exact ⟨_, errno, rfl⟩
      · exact ⟨_, errno, rfl⟩
    · exact ⟨_, errno, rfl⟩
  · exact ⟨_, errno, rfl⟩

/-- Deleting from epoll closes nothing. -/
theorem delFd_exec (s : ProxyBus η) (sfd : FileDescriptor) :
    (s.delFd (setup.host cfg) sfd).2.world.opened = s.world.opened ∧
      ((s.delFd (setup.host cfg) sfd).1 = .ok () ↔ setup.epollDel s.world.tick = none) := by
  show ((setup.host cfg).nativeDelFd sfd s.world).2.opened = s.world.opened ∧
    (((setup.host cfg).nativeDelFd sfd s.world).1 = .ok () ↔ _)
  rcases hanswer : setup.epollDel s.world.tick with _ | errno
  · simp [Setup.host, hanswer]
  · simp [Setup.host, hanswer]

/-- Closing takes the descriptor from those that are open, if it does not fail. -/
theorem closeCall_opened (sfd : FileDescriptor) (w : World η) :
    (setup.calls.close sfd w).2.opened =
      if setup.close = none then w.opened.filter (· ≠ sfd) else w.opened := by
  rcases hanswer : setup.close with _ | errno
  · simp [Setup.calls, hanswer]
  · simp [Setup.calls, hanswer]

/-- **Unwinding** closes the socket if it is deleted from epoll at the first attempt. -/
theorem unwind_opened (hsfd : -1 ≠ sfd) (htick : s.world.tick = 0) :
    (s.exec (setup.host cfg) (Acceptor.unwind setup.calls sfd)).2.world.opened =
      if setup.epollDel 0 = none ∧ setup.close = none then s.world.opened.filter (· ≠ sfd)
      else s.world.opened := by
  obtain ⟨hopened, hdel⟩ := delFd_exec cfg setup s sfd
  rw [htick] at hdel
  have hclose := Acceptor.close_exec hsfd (setup.host cfg) s
  rw [Acceptor.unwind, Bus.exec, Program.exec_bind, Program.exec_attempt, Program.andThen_ok]
  rw [Bus.exec] at hclose
  rw [hclose]
  rcases hresult : s.delFd (setup.host cfg) sfd with ⟨e | ⟨⟩, t⟩
  · rw [hresult] at hopened hdel
    have hfailed : ¬ (setup.epollDel 0 = none ∧ setup.close = none) := fun hboth => by
      cases hdel.mpr hboth.1
    have hagain : (Program.exec (Bus.perform (setup.host cfg))
        ((Acceptor.close sfd).attempt >>= fun _ => pure ()) t).2.world.opened = t.world.opened := by
      have hsecond := Acceptor.close_exec hsfd (setup.host cfg) t
      rw [Bus.exec] at hsecond
      rw [Program.exec_bind, Program.exec_attempt, hsecond]
      exact (delFd_exec cfg setup t sfd).1
    rw [if_neg hfailed, ← hopened]
    exact hagain
  · rw [hresult] at hopened hdel
    have hfirst : setup.epollDel 0 = none := hdel.mp rfl
    simp only [hfirst, true_and, ← hopened]
    exact closeCall_opened setup sfd t.world

end Body

/-! ## The four ways it can go -/

section Ways

variable (cfg : Config η) (setup : Setup) {opened : List FileDescriptor}

/-- There is no socket. -/
theorem makeServer_noSocket {errno : ℤ} (h : setup.socket opened = .error errno) :
    ∃ e t, makeServer cfg setup opened = (.error e, t) ∧ t.world.opened = opened := by
  have hsocket : setup.calls.socket (World.fresh opened : World η) =
      (.error errno, { (World.fresh opened : World η) with errno }) := by
    simp [Setup.calls, World.fresh, h]
  exact ⟨_, _, Acceptor.make_noSocket hsocket (setup.host cfg) .accept, rfl⟩

variable {sfd : NewDescriptor opened} (h : setup.socket opened = .ok sfd)
include h

/-- There is one, and it is added to the bus. -/
theorem makeServer_socket : makeServer cfg setup opened =
    Program.andThen (Bus.perform (setup.host cfg))
      (fun _ => Acceptor.finish setup.calls sfd.1)
      ((Bus.start (World.fresh (sfd.1 :: opened)) : ProxyBus η).addFd (setup.host cfg) sfd.1
        (some .accept)) := by
  have hsocket : setup.calls.socket (World.fresh opened : World η) =
      (.ok ⟨sfd.1, sfd.2.1⟩, World.fresh (sfd.1 :: opened)) := by
    simp [Setup.calls, World.fresh, h]
  have hmake := Acceptor.make_socket (s := Bus.start (World.fresh opened)) hsocket
    (setup.host cfg) .accept
  exact hmake

/-- It cannot be added to epoll. -/
theorem makeServer_notAdded {errno : ℤ} (hadd : setup.epollAdd = some errno) :
    ∃ e t, makeServer cfg setup opened = (.error e, t) ∧ t.world.opened = sfd.1 :: opened := by
  have hnative : (setup.host cfg).nativeAddFd sfd.1 (World.fresh (sfd.1 :: opened)) =
      (.error (.io ⟨"failed to add file descriptor to epoll", sfd.1, errno⟩),
        { (World.fresh (sfd.1 :: opened) : World η) with errno }) := by
    simp [Setup.host, hadd]
  rw [makeServer_socket cfg setup h, Bus.addFd_of_error _ _ _ rfl hnative]
  exact ⟨_, _, rfl, rfl⟩

/-- It is added, and then the base is made. -/
theorem makeServer_added (hadd : setup.epollAdd = none) : makeServer cfg setup opened =
    (Acceptor.finish setup.calls sfd.1).exec (Bus.perform (setup.host cfg))
      (startServer { cfg with listener := sfd.1 } opened) := by
  have hnative : (setup.host cfg).nativeAddFd sfd.1 (World.fresh (sfd.1 :: opened)) =
      (.ok (), (World.fresh (sfd.1 :: opened) : World η)) := by
    simp [Setup.host, hadd]
  have hentry : (fun fd : FileDescriptor => if fd = sfd.1 then some [Callback.accept]
      else if fd = sfd.1 then some [] else none) =
      fun fd => if fd = sfd.1 then some [.accept] else none := by
    ext fd : 1
    split <;> rfl
  rw [makeServer_socket cfg setup h, Bus.addFd_of_ok _ _ _ rfl hnative, Program.andThen_ok]
  congr 1
  simp only [startServer, Server.start, ← hentry]
  rfl

/-- It listens. -/
theorem makeServer_listens (hadd : setup.epollAdd = none) (hlistens : setup.Listens) :
    makeServer cfg setup opened =
      (.ok sfd.1, startServer { cfg with listener := sfd.1 } opened) := by
  have hbody := listenOn_ok cfg setup (startServer { cfg with listener := sfd.1 } opened) sfd.1
    hlistens
  rw [Bus.exec] at hbody
  rw [makeServer_added cfg setup h hadd, Acceptor.finish, Program.exec_bind, Program.exec_attempt,
    hbody]
  rfl

/-- It does not. -/
theorem makeServer_notListening (hadd : setup.epollAdd = none) (hlistens : ¬ setup.Listens) :
    ∃ e t, makeServer cfg setup opened = (.error e, t) ∧ t.world.opened =
      if setup.epollDel 0 = none ∧ setup.close = none then opened else sfd.1 :: opened := by
  obtain ⟨e, errno, hbody⟩ := listenOn_error cfg setup
    (startServer { cfg with listener := sfd.1 } opened) sfd.1 hlistens
  rw [Bus.exec] at hbody
  rw [makeServer_added cfg setup h hadd, Acceptor.finish, Program.exec_bind, Program.exec_attempt,
    hbody, Program.andThen_ok]
  have hsfd : -1 ≠ sfd.1 := Int.ne_of_lt (Int.lt_of_lt_of_le (by decide : (-1 : ℤ) < 0) sfd.2.1)
  obtain ⟨s, hs⟩ : ∃ s : ProxyBus η, s = { startServer { cfg with listener := sfd.1 } opened with
      world := { (startServer { cfg with listener := sfd.1 } opened).world with errno } } :=
    ⟨_, rfl⟩
  have hopened : s.world.opened = sfd.1 :: opened := by rw [hs]; rfl
  have htick : s.world.tick = 0 := by rw [hs]; rfl
  have hunwound := unwind_opened cfg setup hsfd htick
  have hfilter : (sfd.1 :: opened).filter (· ≠ sfd.1) = opened := by
    rw [List.filter_cons_of_neg (by simp), List.filter_eq_self]
    intro fd hfd
    have hne : fd ≠ sfd.1 := fun heq => sfd.2.2 (heq ▸ hfd)
    simpa using hne
  rw [hopened, hfilter] at hunwound
  rw [← hs]
  obtain ⟨e', hleft⟩ : ∃ e', (Acceptor.unwind setup.calls sfd.1 >>= fun _ =>
      (throw e : ProxyCode η FileDescriptor)).exec (Bus.perform (setup.host cfg)) s =
        (.error e', (s.exec (setup.host cfg) (Acceptor.unwind setup.calls sfd.1)).2) := by
    rw [Program.exec_bind, Bus.exec]
    rcases (Acceptor.unwind setup.calls sfd.1).exec (Bus.perform (setup.host cfg)) s
      with ⟨e' | ⟨⟩, t⟩
    · exact ⟨e', rfl⟩
    · exact ⟨e, rfl⟩
  exact ⟨e', _, hleft, hunwound⟩

end Ways

/-! ## All or nothing -/

/-- What may come of it. -/
structure StartupOutcome (cfg : Config η) (setup : Setup) (opened : List FileDescriptor)
    (result : Except Exception FileDescriptor × ProxyBus η) : Prop where
  /-- The constructor returns if and only if no call fails. -/
  returns : (∃ fd, result.1 = .ok fd) ↔ setup.Succeeds opened
  /-- Then the bus is the one that a server starts from. -/
  started : ∀ fd, result.1 = .ok fd → result.2 = startServer { cfg with listener := fd } opened
  /-- Else the descriptors that are open are those that were, and perhaps the new one. -/
  left : ∀ e, result.1 = .error e → result.2.world.opened = opened ∨
    ∃ sfd, setup.socket opened = .ok sfd ∧ result.2.world.opened = sfd.1 :: opened
  /-- When it is closed. -/
  cleaned : ∀ e, result.1 = .error e → (result.2.world.opened = opened ↔ setup.CleansUp opened)

theorem StartupOutcome.thrown {cfg : Config η} {setup : Setup} {opened : List FileDescriptor}
    {e : Exception} {t : ProxyBus η} (hfails : ¬ setup.Succeeds opened)
    (hopened : t.world.opened = opened ∨
      ∃ sfd, setup.socket opened = .ok sfd ∧ t.world.opened = sfd.1 :: opened)
    (hcleaned : t.world.opened = opened ↔ setup.CleansUp opened) :
    StartupOutcome cfg setup opened (.error e, t) where
  returns := iff_of_false (by rintro ⟨fd, ⟨⟩⟩) hfails
  started := by rintro fd ⟨⟩
  left _ _ := hopened
  cleaned _ _ := hcleaned

/-- **An acceptor is made, or nothing is left of it.**  For all answers of the kernel: the
constructor returns if and only if no call fails, and then the bus is the one that a server
starts from.  When it throws, the descriptors that are open are those that were, and perhaps
the new one; it is closed if and only if it was added to epoll, is deleted there at the first
attempt and is closed. -/
theorem startup_all_or_nothing (cfg : Config η) (setup : Setup) (opened : List FileDescriptor) :
    StartupOutcome cfg setup opened (makeServer cfg setup opened) := by
  rcases hsocket : setup.socket opened with errno | sfd
  · obtain ⟨e, t, hmake, hopened⟩ := makeServer_noSocket cfg setup hsocket
    rw [hmake]
    refine .thrown ?_ (Or.inl hopened) ?_
    · rintro ⟨⟨sfd, hsfd⟩, -⟩
      cases hsocket.symm.trans hsfd
    · exact iff_of_true hopened (Or.inl ⟨errno, hsocket⟩)
  · have hne : sfd.1 :: opened ≠ opened := List.cons_ne_self _ _
    have hcleans : setup.CleansUp opened ↔
        setup.epollAdd = none ∧ setup.epollDel 0 = none ∧ setup.close = none := by
      refine ⟨fun hor => hor.resolve_left ?_, Or.inr⟩
      rintro ⟨errno, herror⟩
      cases hsocket.symm.trans herror
    rcases hadd : setup.epollAdd with _ | errno
    · by_cases hlistens : setup.Listens
      · rw [makeServer_listens cfg setup hsocket hadd hlistens]
        refine ⟨iff_of_true ⟨_, rfl⟩ ⟨⟨sfd, hsocket⟩, hadd, hlistens⟩, ?_, ?_, ?_⟩
        · rintro fd ⟨⟩
          rfl
        · rintro e ⟨⟩
        · rintro e ⟨⟩
      · obtain ⟨e, t, hmake, hopened⟩ :=
          makeServer_notListening cfg setup hsocket hadd hlistens
        rw [hmake]
        refine .thrown (fun h => hlistens h.2.2) ?_ ?_
        · rw [hopened]
          split
          · exact Or.inl rfl
          · exact Or.inr ⟨sfd, hsocket, rfl⟩
        · rw [hopened, hcleans]
          split
          · rename_i hboth
            exact iff_of_true rfl ⟨hadd, hboth⟩
          · rename_i hboth
            exact iff_of_false hne fun h => hboth h.2
    · obtain ⟨e, t, hmake, hopened⟩ := makeServer_notAdded cfg setup hsocket hadd
      rw [hmake]
      refine .thrown (fun h => ?_) (Or.inr ⟨sfd, hsocket, hopened⟩) ?_
      · cases hadd.symm.trans h.2.1
      · rw [hopened]
        refine iff_of_false hne fun h => ?_
        cases hadd.symm.trans (hcleans.mp h).1

/-- The port is taken, and the socket is deleted from epoll at the second attempt only. -/
example (cfg : Config η) :
    (makeServer cfg
      { socket := fun opened => if h : 3 ∉ opened then .ok ⟨3, by decide, h⟩ else .error 24
        epollAdd := none
        reuseAddr := none
        reusePort := none
        bind := some 98
        listen := none
        epollDel := fun n => if n = 0 then some 9 else none
        close := none } [0, 1, 2]).2.world.opened = [3, 0, 1, 2] := rfl

end Proxy
end PsqlTcpProxy
