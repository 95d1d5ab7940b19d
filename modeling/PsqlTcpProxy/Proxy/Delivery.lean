import PsqlTcpProxy.Proxy.Lifetime

/-!
# What is delivered before a session is torn down

A session is torn down by an `error` event of one of its sockets: the end of a
stream, a `Terminate` packet and a broken connection all end up as one.  Nobody
looks at the buffers of its channels then.  What the other side has not accepted
yet goes with them, although no write has failed (`end_of_stream_truncates`).

What does hold at every moment of every run, and so at the moment the callbacks of
the session are removed, is that nothing but the buffer is lost
(`delivered_at_removal`): the other side has accepted all that was read except
what the buffer holds, and everything if it has kept up.
-/

namespace PsqlTcpProxy
namespace Proxy

open Library Io Server

variable {η : Type}

/-! ## A run that truncates a stream -/

/-- A server whose only client sends two bytes and then, when it is read from at
moment `last`, has ended its stream. -/
def hangingUpServer (last : ℕ) (send : ℕ → (offered : List UInt8) → Send offered.length) :
    Config Unit :=
  { reusingServer with
    kernel := fun tick =>
      { recv :=
          if tick = 5 then .received ⟨[1, 2], Nat.le_of_ble_eq_true rfl⟩
          else if tick = last then .received ⟨[], Nat.zero_le _⟩
          else .failed EAGAIN
        send := send tick
        accept := fun opened => if tick = 0 then lowestFree opened else .error EAGAIN
        socket := lowestFree
        connect := none
        epollCtl := none
        shutdown := none
        close := none } }

/-- Its target accepts one byte, and then asks for patience. -/
def truncatingServer : Config Unit :=
  hangingUpServer 10 fun tick offered =>
    if h : tick = 5 ∧ 1 < offered.length + 1 then .sent ⟨1, h.2⟩ else .failed EAGAIN

/-- The client connects, its bytes arrive, its stream ends. -/
def truncatingRun : ProxyBus Unit :=
  runServer truncatingServer [0, 1, 2, 4]
    [.ok [⟨3, Flags.in'⟩], .ok [⟨5, Flags.in'⟩], .ok [⟨5, Flags.in'⟩]]

/-- No write of this server returns an error. -/
theorem truncatingServer_writes (tick : ℕ) {fd : FileDescriptor} (hfd : fd ≠ -1) (errno : ℤ)
    (offered : List UInt8) : ∃ n,
      asyncWriteSome fd errno ((truncatingServer.kernel tick).send offered) = .success n := by
  simp only [truncatingServer, hangingUpServer]
  split
  · exact ⟨_, if_neg hfd⟩
  · exact ⟨0, if_neg hfd⟩

set_option maxRecDepth 4000 in
/-- **The end of a stream truncates it.**  No write returns an error; the end of the
client's stream has been reported, the session's last callback is gone, and the
target has accepted one of the two bytes that were read. -/
theorem end_of_stream_truncates :
    (∀ tick fd errno offered, fd ≠ -1 → ∃ n,
      asyncWriteSome fd errno ((truncatingServer.kernel tick).send offered) = .success n) ∧
    Entry.enqueued ⟨5, Flags.error⟩ ∈ truncatingRun.trace ∧
    (truncatingRun.world.sessions 0).map (fun x => (x.references, x.lr.received, x.lr.accepted)) =
      some (0, [1, 2], [1]) := by
  refine ⟨?_, ?_, ?_⟩
  · intro tick fd errno offered hfd
    exact truncatingServer_writes tick hfd errno offered
  · decide
  · decide

/-! ## What is lost -/

section Flows

variable {cfg : Config η} {sid : SessionId} {dir : Direction} {f : Flow η}

/-- The session is there, and its channel is `f`. -/
def Carries (sid : SessionId) (dir : Direction) (f : Flow η) (s : ProxyBus η) : Prop :=
  ∃ x, s.world.sessions sid = some x ∧ x.flow dir = f

/-- Closing a socket touches no session. -/
theorem closeConnectionNoexcept_carries (fd : FileDescriptor) :
    Stable cfg (Carries sid dir f) (closeConnectionNoexcept cfg fd) := by
  refine Stable.closeConnectionNoexcept (fun _ hs => hs) fun s w hs hsessions _ _ => ?_
  obtain ⟨x, hx, hflow⟩ := hs
  exact ⟨x, (congrFun hsessions sid).trans hx, hflow⟩

/-- Letting go of a session touches no channel. -/
theorem destroy_carries (name : Callback) : Stable cfg (Carries sid dir f) (destroy cfg name) := by
  refine Stable.destroy (fun sid' => ?_) name
  refine release_rule (fun _ hs _ => hs) ?_ fun _ _ _ _ fd _ => closeConnectionNoexcept_carries fd
  rintro s x ⟨y, hy, hflow⟩ hx
  by_cases heq : sid = sid'
  · subst heq
    obtain rfl := Option.some.inj (hx.symm.trans hy)
    refine ⟨_, if_pos rfl, ?_⟩
    cases dir with
    | lr => exact hflow
    | rl => exact hflow
  · exact ⟨y, (if_neg heq).trans hy, hflow⟩

theorem carries_erase {s : ProxyBus η} (h : Carries sid dir f s) (fd : FileDescriptor) :
    Carries sid dir f (s.erase (host cfg) fd) := by
  refine Bus.erase_rule (P := fun _ => Carries sid dir f) (fun _ _ => h) ?_ h
  exact fun callback _ t ht => destroy_carries callback t ht

end Flows

/-- **Nothing but the buffer is lost.**  At every moment of every run, and so when
the callbacks of a session's sockets are removed, whatever ended the session: in
either direction the other side has accepted all that was read, up to what the
buffer of the channel holds.  So it has accepted everything if and only if the
buffer is empty, as it is when every write takes all it is offered and no input
callback throws.  An event reads at most one chunk, and the removal writes
nothing. -/
theorem delivered_at_removal {cfg : Config η} {opened : List FileDescriptor} {s : ProxyBus η}
    (hs : ServerMoment cfg opened s) {sid : SessionId} {x : Session η}
    (hx : s.world.sessions sid = some x) (dir : Direction) :
    (x.flow dir).accepted ++ (x.flow dir).channel.buffer.held = (x.flow dir).received ∧
    ((x.flow dir).accepted = (x.flow dir).received ↔ (x.flow dir).channel.buffer.held = []) ∧
    (cfg.Prompt → (x.flow dir).accepted = (x.flow dir).received) ∧
    (∀ e o, (x.flow dir).channel.handle e = some o → o.received.length ≤ CHUNK_SZ) ∧
    ∀ fd, ∃ x', (s.erase (host cfg) fd).world.sessions sid = some x' ∧
      x'.flow dir = x.flow dir := by
  have hok := hs.lives.world.ok sid x hx
  have hstream := (hok.intact dir).stream
  have hiff : (x.flow dir).accepted = (x.flow dir).received ↔
      (x.flow dir).channel.buffer.held = [] := by
    rw [← hstream]
    exact List.self_eq_append_right
  refine ⟨hstream, hiff, ?_, ?_, ?_⟩
  · exact fun hprompt => hiff.mpr (hok.drained hprompt dir).1
  · exact fun e o ho => Channel.handle_received_le (hok.intact dir).sound ho
  · exact fun fd => carries_erase ⟨x, hx, rfl⟩ fd

/-- The same client, and a target that keeps up. -/
def keepingUpServer : Config Unit :=
  hangingUpServer 8 fun _ offered => .sent (Fin.last offered.length)

theorem keepingUpServer_prompt : keepingUpServer.Prompt := by
  refine ⟨fun _ _ => rfl, ?_⟩
  rintro fd handler ⟨⟩

set_option maxRecDepth 4000 in
/-- The stream that ended is delivered. -/
theorem delivered_at_removal_keepingUp :
    ∃ x, (runServer keepingUpServer [0, 1, 2, 4] [.ok [⟨3, Flags.in'⟩], .ok [⟨5, Flags.in'⟩],
      .ok [⟨5, Flags.in'⟩]]).world.sessions 0 = some x ∧
      x.references = 0 ∧ x.lr.received = [1, 2] ∧ x.lr.accepted = x.lr.received := by
  have hrun : ((runServer keepingUpServer [0, 1, 2, 4] [.ok [⟨3, Flags.in'⟩], .ok [⟨5, Flags.in'⟩],
      .ok [⟨5, Flags.in'⟩]]).world.sessions 0).map (fun x => (x.references, x.lr.received)) =
      some (0, [1, 2]) := by
    decide
  obtain ⟨x, hx, hpair⟩ := Option.map_eq_some_iff.mp hrun
  obtain ⟨-, -, hprompt, -⟩ :=
    delivered_at_removal (moment_runServer keepingUpServer [0, 1, 2, 4] _) hx .lr
  exact ⟨x, hx, congrArg Prod.fst hpair, congrArg Prod.snd hpair, hprompt keepingUpServer_prompt⟩

end Proxy
end PsqlTcpProxy
