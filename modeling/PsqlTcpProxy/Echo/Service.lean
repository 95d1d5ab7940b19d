import PsqlTcpProxy.Echo.Server
import PsqlTcpProxy.Io.ServerRules
import PsqlTcpProxy.Proxy.Crossing

/-!
# What the clients of the echo service get back

Every session of an echo server is a run of its two channels: `session_rule` says that what
holds of a new session, and survives the calls of its channels' handlers, holds of every
session at every moment of every run.  With it the statements about `Pair` become
statements about the server.

* `echo_conserves`: a client gets back what it has sent, except for what the two buffers
  hold; in two streams, each in order, that are merged in any way.
* `echo_in_order`: the client's own order is kept while no channel reads bytes with bytes of
  the other one behind it.
  If the kernel takes all it is offered, that is so, and nothing stays behind.

The echo service does reorder.  In `overtaken_run` a client sends two bytes, the first is
read by the one channel and cannot be sent, the second is read and sent by the other one.
-/

namespace PsqlTcpProxy
namespace Echo

open Library Io Server

variable {cfg : Config}

/-! ## The invariant of the sessions -/

/-- The events that the callbacks of a session hand to a channel. -/
inductive Calls (cfg : Config) (c : Channel Unit) : ChannelEvent → Prop
  | left (fd : FileDescriptor) (mask : Flags) (tick : ℕ) (errno errno' : ℤ) :
    Calls cfg c (.left fd mask (asyncReadSome c.left errno (cfg.kernel tick).recv)
      fun offered => asyncWriteSome c.right errno' ((cfg.kernel tick).send offered))
  | right (fd : FileDescriptor) (mask : Flags) (tick : ℕ) (errno : ℤ) :
    Calls cfg c (.right fd mask
      fun offered => asyncWriteSome c.right errno ((cfg.kernel tick).send offered))

/-- What a statement about a session has to survive. -/
structure SessionRule (cfg : Config) (Q : Session → Prop) : Prop where
  /-- A session is made for a client's descriptor. -/
  fresh : ∀ fd, 0 < fd → Q { fd, pair := .start cfg.memory fd, references := 1, history := [] }
  /-- It gets another number of holders. -/
  counted : ∀ x n, Q x → Q { x with references := n }
  /-- A handler of one of its channels has run. -/
  event : ∀ x dir e o, Q x → Calls cfg (x.pair.flow dir).channel e →
    (x.pair.flow dir).channel.handle e = some o →
    Q { x with pair := x.pair.after dir o, history := x.history ++ [(dir, e)] }

/-- It holds of every session. -/
def Everywhere (Q : Session → Prop) (w : World) : Prop :=
  ∀ sid x, w.sessions sid = some x → Q x

theorem Everywhere.setSession {Q : Session → Prop} {w : World} (h : Everywhere Q w)
    (sid : SessionId) {x : Session} (hx : Q x) : Everywhere Q (w.setSession sid x) := by
  intro sid' y hy
  by_cases heq : sid' = sid
  · obtain rfl := Option.some.inj ((if_pos heq).symm.trans hy)
    exact hx
  · exact h sid' y ((if_neg heq).symm.trans hy)

section Code

variable {Q : Session → Prop} {α : Type}

/-- The code keeps it. -/
abbrev Keeps (cfg : Config) (Q : Session → Prop) (code : EchoCode α) : Prop :=
  Stable (host cfg) (fun s => Everywhere Q s.world) code

/-- What changes no session. -/
theorem Everywhere.of_eq {w w' : World} (h : Everywhere Q w) (hsessions : w'.sessions = w.sessions) :
    Everywhere Q w' :=
  fun sid x hx => h sid x ((congrFun hsessions sid).symm.trans hx)

theorem endSession_stable (x : Session) : Keeps cfg Q (endSession cfg x) :=
  Stable.closeConnectionNoexcept (fun _ hs => hs) fun _ _ hs hsessions _ _ => hs.of_eq hsessions

theorem release_stable (hQ : SessionRule cfg Q) (sid : SessionId) :
    Keeps cfg Q (release cfg sid) :=
  Ends.release (fun _ hs _ => hs) (fun _ x hs hx => hs.setSession sid (hQ.counted x _ (hs sid x hx)))
    fun _ x _ _ => endSession_stable x

theorem channelEvent_stable (hQ : SessionRule cfg Q) (sid : SessionId) (dir : Direction)
    {event : Channel Unit → Answer → ℤ → ChannelEvent}
    (hevent : ∀ c tick errno, Calls cfg c (event c (cfg.kernel tick) errno)) :
    Keeps cfg Q (channelEvent cfg sid dir event) := by
  refine Ends.ask (fun _ hs => hs) fun answer hanswer => Bus.WorldStable.get fun w => ?_
  obtain ⟨tick, rfl⟩ := hanswer
  rcases hx : w.sessions sid with _ | x
  · exact Program.Triple.pure fun s hs => hs.1
  · simp only
    rcases ho : (x.pair.flow dir).channel.handle
      (event (x.pair.flow dir).channel (cfg.kernel tick) w.errno) with _ | o
    · exact Program.Triple.pure fun s hs => hs.1
    · refine Program.Triple.bind (R := fun _ s => Everywhere Q s.world) ?_ (fun _ => ?_)
        fun _ _ hs => hs
      · refine Bus.WorldStable.set fun hw => Everywhere.of_eq (hw.setSession sid ?_) rfl
        exact hQ.event x dir _ o (hw sid x hx) (hevent _ tick w.errno) ho
      · refine (Stable.enqueueAll fun ev _ => Bus.WorldStable.enqueueEvent ev).bind fun _ => ?_
        split
        · exact Program.Keeps.throw _
        · exact Program.Keeps.pure ()

theorem register_stable (hQ : SessionRule cfg Q) (sid : SessionId) (fd : FileDescriptor)
    (callback : Callback) : Keeps cfg Q (register cfg sid fd callback) := by
  have hadd : Ends (host cfg) (fun s : EchoBus => Everywhere Q s.world) (addFd fd callback)
      fun r s => (r = .ok () ∧ Everywhere Q s.world) ∨ ∃ e, r = .error e ∧ Everywhere Q s.world :=
    Ends.addFd (fun s w hs _ _ hsessions _ => ⟨hs.of_eq hsessions, hs.of_eq hsessions⟩)
      fun s hs => hs
  refine (Ends.register (fun s hs => ?_) hadd (release_stable hQ sid)).mono (fun _ hs => hs) ?_
  · rcases hx : s.world.sessions sid with _ | x
    · rw [World.retain_of_none hx]
      exact hs
    · rw [World.retain_of_some hx]
      exact hs.setSession sid (hQ.counted x _ (hs sid x hx))
  · rintro r s (⟨-, hs⟩ | ⟨e, -, hs⟩)
    · exact hs
    · exact hs

theorem startSession_stable (hQ : SessionRule cfg Q) (sid : SessionId) (fd : FileDescriptor) :
    Keeps cfg Q (startSession cfg sid fd) :=
  (register_stable hQ sid fd _).bind fun _ => (register_stable hQ sid fd _).bind fun _ =>
    (register_stable hQ sid fd _).bind fun _ => (register_stable hQ sid fd _).bind fun _ =>
      register_stable hQ sid fd _

theorem makeNewSession_stable (hQ : SessionRule cfg Q) {fd : FileDescriptor} (hfd : 0 < fd) :
    Keeps cfg Q (makeNewSession cfg fd) := by
  refine Program.Keeps.bind ?_ fun sid => (startSession_stable hQ sid fd).attempt.bind fun r =>
    (release_stable hQ sid).bind fun _ => Stable.rethrow r
  refine Bus.WorldStable.get fun w => ?_
  refine Program.Triple.bind (R := fun _ s => Everywhere Q s.world) ?_
    (fun _ => Program.Keeps.pure _) fun _ _ hs => hs
  exact Bus.WorldStable.set fun hw => hw.setSession w.nextSession (hQ.fresh fd hfd)

theorem callback_stable (hQ : SessionRule cfg Q) (name : Callback) (fd : FileDescriptor)
    (mask : Flags) : Keeps cfg Q (callback cfg name fd mask) := by
  cases name with
  | accept =>
    refine (Stable.acceptNewClient (fun _ _ hs hsessions _ => hs.of_eq hsessions)
      (Bus.WorldStable.enqueueEvent _) mask).bind fun conn => ?_
    split
    · exact makeNewSession_stable hQ ‹_›
    · exact Program.Keeps.pure ()
  | left sid dir =>
    show Keeps cfg Q (leftEvent cfg sid dir fd mask)
    unfold leftEvent
    exact channelEvent_stable hQ sid dir fun c tick errno => .left fd mask tick errno _
  | right sid dir =>
    show Keeps cfg Q (rightEvent cfg sid dir fd mask)
    unfold rightEvent
    exact channelEvent_stable hQ sid dir fun c tick errno => .right fd mask tick errno
  | session sid =>
    refine Bus.WorldStable.get fun w => ?_
    rcases w.sessions sid with _ | x
    · exact Program.Triple.pure fun s hs => hs.1
    · simp only
      split
      · exact Program.Triple.mono (Bus.WorldStable.delFdCallbacks x.fd) (fun _ hs => hs.1)
          fun _ _ hs => hs
      · exact Program.Triple.pure fun s hs => hs.1

theorem destroy_stable (hQ : SessionRule cfg Q) (name : Callback) :
    Keeps cfg Q (destroy cfg name) :=
  Stable.destroy (release_stable hQ) name

end Code

/-- **The invariant of the sessions.** -/
theorem session_rule {Q : Session → Prop} (hQ : SessionRule cfg Q) {opened : List FileDescriptor}
    {s : EchoBus} (hs : ServerMoment cfg opened s) {sid : SessionId} {x : Session}
    (hx : s.world.sessions sid = some x) : Q x := by
  have hworld : Everywhere Q s.world := by
    refine hs.world (callback_stable hQ) (fun _ => Program.Keeps.pure ()) (destroy_stable hQ)
      (fun _ _ hw => hw) ?_
    rintro sid' y ⟨⟩
  exact hworld sid x hx

/-! ## Sessions as runs of two channels -/

/-- The kernel takes all it is offered. -/
def Config.Prompt (cfg : Config) : Prop :=
  ∀ tick offered, (cfg.kernel tick).send offered = .sent (Fin.last offered.length)

/-- The two channels have come from a new pair by the calls of the session's history. -/
structure Session.Follows (cfg : Config) (x : Session) : Prop where
  run : run Pair.step (Pair.start cfg.memory x.fd) x.history = some x.pair
  positive : 0 < x.fd
  right : ∀ dir, (x.pair.flow dir).channel.right = x.fd
  whole : cfg.Prompt → ∀ e ∈ x.history, e.2.Whole

/-- An open socket passes on what the kernel takes. -/
theorem Calls.whole (hprompt : cfg.Prompt) {c : Channel Unit} (hopen : c.right ≠ -1)
    {e : ChannelEvent} (h : Calls cfg c e) : e.Whole := by
  have hsend : ∀ tick errno offered,
      asyncWriteSome c.right errno ((cfg.kernel tick).send offered) =
        .success (Fin.last offered.length) := by
    intro tick errno offered
    rw [hprompt, asyncWriteSome, if_neg hopen]
  cases h with
  | left fd mask tick errno errno' => exact hsend tick errno'
  | right fd mask tick errno => exact hsend tick errno

/-- A session's channels are in order. -/
theorem Session.Follows.echoes {x : Session} (h : x.Follows cfg) : x.pair.Echoes := by
  obtain ⟨p, hrun, hechoes⟩ :=
    run_total Pair.step_echoes (Pair.echoes_start cfg.memory x.fd) x.history
  obtain rfl := Option.some.inj (h.run.symm.trans hrun)
  exact hechoes

theorem follows_rule (cfg : Config) : SessionRule cfg (Session.Follows cfg) where
  fresh fd hfd := by
    refine ⟨rfl, hfd, fun dir => ?_, by rintro _ _ ⟨⟩⟩
    cases dir <;> rfl
  counted x n h := ⟨h.run, h.positive, h.right, h.whole⟩
  event x dir e o h hcalls ho := by
    refine ⟨?_, h.positive, fun dir' => ?_, fun hprompt => ?_⟩
    · have hstep : x.pair.step (dir, e) = some (x.pair.after dir o) := congrArg (Option.map _) ho
      show Library.run Pair.step (Pair.start cfg.memory x.fd) (x.history ++ [(dir, e)]) = _
      rw [run_append, h.run, Option.bind_some, run_cons, hstep]
      rfl
    · by_cases heq : dir' = dir
      · subst heq
        show ((x.pair.after dir' o).flow dir').channel.right = x.fd
        rw [Pair.after_flow]
        exact (Channel.handle_keeps (h.echoes.intact dir').sound ho).2.trans (h.right dir')
      · show ((x.pair.after dir o).flow dir').channel.right = x.fd
        rw [Pair.after_flow_of_ne x.pair heq]
        exact h.right dir'
    · intro e' he'
      rcases List.mem_append.mp he' with hold | hnew
      · exact h.whole hprompt e' hold
      · rw [List.mem_singleton.mp hnew]
        refine hcalls.whole hprompt ?_
        rw [h.right dir]
        intro hclosed
        have hpositive := h.positive
        rw [hclosed] at hpositive
        exact absurd hpositive (by decide)

/-! ## What the service does -/

section Service

variable {opened : List FileDescriptor} {s : EchoBus} {sid : SessionId} {x : Session}

/-- **Every client gets back what it has sent.**  At every moment of every run, whatever the
kernel answers: each channel of a session has passed on what it has read, up to what its
buffer holds; what the socket has returned and what it has accepted are woven from the
streams of the two channels; so no byte is lost, duplicated or made up. -/
theorem echo_conserves (hs : ServerMoment cfg opened s) (hx : s.world.sessions sid = some x) :
    (∀ dir, (x.pair.flow dir).accepted ++ x.pair.held dir = (x.pair.flow dir).received) ∧
    Woven (fun dir => (x.pair.flow dir).received) x.pair.received ∧
    Woven (fun dir => (x.pair.flow dir).accepted) x.pair.accepted ∧
    (x.pair.accepted : Multiset UInt8) + x.pair.held .lr + x.pair.held .rl = x.pair.received := by
  have hechoes := (session_rule (follows_rule cfg) hs hx).echoes
  exact ⟨fun dir => (hechoes.intact dir).stream, hechoes.received, hechoes.accepted,
    hechoes.conserves⟩

/-- **When the order is kept.**  At every moment of every run: if no channel of a session has
read bytes while the other one held some, what was accepted and what is held is what was
returned, in order.  If the kernel takes all it is offered, that is so, and nothing is held. -/
theorem echo_in_order (hs : ServerMoment cfg opened s) (hx : s.world.sessions sid = some x) :
    (Meets Pair.step Pair.InTurn (Pair.start cfg.memory x.fd) x.history →
      x.pair.accepted ++ x.pair.held .lr ++ x.pair.held .rl = x.pair.received) ∧
    (cfg.Prompt → Meets Pair.step Pair.InTurn (Pair.start cfg.memory x.fd) x.history ∧
      x.pair.accepted = x.pair.received) := by
  have hfollows := session_rule (follows_rule cfg) hs hx
  have hordered : Meets Pair.step Pair.InTurn (Pair.start cfg.memory x.fd) x.history →
      x.pair.accepted ++ x.pair.held .lr ++ x.pair.held .rl = x.pair.received := fun hmeets =>
    (run_invariant Pair.step_ordered (Pair.ordered_start cfg.memory x.fd) hmeets
      hfollows.run).accepted_held
  refine ⟨hordered, fun hprompt => ?_⟩
  have hwhole : Meets Pair.step (fun _ e => e.2.Whole) (Pair.start cfg.memory x.fd) x.history :=
    meets_of_forall _ (hfollows.whole hprompt)
  have hdrained := run_invariant Pair.step_drained (Pair.drained_start cfg.memory x.fd) hwhole
    hfollows.run
  have hturns : Meets Pair.step Pair.InTurn (Pair.start cfg.memory x.fd) x.history :=
    hwhole.imp (Pair.drained_start cfg.memory x.fd) (fun _ _ hp _ => hp.inTurn) Pair.step_drained
  refine ⟨hturns, ?_⟩
  have hstream := hordered hturns
  rw [hdrained.held .lr, hdrained.held .rl, List.append_nil, List.append_nil] at hstream
  exact hstream

end Service

/-! ## A client that is overtaken by itself -/

/-- A server with one client, which sends a byte whenever the left callback of a channel is
called for the first time; `send` are the kernel's answers. -/
def chattingServer (send : ℕ → (offered : List UInt8) → Send offered.length) : Config where
  kernel tick :=
    { recv :=
        if tick = 3 then .received ⟨[1], Nat.le_of_ble_eq_true rfl⟩
        else if tick = 5 then .received ⟨[2], Nat.le_of_ble_eq_true rfl⟩
        else .failed EAGAIN
      send := send tick
      accept := fun opened => if tick = 0 then Proxy.lowestFree opened else .error EAGAIN
      socket := fun _ => .error 24
      connect := none
      epollCtl := none
      shutdown := none
      close := none }
  listener := 3
  epfd := 4
  memory _ := 0

/-- The kernel asks for patience when the first byte is sent. -/
def overtakingServer : Config :=
  chattingServer fun tick _ => if tick = 3 then .failed EAGAIN else .sent (Fin.last _)

/-- The client connects, and its bytes arrive. -/
def chat : List (Except ℤ (List Event)) := [.ok [⟨3, Flags.in'⟩], .ok [⟨5, Flags.in'⟩]]

set_option maxRecDepth 4000 in
/-- **The echo service reorders.**  The second byte is sent before the first one. -/
theorem overtaken_run : ((runServer overtakingServer [0, 1, 2, 4] chat).world.sessions 0).map
    (fun x => (x.pair.received, x.pair.accepted)) = some ([1, 2], [2, 1]) := by
  decide

/-- Nothing is lost in that run. -/
theorem echo_conserves_overtaken :
    ∃ x, (runServer overtakingServer [0, 1, 2, 4] chat).world.sessions 0 = some x ∧
      x.pair.received = [1, 2] ∧
      (x.pair.accepted : Multiset UInt8) + x.pair.held .lr + x.pair.held .rl =
        x.pair.received := by
  obtain ⟨x, hx, hpair⟩ := Option.map_eq_some_iff.mp overtaken_run
  obtain ⟨hreceived, -⟩ := Prod.mk.inj hpair
  obtain ⟨-, -, -, hconserves⟩ :=
    echo_conserves (moment_runServer overtakingServer [0, 1, 2, 4] chat) hx
  exact ⟨x, hx, hreceived, hconserves⟩

/-- The same client, and a kernel that takes all it is offered. -/
def exactServer : Config := chattingServer fun _ offered => .sent (Fin.last offered.length)

set_option maxRecDepth 4000 in
/-- Its bytes come back in order. -/
theorem echo_in_order_exact :
    ∃ x, (runServer exactServer [0, 1, 2, 4] chat).world.sessions 0 = some x ∧
      x.pair.received = [1, 2] ∧ x.pair.accepted = x.pair.received := by
  have hrun : ((runServer exactServer [0, 1, 2, 4] chat).world.sessions 0).map
      (fun x => x.pair.received) = some [1, 2] := by
    decide
  obtain ⟨x, hx, hreceived⟩ := Option.map_eq_some_iff.mp hrun
  obtain ⟨-, hexact⟩ := echo_in_order (moment_runServer exactServer [0, 1, 2, 4] chat) hx
  exact ⟨x, hx, hreceived, (hexact fun _ _ => rfl).2⟩

end Echo
end PsqlTcpProxy
