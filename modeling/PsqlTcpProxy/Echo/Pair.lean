import PsqlTcpProxy.Io.ChannelPrompt
import PsqlTcpProxy.Io.Server
import PsqlTcpProxy.Library.Weaving

/-!
# Two channels over one socket

A session of the echo service has one socket and two channels, and both channels read from
that socket and write to it.  What the client sends is split between the two, in whatever way
their callbacks come to read it, and what the client gets back is merged from them.

Each channel keeps its stream intact.  What follows for the socket is stated with `Woven`:

* `Echoes`: what the socket has returned and what it has accepted are woven from the streams
  of the two channels, whatever the events.  So what was accepted, with what the two buffers
  hold, is what was returned, up to the order (`Echoes.conserves`).
* `Ordered`: the order is kept too.  An event keeps this as long as it does not make a channel
  read bytes while the other one holds some (`InTurn`, `step_ordered`).
* `Drained`: both buffers are empty.  Writes that take all they are offered keep this.
-/

namespace PsqlTcpProxy

namespace Io
namespace Direction

instance : Fintype Direction where
  elems := {.lr, .rl}
  complete dir := by cases dir <;> decide

/-- The other channel. -/
def other : Direction → Direction
  | .lr => .rl
  | .rl => .lr

@[simp] theorem other_other (dir : Direction) : dir.other.other = dir := by
  cases dir <;> rfl

theorem other_ne (dir : Direction) : dir.other ≠ dir := by
  cases dir <;> decide

theorem eq_or_other (dir dir' : Direction) : dir' = dir ∨ dir' = dir.other := by
  cases dir <;> cases dir' <;> decide

end Direction
end Io

namespace Echo

open Library Io

/-- The channels of a session, and the bytes that have passed its socket. -/
structure Pair where
  /-- `_socket_pipe_lr` -/
  lr : Flow Unit
  /-- `_socket_pipe_rl` -/
  rl : Flow Unit
  /-- The bytes the socket has returned, to either channel. -/
  received : List UInt8
  /-- The bytes it has accepted, from either channel. -/
  accepted : List UInt8

namespace Pair

/-- Both channels between the socket and itself, and nothing has passed. -/
def start (data : ℕ → UInt8) (fd : FileDescriptor) : Pair :=
  { lr := .start (.make data fd fd [] ()), rl := .start (.make data fd fd [] ()), received := [],
    accepted := [] }

/-- A channel. -/
def flow (p : Pair) : Direction → Flow Unit
  | .lr => p.lr
  | .rl => p.rl

/-- What a channel's buffer holds. -/
def held (p : Pair) (dir : Direction) : List UInt8 := (p.flow dir).channel.buffer.held

/-- A handler of a channel has run. -/
def after (p : Pair) (dir : Direction) (o : Outcome Unit) : Pair :=
  { lr := match dir with
      | .lr => p.lr.after o
      | .rl => p.lr
    rl := match dir with
      | .lr => p.rl
      | .rl => p.rl.after o
    received := p.received ++ o.received
    accepted := p.accepted ++ o.sent }

/-- One event of a channel.  `none` is a failed assertion. -/
def step (p : Pair) (e : Direction × ChannelEvent) : Option Pair :=
  ((p.flow e.1).channel.handle e.2).map (p.after e.1)

theorem after_flow (p : Pair) (dir : Direction) (o : Outcome Unit) :
    (p.after dir o).flow dir = (p.flow dir).after o := by
  cases dir <;> rfl

theorem after_flow_of_ne (p : Pair) {dir dir' : Direction} (h : dir' ≠ dir) (o : Outcome Unit) :
    (p.after dir o).flow dir' = p.flow dir' := by
  cases dir <;> cases dir' <;> first | rfl | exact absurd rfl h

/-! ## What every event keeps -/

/-- Each channel's stream is intact, and the socket's are woven from the channels'. -/
structure Echoes (p : Pair) : Prop where
  intact : ∀ dir, (p.flow dir).Intact
  handlers : ∀ dir, (p.flow dir).channel.handlers = []
  received : Woven (fun dir => (p.flow dir).received) p.received
  accepted : Woven (fun dir => (p.flow dir).accepted) p.accepted

theorem echoes_start (data : ℕ → UInt8) (fd : FileDescriptor) : (start data fd).Echoes := by
  have hflow : ∀ dir, (start data fd).flow dir = .start (.make data fd fd [] ()) := by
    intro dir
    cases dir <;> rfl
  refine ⟨fun dir => ?_, fun dir => ?_, ?_, ?_⟩
  · rw [hflow]
    exact Flow.intact_start data fd fd [] ()
  · rw [hflow]
    rfl
  · simp only [hflow]
    exact Woven.nil
  · simp only [hflow]
    exact Woven.nil

/-- What an event did, in terms of the buffer it moved bytes through. -/
theorem Echoes.handle {p : Pair} (h : p.Echoes) (e : Direction × ChannelEvent) :
    ∃ o, (p.flow e.1).channel.handle e.2 = some o ∧ p.step e = some (p.after e.1 o) ∧
      (p.after e.1 o).Echoes ∧
      p.held e.1 ++ o.received = o.sent ++ o.channel.buffer.held := by
  obtain ⟨dir, e⟩ := e
  obtain ⟨o, ho, hsound, hheld⟩ := Channel.handle_correct (h.intact dir).sound e
  refine ⟨o, ho, congrArg (Option.map _) ho, ⟨fun dir' => ?_, fun dir' => ?_, ?_, ?_⟩, hheld⟩
  · by_cases heq : dir' = dir
    · subst heq
      rw [after_flow]
      exact (h.intact dir').after hsound hheld
    · rw [after_flow_of_ne p heq]
      exact h.intact dir'
  · by_cases heq : dir' = dir
    · subst heq
      rw [after_flow]
      exact (Channel.handle_handlers ho).trans (h.handlers dir')
    · rw [after_flow_of_ne p heq]
      exact h.handlers dir'
  · refine h.received.append (i := dir) ?_ fun dir' heq => ?_
    · rw [after_flow]
      rfl
    · rw [after_flow_of_ne p heq]
  · refine h.accepted.append (i := dir) ?_ fun dir' heq => ?_
    · rw [after_flow]
      rfl
    · rw [after_flow_of_ne p heq]

theorem step_echoes (p : Pair) (e : Direction × ChannelEvent) (h : p.Echoes) :
    ∃ q, p.step e = some q ∧ q.Echoes := by
  obtain ⟨o, -, hstep, hnext, -⟩ := h.handle e
  exact ⟨p.after e.1 o, hstep, hnext⟩

/-- **Nothing is lost, duplicated or made up**, as far as the whole socket is concerned. -/
theorem Echoes.conserves {p : Pair} (h : p.Echoes) :
    (p.accepted : Multiset UInt8) + p.held .lr + p.held .rl = p.received := by
  have hflow : ∀ dir, ((p.flow dir).accepted : Multiset UInt8) + p.held dir =
      (p.flow dir).received := by
    intro dir
    rw [Multiset.coe_add]
    exact congrArg _ (h.intact dir).stream
  have huniv : (Finset.univ : Finset Direction) = {.lr, .rl} := rfl
  rw [h.accepted.sum, h.received.sum, huniv, Finset.sum_pair (by decide),
    Finset.sum_pair (by decide), ← hflow .lr, ← hflow .rl, add_assoc (_ + _), add_add_add_comm]

/-! ## Order -/

/-- A channel reads bytes only while the other one holds none. -/
def InTurn (p : Pair) (e : Direction × ChannelEvent) : Prop :=
  ∀ o, (p.flow e.1).channel.handle e.2 = some o → o.received = [] ∨ p.held e.1.other = []

/-- At most one channel holds bytes, and they follow what was accepted. -/
structure Ordered (p : Pair) : Prop where
  echoes : p.Echoes
  stream : ∃ dir, p.held dir.other = [] ∧ p.accepted ++ p.held dir = p.received

theorem Ordered.accepted_held {p : Pair} (h : p.Ordered) :
    p.accepted ++ p.held .lr ++ p.held .rl = p.received := by
  obtain ⟨dir, hother, hstream⟩ := h.stream
  cases dir with
  | lr =>
    have hrl : p.held .rl = [] := hother
    rw [hrl, List.append_nil, hstream]
  | rl =>
    have hlr : p.held .lr = [] := hother
    rw [hlr, List.append_nil, hstream]

/-- An event of the one channel that may hold bytes. -/
theorem Ordered.of_other {p q : Pair} {e : Direction × ChannelEvent} (h : p.Echoes)
    (hother : p.held e.1.other = []) (hstream : p.accepted ++ p.held e.1 = p.received)
    (hstep : p.step e = some q) : q.Ordered := by
  obtain ⟨o, -, ho, hechoes, hheld⟩ := h.handle e
  obtain rfl := Option.some.inj (ho.symm.trans hstep)
  refine ⟨hechoes, e.1, ?_, ?_⟩
  · rw [held, after_flow_of_ne p e.1.other_ne]
    exact hother
  · rw [held, after_flow]
    calc p.accepted ++ o.sent ++ o.channel.buffer.held
        = p.accepted ++ (o.sent ++ o.channel.buffer.held) := List.append_assoc _ _ _
      _ = p.accepted ++ (p.held e.1 ++ o.received) := by rw [hheld]
      _ = p.accepted ++ p.held e.1 ++ o.received := (List.append_assoc _ _ _).symm
      _ = p.received ++ o.received := by rw [hstream]

/-- **An event in turn keeps the order.** -/
theorem step_ordered (p : Pair) (e : Direction × ChannelEvent) (q : Pair) (h : p.Ordered)
    (hturn : p.InTurn e) (hstep : p.step e = some q) : q.Ordered := by
  obtain ⟨dir, hother, hstream⟩ := h.stream
  rcases e.1.eq_or_other dir with rfl | rfl
  · exact .of_other h.echoes hother hstream hstep
  · rw [Direction.other_other] at hother
    obtain ⟨o, ho, ho', hechoes, hheld⟩ := h.echoes.handle e
    rcases hturn o ho with hnone | hnil
    · -- the channel holds nothing and reads nothing
      obtain rfl := Option.some.inj (ho'.symm.trans hstep)
      rw [hother, hnone, List.append_nil, eq_comm, List.append_eq_nil_iff] at hheld
      refine ⟨hechoes, e.1.other, ?_, ?_⟩
      · rw [Direction.other_other, held, after_flow]
        exact hheld.2
      · rw [held, after_flow_of_ne p e.1.other_ne]
        show p.accepted ++ o.sent ++ p.held e.1.other = p.received ++ o.received
        rw [hheld.1, hnone, List.append_nil, List.append_nil, hstream]
    · rw [hnil, List.append_nil] at hstream
      exact .of_other h.echoes hnil (by rw [hother, List.append_nil, hstream]) hstep

/-! ## Writes that take everything -/

/-- Both buffers are empty. -/
structure Drained (p : Pair) : Prop where
  echoes : p.Echoes
  held : ∀ dir, p.held dir = []

/-- An event whose writes take all they are offered leaves nothing behind. -/
theorem step_drained (p : Pair) (e : Direction × ChannelEvent) (q : Pair) (h : p.Drained)
    (hwhole : e.2.Whole) (hstep : p.step e = some q) : q.Drained := by
  obtain ⟨o, ho, ho', hechoes, -⟩ := h.echoes.handle e
  obtain rfl := Option.some.inj (ho'.symm.trans hstep)
  refine ⟨hechoes, fun dir => ?_⟩
  have hsteady : Steady (p.flow e.1).channel.handlers := by
    rw [h.echoes.handlers e.1]
    rintro _ ⟨⟩
  by_cases heq : dir = e.1
  · subst heq
    rw [held, after_flow]
    exact Channel.handle_drains (h.echoes.intact e.1).sound (h.held e.1) hsteady hwhole ho
  · rw [held, after_flow_of_ne p heq]
    exact h.held dir

/-- Such events are in turn. -/
theorem Drained.inTurn {p : Pair} (h : p.Drained) {e : Direction × ChannelEvent} :
    p.InTurn e :=
  fun _ _ => Or.inr (h.held e.1.other)

/-! ## Runs -/

theorem drained_start (data : ℕ → UInt8) (fd : FileDescriptor) : (start data fd).Drained := by
  refine ⟨echoes_start data fd, fun dir => ?_⟩
  cases dir <;> exact BipartiteBuffer.held_init data

theorem ordered_start (data : ℕ → UInt8) (fd : FileDescriptor) : (start data fd).Ordered :=
  ⟨echoes_start data fd, .lr, (drained_start data fd).held .rl,
    by rw [(drained_start data fd).held .lr]; rfl⟩

end Pair
end Echo
end PsqlTcpProxy
