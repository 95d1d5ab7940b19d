import PsqlTcpProxy.Io.BipartiteBufSpec
import PsqlTcpProxy.Io.Channel
import PsqlTcpProxy.Library.Run

/-!
# The bytes that flow through a channel

A `Flow` is a channel together with the bytes its left object has returned and
its right object has accepted so far.  `stream_integrity` is the integrity of the
stream: what was accepted, followed by what the buffer holds, is what was
returned, after every event and also between the read and the write of one
event, whatever the masks, the results and the handlers are.

The buffer keeps the FIFO discipline on its own (`BipartiteBuffer.write_correct`,
`read_correct`); what the channel adds is that it acquires and then may not
release.  A failed read leaves `_write_wrapped` set, a failed or empty write
leaves `_read_wrapped` set.  `Sound` is the invariant that makes both harmless:
the first because every request of the channel has the size `CHUNK_SZ`, so the
next one wraps too; the second because the read index does not move before the
next release.
-/

namespace PsqlTcpProxy
namespace Io

open Library

variable {η : Type}

namespace Channel

/-- The invariant of a channel's buffer. -/
structure Sound (c : Channel η) : Prop where
  wf : c.buffer.Wf
  flag : c.buffer.FlagFor CHUNK_SZ

theorem sound_make (data : ℕ → UInt8) (left right : FileDescriptor)
    (handlers : List (InputCallback η)) (s : η) : (make data left right handlers s).Sound :=
  ⟨BipartiteBuffer.wf_init data (by decide), BipartiteBuffer.flagFor_init data⟩

/-- The handlers never see the buffer. -/
@[simp] theorem afterRead_buffer (c : Channel η) (res : InputResult) (evs : List Event) :
    (c.afterRead res evs).channel.buffer = c.buffer := rfl

@[simp] theorem afterRead_sent (c : Channel η) (res : InputResult) (evs : List Event) :
    (c.afterRead res evs).sent = [] := rfl

@[simp] theorem afterRead_received (c : Channel η) (res : InputResult) (evs : List Event) :
    (c.afterRead res evs).received = res.bytes := rfl

/-- **What a read does** to all but the buffer: nothing when there is no room; else the handlers
see the result, and a failed read enqueues an error event. -/
theorem readPart_inv {c : Channel η} {fd : FileDescriptor} {read : ReadResult CHUNK_SZ}
    {o : Outcome η} (h : c.readPart fd read = some o) : ∃ b,
      ((c.buffer.writeAcquire CHUNK_SZ).1 = none ∧ o = { channel := { c with buffer := b } }) ∨
      (∃ err, read = .error err ∧
        o = ({ c with buffer := b } : Channel η).afterRead (.error err) [⟨fd, Flags.error⟩]) ∨
      ∃ bytes, read = .success bytes ∧
        o = ({ c with buffer := b } : Channel η).afterRead (.success bytes.1) [] := by
  unfold readPart at h
  rcases hacq : c.buffer.writeAcquire CHUNK_SZ with ⟨_ | wbuf, b⟩
  · rw [hacq] at h
    exact ⟨b, Or.inl ⟨rfl, (Option.some.inj h).symm⟩⟩
  · rw [hacq] at h
    cases read with
    | error err => exact ⟨b, Or.inr (Or.inl ⟨err, rfl, (Option.some.inj h).symm⟩)⟩
    | success bytes =>
      obtain ⟨b', -, rfl⟩ := Option.map_eq_some_iff.mp h
      exact ⟨b', Or.inr (Or.inr ⟨bytes, rfl, rfl⟩)⟩

/-- **What a write does** to all but the buffer: it may ask to be called again. -/
theorem writePart_inv {c : Channel η} {fd : FileDescriptor}
    {write : (offered : List UInt8) → WriteResult offered.length} {o : Outcome η}
    (h : c.writePart fd write = some o) : ∃ b events writeCall,
      o = { channel := { c with buffer := b }, events, writeCall } ∧
      (events = [] ∨ events = [⟨fd, Flags.out⟩]) := by
  unfold writePart at h
  rcases hacq : c.buffer.readAcquire with ⟨_ | rbuf, len, b⟩
  · rw [hacq] at h
    exact ⟨b, [], none, (Option.some.inj h).symm, Or.inl rfl⟩
  · rw [hacq] at h
    simp only at h
    split at h
    · rcases hres : write (region b.data rbuf len) with n | err
      · rw [hres] at h
        obtain ⟨b', -, rfl⟩ := Option.map_eq_some_iff.mp h
        refine ⟨b', _, _, rfl, ?_⟩
        split
        · exact Or.inr rfl
        · exact Or.inl rfl
      · rw [hres] at h
        exact ⟨b, [], _, (Option.some.inj h).symm, Or.inl rfl⟩
    · exact ⟨b, [], none, (Option.some.inj h).symm, Or.inl rfl⟩

/-- **The read appends what came.**  It never fails an assertion, and the buffer
holds what it held followed by the bytes the left object returned. -/
theorem readPart_correct {c : Channel η} (hc : c.Sound) (fd : FileDescriptor)
    (read : ReadResult CHUNK_SZ) :
    ∃ o, c.readPart fd read = some o ∧ o.channel.Sound ∧
      o.channel.buffer.held = c.buffer.held ++ o.received ∧ o.sent = [] := by
  obtain ⟨hwf, hflag, hheld⟩ := BipartiteBuffer.writeAcquire_keeps hc.wf hc.flag
  unfold readPart
  rcases hacq : c.buffer.writeAcquire CHUNK_SZ with ⟨_ | wbuf, b⟩
  · rw [hacq] at hwf hflag hheld
    exact ⟨_, rfl, ⟨hwf, hflag⟩, by simp [hheld, Outcome.received], rfl⟩
  · rw [hacq] at hwf hflag hheld
    cases read with
    | error err =>
      -- acquired and never released: the flags may stay set
      exact ⟨_, rfl, ⟨hwf, hflag⟩, by simp [hheld, ResultType.bytes], rfl⟩
    | success bytes =>
      obtain ⟨b', hrel, hwf', hflag', hheld'⟩ :=
        BipartiteBuffer.write_correct hc.wf hc.flag hacq bytes.2
      exact ⟨_, congrArg (Option.map _) hrel, ⟨hwf', hflag'⟩, hheld', rfl⟩

/-- **The write drops what was accepted.**  It never fails an assertion, and the
bytes the right object accepted are the front of what the buffer held. -/
theorem writePart_correct {c : Channel η} (hc : c.Sound) (fd : FileDescriptor)
    (write : (offered : List UInt8) → WriteResult offered.length) :
    ∃ o, c.writePart fd write = some o ∧ o.channel.Sound ∧
      c.buffer.held = o.sent ++ o.channel.buffer.held ∧ o.received = [] := by
  unfold writePart
  rcases BipartiteBuffer.readAcquire_cases hc.wf with
    ⟨p, b, hacq, hwf, hheld, -, hflag⟩ | ⟨p, len, b, hacq, hpos, hd, hr, hw, hi, hww, hoff⟩
  · have hsound : ({ c with buffer := b } : Channel η).Sound := ⟨hwf, hflag _ hc.flag⟩
    rw [hacq]
    rcases p with _ | p
    · exact ⟨_, rfl, hsound, by simp [hheld, Outcome.sent], rfl⟩
    · exact ⟨_, if_neg (lt_irrefl 0), hsound, by simp [hheld, Outcome.sent], rfl⟩
  · rw [hacq]
    simp only [if_pos hpos]
    rcases hres : write (region b.data p len) with n | err
    · have hn : (n : ℕ) ≤ len := by
        have h1 := n.2
        have h2 := length_region b.data p len
        omega
      obtain ⟨hreg, b', hrel, hwf', hheld', hflag'⟩ :=
        BipartiteBuffer.read_correct hc.wf hacq hpos hn
      refine ⟨_, congrArg (Option.map _) hrel, ⟨hwf', hflag' _ hc.flag⟩, ?_, rfl⟩
      simp only [Outcome.sent, WriteCall.accepted, Option.map_some, Option.getD_some, hheld', hreg,
        List.take_take, Nat.min_eq_left hn, List.take_append_drop]
    · refine ⟨_, rfl, ⟨?_, ?_⟩, ?_, rfl⟩
      · exact ⟨by simpa [hr] using hc.wf.r_lt, by simpa [hw] using hc.wf.w_lt,
          by simpa [hi] using hc.wf.i_le, by simpa [hr, hw, hi] using hc.wf.r_le_i, fun hset => by
            have := hoff.at_invalid hset
            simpa [hr, hw, hi] using And.intro this.1 this.2.1⟩
      · intro hset
        have := hc.flag (by simpa [hww] using hset)
        simpa [hr, hw] using this
      · simp [Outcome.sent, WriteCall.accepted, BipartiteBuffer.held_eq, hd, hr, hw, hi]

end Channel

/-! ## Runs -/

/-- An event delivered to one of the two handlers, with the results of the calls
the handler may make. -/
inductive ChannelEvent where
  | left (fd : FileDescriptor) (mask : Flags) (read : ReadResult CHUNK_SZ)
      (write : (offered : List UInt8) → WriteResult offered.length)
  | right (fd : FileDescriptor) (mask : Flags)
      (write : (offered : List UInt8) → WriteResult offered.length)

/-- The handler an event is delivered to. -/
def Channel.handle (c : Channel η) : ChannelEvent → Option (Outcome η)
  | .left fd mask read write => c.handleLeftIoEvent fd mask read write
  | .right fd mask write => c.handleRightIoEvent fd mask write

/-- A channel and the bytes that have passed its two ends. -/
structure Flow (η : Type) where
  channel : Channel η
  /-- The bytes the left object has returned. -/
  received : List UInt8
  /-- The bytes the right object has accepted. -/
  accepted : List UInt8

namespace Flow

/-- Nothing has passed yet. -/
def start (c : Channel η) : Flow η := ⟨c, [], []⟩

/-- The flow after a handler has run. -/
def after (f : Flow η) (o : Outcome η) : Flow η :=
  ⟨o.channel, f.received ++ o.received, f.accepted ++ o.sent⟩

/-- One event. -/
def step (f : Flow η) (e : ChannelEvent) : Option (Flow η) :=
  (f.channel.handle e).map f.after

/-- The stream is intact: nothing lost, duplicated, reordered or altered. -/
structure Intact (f : Flow η) : Prop where
  sound : f.channel.Sound
  stream : f.accepted ++ f.channel.buffer.held = f.received

theorem intact_start (data : ℕ → UInt8) (left right : FileDescriptor)
    (handlers : List (InputCallback η)) (s : η) :
    (start (Channel.make data left right handlers s)).Intact :=
  ⟨Channel.sound_make data left right handlers s, by simp [start, Channel.make]⟩

/-- An outcome that moves bytes through the buffer keeps the stream intact. -/
theorem Intact.after {f : Flow η} (hf : f.Intact) {o : Outcome η} (ho : o.channel.Sound)
    (hheld : f.channel.buffer.held ++ o.received = o.sent ++ o.channel.buffer.held) :
    (f.after o).Intact := by
  refine ⟨ho, ?_⟩
  calc (f.accepted ++ o.sent) ++ o.channel.buffer.held
      = f.accepted ++ (o.sent ++ o.channel.buffer.held) := List.append_assoc _ _ _
    _ = f.accepted ++ (f.channel.buffer.held ++ o.received) := by rw [hheld]
    _ = (f.accepted ++ f.channel.buffer.held) ++ o.received := (List.append_assoc _ _ _).symm
    _ = f.received ++ o.received := by rw [hf.stream]

end Flow

/-- **Every handler moves bytes from the left to the right.**  It fails no
assertion; what the buffer held, followed by what was received, is what was sent
followed by what the buffer holds now. -/
theorem Channel.handle_correct {c : Channel η} (hc : c.Sound) (e : ChannelEvent) :
    ∃ o, c.handle e = some o ∧ o.channel.Sound ∧
      c.buffer.held ++ o.received = o.sent ++ o.channel.buffer.held := by
  cases e with
  | left fd mask read write =>
    simp only [Channel.handle, Channel.handleLeftIoEvent]
    split
    · obtain ⟨o, ho, hsound, hheld, hsent⟩ := Channel.readPart_correct hc fd read
      rw [ho, Option.bind_some]
      split
      · exact ⟨o, rfl, hsound, by rw [hsent, List.nil_append, hheld]⟩
      · obtain ⟨o', ho', hsound', hheld', -⟩ := Channel.writePart_correct hsound fd write
        refine ⟨_, congrArg (Option.map _) ho', hsound', ?_⟩
        rw [hheld] at hheld'
        exact hheld'
    · exact ⟨_, rfl, hc, by simp [Outcome.received, Outcome.sent]⟩
  | right fd mask write =>
    simp only [Channel.handle, Channel.handleRightIoEvent]
    split
    · obtain ⟨o, ho, hsound, hheld, hrecv⟩ := Channel.writePart_correct hc fd write
      exact ⟨o, ho, hsound, by rw [hrecv, List.append_nil, hheld]⟩
    · exact ⟨_, rfl, hc, by simp [Outcome.received, Outcome.sent]⟩

theorem Flow.step_intact (f : Flow η) (e : ChannelEvent) (hf : f.Intact) :
    ∃ f', f.step e = some f' ∧ f'.Intact := by
  obtain ⟨o, ho, hsound, hheld⟩ := Channel.handle_correct hf.sound e
  exact ⟨f.after o, by rw [Flow.step, ho, Option.map_some], hf.after hsound hheld⟩

/-- **Stream integrity.**  After any events, in any order, with any masks and
results, no assertion has failed and the accepted bytes followed by the buffered
ones are the bytes received; and so it is in the middle of a left event, after
the read and before the write. -/
theorem stream_integrity (data : ℕ → UInt8) (left right : FileDescriptor)
    (handlers : List (InputCallback η)) (s : η) (evs : List ChannelEvent) :
    ∃ f, run Flow.step (Flow.start (Channel.make data left right handlers s)) evs = some f ∧
      f.accepted ++ f.channel.buffer.held = f.received ∧
      ∀ fd read, ∃ o, f.channel.readPart fd read = some o ∧
        f.accepted ++ o.channel.buffer.held = f.received ++ o.received := by
  obtain ⟨f, hrun, hf⟩ :=
    run_total Flow.step_intact (Flow.intact_start data left right handlers s) evs
  refine ⟨f, hrun, hf.stream, fun fd read => ?_⟩
  obtain ⟨o, ho, hsound, hheld, hsent⟩ := Channel.readPart_correct hf.sound fd read
  have hmid := (hf.after hsound (by rw [hsent, List.nil_append, hheld])).stream
  refine ⟨o, ho, ?_⟩
  simpa [Flow.after, hsent] using hmid

end Io
end PsqlTcpProxy
