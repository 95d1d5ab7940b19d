import PsqlTcpProxy.Io.BipartiteBufDrained
import PsqlTcpProxy.Io.ChannelFlow

/-!
# Room for a chunk

A left event reads only when the buffer has room for `CHUNK_SZ` bytes in one
piece, and the buffer has `2 * CHUNK_SZ` cells, of which one is never used.  So
the margin is zero, and a drained channel does not stand at the front: a read of
no bytes after a wrap leaves the write index at the front and the read index
wherever the last data ended.

`Roomy` is what makes that harmless.  The channel always asks for `CHUNK_SZ`
bytes, so its data wraps only at an invalidate index above `CHUNK_SZ`, however
few bytes are then stored there.
-/

namespace PsqlTcpProxy
namespace Io

open Library

variable {η : Type}

namespace Channel

/-- `Sound`, and wrapped data ends beyond a chunk. -/
structure Roomy (c : Channel η) : Prop where
  sound : c.Sound
  invalid : c.buffer.InvalidBeyond CHUNK_SZ

theorem roomy_make (data : ℕ → UInt8) (left right : FileDescriptor)
    (handlers : List (InputCallback η)) (s : η) : (make data left right handlers s).Roomy :=
  ⟨sound_make data left right handlers s, BipartiteBuffer.invalidBeyond_init data⟩

variable {c : Channel η} {fd : FileDescriptor} {o : Outcome η}

theorem Roomy.readPart (hc : c.Roomy) {read : ReadResult CHUNK_SZ}
    (h : c.readPart fd read = some o) : o.channel.buffer.InvalidBeyond CHUNK_SZ := by
  have hacquired := hc.invalid.writeAcquire
  unfold Channel.readPart at h
  rcases hacq : c.buffer.writeAcquire CHUNK_SZ with ⟨_ | wbuf, b⟩
  · rw [hacq] at h hacquired
    obtain rfl := Option.some.inj h
    exact hacquired
  · rw [hacq] at h hacquired
    cases read with
    | error err =>
      obtain rfl := Option.some.inj h
      exact hacquired
    | success bytes =>
      obtain ⟨b', hrel, rfl⟩ := Option.map_eq_some_iff.mp h
      exact hc.invalid.write hc.sound.wf hc.sound.flag (by decide) hacq bytes.2 hrel

theorem Roomy.writePart (hc : c.Roomy)
    {write : (offered : List UInt8) → WriteResult offered.length}
    (h : c.writePart fd write = some o) : o.channel.buffer.InvalidBeyond CHUNK_SZ := by
  have hacquired := hc.invalid.readAcquire
  unfold Channel.writePart at h
  rcases hacq : c.buffer.readAcquire with ⟨_ | rbuf, len, b⟩
  · rw [hacq] at h hacquired
    obtain rfl := Option.some.inj h
    exact hacquired
  · rw [hacq] at h hacquired
    simp only at h
    split at h
    · rename_i hpos
      rcases hres : write (region b.data rbuf len) with n | err
      · rw [hres] at h
        obtain ⟨b', hrel, rfl⟩ := Option.map_eq_some_iff.mp h
        have hn : (n : ℕ) ≤ len := by
          have h1 := n.2
          have h2 := length_region b.data rbuf len
          omega
        exact hc.invalid.read hc.sound.wf hacq hpos hn hrel
      · rw [hres] at h
        obtain rfl := Option.some.inj h
        exact hacquired
    · obtain rfl := Option.some.inj h
      exact hacquired

/-- **One event** keeps the data where a chunk has room beside it. -/
theorem Roomy.handle (hc : c.Roomy) {e : ChannelEvent} (h : c.handle e = some o) :
    o.channel.Roomy := by
  obtain ⟨o', ho', hsound, -⟩ := Channel.handle_correct hc.sound e
  obtain rfl := Option.some.inj (h.symm.trans ho')
  refine ⟨hsound, ?_⟩
  cases e with
  | left fd mask read write =>
    simp only [Channel.handle, Channel.handleLeftIoEvent] at h
    split at h
    · obtain ⟨r, hr, h⟩ := Option.bind_eq_some_iff.mp h
      obtain ⟨r', hr', hsound', -⟩ := Channel.readPart_correct hc.sound fd read
      obtain rfl := Option.some.inj (hr.symm.trans hr')
      have hroomy : r.channel.Roomy := ⟨hsound', hc.readPart hr⟩
      split at h
      · obtain rfl := Option.some.inj h
        exact hroomy.invalid
      · obtain ⟨w, hw, rfl⟩ := Option.map_eq_some_iff.mp h
        have hinvalid := hroomy.writePart hw
        exact hinvalid
    · obtain rfl := Option.some.inj h
      exact hc.invalid
  | right fd mask write =>
    simp only [Channel.handle, Channel.handleRightIoEvent] at h
    split at h
    · exact hc.writePart h
    · obtain rfl := Option.some.inj h
      exact hc.invalid

/-- With room for a chunk, a left event that asks for input reads. -/
theorem handle_reads (hc : c.Sound) (hroom : (c.buffer.writeAcquire CHUNK_SZ).1 ≠ none)
    {mask : Flags} (hmask : mask.test Flags.in' = true) (fd : FileDescriptor)
    (read : ReadResult CHUNK_SZ) (write : (offered : List UInt8) → WriteResult offered.length) :
    ∃ o, c.handle (.left fd mask read write) = some o ∧ o.readCall = some read.toInput := by
  obtain ⟨r, hr, hsound, -⟩ := readPart_correct hc fd read
  have hread : r.readCall = some read.toInput := by
    obtain ⟨b, ⟨hnone, -⟩ | ⟨err, rfl, rfl⟩ | ⟨bytes, rfl, rfl⟩⟩ := readPart_inv hr
    · exact absurd hnone hroom
    · rfl
    · rfl
  simp only [handle, handleLeftIoEvent, hmask, if_true, hr, Option.bind_some]
  split
  · exact ⟨r, rfl, hread⟩
  · obtain ⟨w, hw, -⟩ := writePart_correct hsound fd write
    exact ⟨_, congrArg (Option.map _) hw, hread⟩

end Channel

theorem Flow.step_roomy (f : Flow η) (e : ChannelEvent) (hf : f.Intact ∧ f.channel.Roomy) :
    ∃ f', f.step e = some f' ∧ f'.Intact ∧ f'.channel.Roomy := by
  obtain ⟨f', hstep, hintact⟩ := Flow.step_intact f e hf.1
  obtain ⟨o, ho, rfl⟩ := Option.map_eq_some_iff.mp hstep
  exact ⟨f.after o, hstep, hintact, hf.2.handle ho⟩

/-- **A drained channel can always read.**  In every state that any events and any
results of reads and writes lead to, if all the bytes that were read have been
accepted, then a chunk has room, and the next event that asks for input reads. -/
theorem drained_channel_reads (data : ℕ → UInt8) (left right : FileDescriptor)
    (handlers : List (InputCallback η)) (s : η) (evs : List ChannelEvent) {f : Flow η}
    (hrun : run Flow.step (Flow.start (Channel.make data left right handlers s)) evs = some f)
    (hall : f.accepted = f.received) :
    (f.channel.buffer.writeAcquire CHUNK_SZ).1 ≠ none ∧
      ∀ (fd : FileDescriptor) (mask : Flags) (read : ReadResult CHUNK_SZ)
        (write : (offered : List UInt8) → WriteResult offered.length),
        mask.test Flags.in' = true →
          ∃ o, f.channel.handle (.left fd mask read write) = some o ∧
            o.readCall = some read.toInput := by
  obtain ⟨f', hrun', hintact, hroomy⟩ := run_total Flow.step_roomy
    ⟨Flow.intact_start data left right handlers s,
      Channel.roomy_make data left right handlers s⟩ evs
  obtain rfl := Option.some.inj (hrun.symm.trans hrun')
  have hnil : f.channel.buffer.held = [] := by
    have hstream := hintact.stream
    rwa [hall, List.append_right_eq_self] at hstream
  have hroom :=
    hroomy.sound.wf.acquires_of_drained hroomy.invalid (by decide) hnil
  exact ⟨hroom, fun fd mask read write hmask =>
    Channel.handle_reads hroomy.sound hroom hmask fd read write⟩

/-- Three bytes that are accepted at once, and then the end of the stream. -/
def relayedThenEnd : List ChannelEvent :=
  let takeAll : (offered : List UInt8) → WriteResult offered.length :=
    fun offered => .success (Fin.last offered.length)
  [.left 3 Flags.in' (.success ⟨[1, 2, 3], by decide⟩) takeAll,
    .left 3 Flags.in' (.success ⟨[], by decide⟩) takeAll]

theorem drained_channel_reads_relayed : ∃ f : Flow Unit,
    run Flow.step (Flow.start (Channel.make (fun _ => 0) 3 4 [] ())) relayedThenEnd = some f ∧
      (f.channel.buffer.writeAcquire CHUNK_SZ).1 ≠ none :=
  ⟨_, rfl, (drained_channel_reads (fun _ => 0) 3 4 [] () relayedThenEnd rfl rfl).1⟩

end Io
end PsqlTcpProxy
