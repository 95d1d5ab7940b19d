import PsqlTcpProxy.Io.BipartiteBufDrained
import PsqlTcpProxy.Io.ChannelReadiness

/-!
# A right side that keeps up

When every write takes all it is offered and no input callback throws, the buffer
of a channel is empty between two events.  A chunk that is read into an empty
buffer is one region, wherever it lies (`readPart_oneRegion`), so the write that
follows offers all of it (`handle_drains`).
-/

namespace PsqlTcpProxy
namespace Io

open Library

variable {η : Type}

/-- Every write of the event takes all it is offered. -/
def ChannelEvent.Whole : ChannelEvent → Prop
  | .left _ _ _ write | .right _ _ write =>
    ∀ offered, write offered = .success (Fin.last offered.length)

/-- No input callback throws, whatever it has seen. -/
def Steady (handlers : List (InputCallback η)) : Prop :=
  ∀ handler ∈ handlers, ∀ s res, (handler s res).thrown = none

theorem runHandlers_steady {handlers : List (InputCallback η)} (h : Steady handlers) (s : η)
    (res : InputResult) : (runHandlers handlers s res).thrown = none := by
  induction handlers generalizing s with
  | nil => rfl
  | cons handler handlers ih =>
    obtain ⟨hfirst, hrest⟩ := List.forall_mem_cons.mp h
    have hthrown := hfirst s res
    unfold runHandlers
    rcases hcall : handler s res with ⟨s', evs, thrown⟩
    rw [hcall] at hthrown
    obtain rfl : thrown = none := hthrown
    exact ih hrest s'

namespace BipartiteBuffer

variable {α : Type*} {size n p : ℕ} {b b₁ b₂ : BipartiteBuffer α size}

/-- What is written into an empty buffer is one region. -/
theorem oneRegion_write (hb : b.Wf) (hf : b.FlagFor n) (hnil : b.held = [])
    (hacq : b.writeAcquire n = (some p, b₁)) {xs : List α} (hxs : xs.length ≤ n)
    (hrel : (b₁.store p xs).writeRelease xs.length = some b₂) : b₂.OneRegion := by
  have hempty := held_eq_nil hb hnil
  unfold OneRegion
  rcases write_cases hb hf hacq hxs with ⟨-, hroom, hrel'⟩ | ⟨-, hroom, -, hrel'⟩
  · have hread := hroom.lt_read
    rw [hrel', Option.some.injEq] at hrel
    subst hrel
    show b.r ≤ (if b.w + xs.length = size then 0 else b.w + xs.length) ∨
      b.r = max b.i (b.w + xs.length) ∨ (if b.w + xs.length = size then 0 else b.w + xs.length) = 0
    have hri := hb.r_le_i
    split
    · omega
    · omega
  · have hle := hroom.le_write
    have hlt := hroom.lt_read
    rw [hrel', Option.some.injEq] at hrel
    subst hrel
    -- the reader stands where the write index was
    show b.r ≤ (if 0 + xs.length = size then 0 else 0 + xs.length) ∨
      b.r = max b.w (0 + xs.length) ∨ (if 0 + xs.length = size then 0 else 0 + xs.length) = 0
    omega

end BipartiteBuffer

namespace Channel

variable {c : Channel η} {fd : FileDescriptor} {read : ReadResult CHUNK_SZ}
  {write : (offered : List UInt8) → WriteResult offered.length} {o : Outcome η}

/-- An empty buffer is one region. -/
theorem oneRegion_of_nil (hc : c.Sound) (hnil : c.buffer.held = []) : c.buffer.OneRegion := by
  rcases BipartiteBuffer.held_eq_nil hc.wf hnil with heq | ⟨hw, -⟩
  · exact Or.inl (Nat.le_of_eq heq)
  · exact Or.inr (Or.inr hw)

/-- **A chunk read into an empty buffer is one region.** -/
theorem readPart_oneRegion (hc : c.Sound) (hnil : c.buffer.held = [])
    (h : c.readPart fd read = some o) : o.channel.buffer.OneRegion := by
  have hone := oneRegion_of_nil hc hnil
  unfold readPart at h
  rcases hacq : c.buffer.writeAcquire CHUNK_SZ with ⟨_ | wbuf, b⟩
  · rw [hacq] at h
    obtain rfl := Option.some.inj h
    rcases c.buffer.writeAcquire_cases CHUNK_SZ with hcase | ⟨-, hcase⟩ | ⟨-, hcase⟩
    · rw [hacq] at hcase
      obtain rfl : b = c.buffer := congrArg Prod.snd hcase
      exact hone
    · rw [hacq] at hcase
      cases congrArg Prod.fst hcase
    · rw [hacq] at hcase
      cases congrArg Prod.fst hcase
  · rw [hacq] at h
    cases read with
    | error err =>
      obtain rfl := Option.some.inj h
      rcases c.buffer.writeAcquire_cases CHUNK_SZ with hcase | ⟨-, hcase⟩ | ⟨-, hcase⟩
      · rw [hacq] at hcase
        cases congrArg Prod.fst hcase
      · rw [hacq] at hcase
        obtain rfl : b = c.buffer := congrArg Prod.snd hcase
        exact hone
      · rw [hacq] at hcase
        obtain rfl : b = { c.buffer with writeWrapped := true } := congrArg Prod.snd hcase
        exact hone
    | success bytes =>
      obtain ⟨b', hrel, rfl⟩ := Option.map_eq_some_iff.mp h
      exact BipartiteBuffer.oneRegion_write hc.wf hc.flag hnil hacq bytes.2 hrel

/-- One region that is written whole leaves nothing. -/
theorem writePart_drains (hc : c.Sound) (hone : c.buffer.OneRegion)
    (hwhole : ∀ offered, write offered = .success (Fin.last offered.length))
    (h : c.writePart fd write = some o) : o.channel.buffer.held = [] := by
  have hok : c.WriteOk fd write := by
    intro offered _
    exact ⟨_, hwhole offered, fun hlt => absurd hlt (Nat.lt_irrefl _), fun _ => hone⟩
  rcases writePart_ok hc hok h with ⟨hnil, -⟩ | ⟨call, hcall, hshort, -⟩
  · exact hnil
  · -- no write of the event is short
    obtain ⟨-, -, -, ⟨hnone, -⟩ | ⟨offered, -, hmade, -⟩⟩ := writePart_cases hc h
    · rw [hnone] at hcall
      cases hcall
    · obtain rfl := Option.some.inj (hmade.symm.trans hcall)
      simp [WriteCall.short, hwhole] at hshort

/-- The handlers are called, and stay. -/
theorem readPart_handlers (h : c.readPart fd read = some o) :
    o.channel.handlers = c.handlers ∧ (Steady c.handlers → o.thrown = none) := by
  obtain ⟨b, ⟨-, rfl⟩ | ⟨err, -, rfl⟩ | ⟨bytes, -, rfl⟩⟩ := readPart_inv h
  · exact ⟨rfl, fun _ => rfl⟩
  · exact ⟨rfl, fun hsteady => runHandlers_steady hsteady _ _⟩
  · exact ⟨rfl, fun hsteady => runHandlers_steady hsteady _ _⟩

theorem writePart_handlers (h : c.writePart fd write = some o) :
    o.channel.handlers = c.handlers := by
  obtain ⟨b, events, writeCall, rfl, -⟩ := writePart_inv h
  rfl

theorem handle_handlers {e : ChannelEvent} (h : c.handle e = some o) :
    o.channel.handlers = c.handlers := by
  cases e with
  | left fd mask read write =>
    simp only [handle, handleLeftIoEvent] at h
    split at h
    · obtain ⟨o₁, ho₁, h⟩ := Option.bind_eq_some_iff.mp h
      obtain ⟨hread, -⟩ := readPart_handlers ho₁
      split at h
      · obtain rfl := Option.some.inj h
        exact hread
      · obtain ⟨o₂, ho₂, rfl⟩ := Option.map_eq_some_iff.mp h
        exact (writePart_handlers ho₂).trans hread
    · obtain rfl := Option.some.inj h
      rfl
  | right fd mask write =>
    simp only [handle, handleRightIoEvent] at h
    split at h
    · exact writePart_handlers h
    · obtain rfl := Option.some.inj h
      rfl

theorem readPart_received_le (h : c.readPart fd read = some o) : o.received.length ≤ CHUNK_SZ := by
  obtain ⟨b, ⟨-, rfl⟩ | ⟨err, -, rfl⟩ | ⟨bytes, -, rfl⟩⟩ := readPart_inv h
  · exact Nat.zero_le _
  · exact Nat.zero_le _
  · exact bytes.2

/-- An event reads at most one chunk. -/
theorem handle_received_le (hc : c.Sound) {e : ChannelEvent} (h : c.handle e = some o) :
    o.received.length ≤ CHUNK_SZ := by
  cases e with
  | left fd mask read write =>
    by_cases hin : mask.test Flags.in' = true
    · obtain ⟨o₁, ho₁, hreceived⟩ := handleLeft_received hin h
      rw [hreceived]
      exact readPart_received_le ho₁
    · simp only [handle, handleLeftIoEvent, hin] at h
      obtain rfl := Option.some.inj h
      exact Nat.zero_le _
  | right fd mask write =>
    simp only [handle, handleRightIoEvent] at h
    split at h
    · obtain ⟨o', ho', -, -, hnone⟩ := writePart_correct hc fd write
      obtain rfl := Option.some.inj (ho'.symm.trans h)
      rw [hnone]
      exact Nat.zero_le _
    · obtain rfl := Option.some.inj h
      exact Nat.zero_le _

/-- **An event leaves nothing in an empty buffer.** -/
theorem handle_drains (hc : c.Sound) (hnil : c.buffer.held = []) (hsteady : Steady c.handlers)
    {e : ChannelEvent} (hwhole : e.Whole) (h : c.handle e = some o) :
    o.channel.buffer.held = [] := by
  cases e with
  | left fd mask read write =>
    simp only [handle, handleLeftIoEvent] at h
    split at h
    · obtain ⟨o₁, ho₁, h⟩ := Option.bind_eq_some_iff.mp h
      obtain ⟨o', ho', hsound, -⟩ := readPart_correct hc fd read
      obtain rfl := Option.some.inj (ho'.symm.trans ho₁)
      have hthrown := (readPart_handlers ho₁).2 hsteady
      simp only [hthrown, Option.isSome_none, Bool.false_eq_true, if_false] at h
      obtain ⟨o₂, ho₂, rfl⟩ := Option.map_eq_some_iff.mp h
      have hdrained := writePart_drains hsound (readPart_oneRegion hc hnil ho₁) hwhole ho₂
      exact hdrained
    · obtain rfl := Option.some.inj h
      exact hnil
  | right fd mask write =>
    simp only [handle, handleRightIoEvent] at h
    split at h
    · exact writePart_drains hc (oneRegion_of_nil hc hnil) hwhole h
    · obtain rfl := Option.some.inj h
      exact hnil

end Channel

end Io
end PsqlTcpProxy
