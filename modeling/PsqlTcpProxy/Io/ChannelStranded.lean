import PsqlTcpProxy.Io.ChannelFlow

/-!
# Bytes stranded in a channel

On an edge-triggered bus a channel that stops writing is woken by two things
only: an `out` edge of the right descriptor, which is raised after a send was
short, or an event somebody has queued.  `NotStranded` says that one of the two
is on its way while the buffer holds bytes, and that the retry event enqueued
after a short write names the object that was short.

Neither holds of every run.  `_handle_left_io_event` passes on its own `fd`,
which is the *left* descriptor, so its retry goes to the wrong callbacks; and
each handler writes one region and stops, so when the buffer holds two regions
and the first is accepted whole, the second waits for nothing.  `run_strands` is
a run of three events that does both.

What the code does guarantee is `not_stranded`: when a handler that is about to
write finds the whole buffer in the one region it offers, when a left event's
write is short only if left and right are one descriptor, and when neither a
write nor an input callback fails, every state reached is fine.
-/

namespace PsqlTcpProxy
namespace Io

open Library

variable {η : Type}

/-! ## A channel on an edge-triggered bus -/

/-- A channel, the event queue of its bus, and what has been seen of its writes. -/
structure Wired (η : Type) where
  channel : Channel η
  /-- `bus::_events` -/
  queue : List Event
  /-- The last call of `async_write_some`. -/
  lastWrite : Option WriteCall
  /-- An `out` edge of the right descriptor is due: a send was short and no
  `out` has been delivered since. -/
  outEdge : Bool
  /-- The last handler made a write that returned an error. -/
  failed : Bool
  /-- The descriptors named by the retry events enqueued so far. -/
  retries : List FileDescriptor

/-- What can happen to a channel on a bus. -/
inductive Delivery where
  /-- epoll reports an event and the bus delivers it. -/
  | epoll (e : ChannelEvent)
  /-- The bus delivers the event at the front of its queue. -/
  | queued (e : ChannelEvent)
  /-- The event at the front of the queue is for other descriptors. -/
  | foreign
  /-- Another callback enqueues an event. -/
  | post (ev : Event)

/-- The bus event a handler is called with. -/
def ChannelEvent.event : ChannelEvent → Event
  | .left fd mask _ _ => ⟨fd, mask⟩
  | .right fd mask _ => ⟨fd, mask⟩

namespace Wired

/-- A fresh channel on a bus whose queue is empty. -/
def start (c : Channel η) : Wired η := ⟨c, [], none, false, false, []⟩

/-- The descriptor of the retry event: the last event enqueued after a short
write. -/
def retryOf (o : Outcome η) : List FileDescriptor :=
  if (o.writeCall.map WriteCall.short).getD false then
    (o.events.getLast?.map Event.fd).toList
  else []

/-- The state after a handler has run. -/
def after (s : Wired η) (o : Outcome η) : Wired η :=
  { channel := o.channel
    queue := s.queue ++ o.events
    lastWrite := o.writeCall.or s.lastWrite
    outEdge := s.outEdge || (o.writeCall.map WriteCall.short).getD false
    failed := (o.writeCall.map WriteCall.failed).getD false
    retries := s.retries ++ retryOf o }

/-- The delivery consumes the edge or the queued event it comes from.  A queued
event stays queued while the left handler runs if the right handler is still to
come for it. -/
def consume (s : Wired η) : Delivery → Wired η
  | .epoll (.right _ mask _) => { s with outEdge := s.outEdge && !mask.test Flags.out }
  | .epoll (.left ..) => s
  | .queued (.left ..) =>
    if s.channel.left = s.channel.right then s else { s with queue := s.queue.tail }
  | .queued (.right ..) => { s with queue := s.queue.tail }
  | .foreign => { s with queue := s.queue.tail }
  | .post ev => { s with queue := s.queue ++ [ev] }

/-- One delivery. -/
def step (s : Wired η) (d : Delivery) : Option (Wired η) :=
  match d with
  | .epoll e | .queued e => (s.channel.handle e).map (s.consume d).after
  | .foreign | .post _ => some (s.consume d)

/-- A handler is called with the descriptor it was registered for. -/
def Addressed (s : Wired η) : ChannelEvent → Prop
  | .left fd .. => fd = s.channel.left
  | .right fd .. => fd = s.channel.right

/-- The deliveries an edge-triggered bus makes: `out` is reported for the right
descriptor only when an edge is due. -/
def Allowed (s : Wired η) : Delivery → Prop
  | .epoll e => s.Addressed e ∧
      match e with
      | .right _ mask _ => mask.test Flags.out = true → s.outEdge = true
      | .left .. => True
  | .queued e => s.Addressed e ∧ s.queue.head? = some e.event
  | .foreign => ∃ ev, s.queue.head? = some ev ∧ ev.fd ≠ s.channel.left ∧ ev.fd ≠ s.channel.right
  | .post _ => True

/-- The last write was short, so an edge is due. -/
def lastShort (s : Wired η) : Bool := (s.lastWrite.map WriteCall.short).getD false

/-- **No bytes are stranded.**  While the buffer holds bytes, the last write was
short or an `out` event of the right descriptor is queued; and every retry event
named the right descriptor. -/
structure NotStranded (s : Wired η) : Prop where
  awaited : s.channel.buffer.held ≠ [] →
    s.lastShort = true ∨ ∃ ev ∈ s.queue, ev.fd = s.channel.right ∧ ev.flags.test Flags.out = true
  retried : ∀ fd ∈ s.retries, fd = s.channel.right

end Wired

/-! ## When nothing is stranded -/

/-- The cells held are one linear region: they do not wrap, or the part before the
invalidate index is used up, or the part at the front is empty. -/
def BipartiteBuffer.OneRegion {α : Type*} {size : ℕ} (b : BipartiteBuffer α size) : Prop :=
  b.r ≤ b.w ∨ b.r = b.i ∨ b.w = 0

/-- The region the next write would offer. -/
def Channel.offer (c : Channel η) : Option (List UInt8) :=
  match c.buffer.readAcquire with
  | (some rbuf, len, b) => if 0 < len then some (region b.data rbuf len) else none
  | (none, _, _) => none

/-- The write that a handler called with `fd` is about to make does not return
an error, is short only if `fd` is the right descriptor, and is not short only if
what is held is one region. -/
def Channel.WriteOk (c : Channel η) (fd : FileDescriptor)
    (write : (offered : List UInt8) → WriteResult offered.length) : Prop :=
  ∀ offered, c.offer = some offered → ∃ n, write offered = .success n ∧
    ((n : ℕ) < offered.length → fd = c.right) ∧
    ((n : ℕ) = offered.length → c.buffer.OneRegion)

/-- The condition on one event: the write is fine, and in a left event no input
callback throws before it. -/
def Channel.EventOk (c : Channel η) : ChannelEvent → Prop
  | .left fd mask read write => mask.test Flags.in' = true →
      ∀ o, c.readPart fd read = some o → o.thrown = none ∧ o.channel.WriteOk fd write
  | .right fd mask write => mask.test Flags.out = true → c.WriteOk fd write

/-- The condition on one delivery. -/
def Wired.DeliveryOk (s : Wired η) : Delivery → Prop
  | .epoll e | .queued e => s.channel.EventOk e
  | .foreign | .post _ => True

namespace Channel

/-- One region is offered whole. -/
theorem offer_of_oneRegion {c : Channel η} (h : c.buffer.OneRegion) {offered : List UInt8}
    (hoffer : c.offer = some offered) : offered = c.buffer.held := by
  unfold offer BipartiteBuffer.readAcquire readAt at hoffer
  rw [BipartiteBuffer.held_eq, heldAt]
  rcases lt_trichotomy c.buffer.r c.buffer.w with hlt | heq | hgt
  · simp only [if_neg (Nat.ne_of_lt hlt), if_pos hlt, Nat.sub_pos_of_lt hlt, if_true,
      Option.some.injEq] at hoffer
    rw [if_pos (Nat.le_of_lt hlt), hoffer]
  · simp [heq] at hoffer
  · simp only [if_neg (Nat.ne_of_gt hgt), if_neg (Nat.not_lt.mpr (Nat.le_of_lt hgt))] at hoffer
    rw [if_neg (Nat.not_le.mpr hgt)]
    by_cases hinv : c.buffer.r = c.buffer.i
    · simp only [if_pos hinv, Option.ite_none_right_eq_some, Option.some.injEq] at hoffer
      rw [hinv, Nat.sub_self, region_zero, List.nil_append, hoffer.2]
    · simp only [if_neg hinv, Option.ite_none_right_eq_some, Option.some.injEq] at hoffer
      have hzero : c.buffer.w = 0 := by
        rcases h with h | h | h
        · omega
        · exact absurd h hinv
        · exact h
      rw [hzero, region_zero, List.append_nil, hoffer.2]

/-- The descriptors and the handlers of a channel never change. -/
theorem readPart_right {c : Channel η} {fd : FileDescriptor} {read : ReadResult CHUNK_SZ}
    {o : Outcome η} (h : c.readPart fd read = some o) :
    o.channel.right = c.right ∧ o.channel.left = c.left ∧ o.writeCall = none := by
  obtain ⟨b, ⟨-, rfl⟩ | ⟨err, -, rfl⟩ | ⟨bytes, -, rfl⟩⟩ := readPart_inv h
  · exact ⟨rfl, rfl, rfl⟩
  · exact ⟨rfl, rfl, rfl⟩
  · exact ⟨rfl, rfl, rfl⟩

/-- **What one write does.**  Either nothing is held and no call is made, or the
call is made on the region offered, and a short write enqueues the retry for the
descriptor the handler was called with. -/
theorem writePart_cases {c : Channel η} (hc : c.Sound) {fd : FileDescriptor}
    {write : (offered : List UInt8) → WriteResult offered.length} {o : Outcome η}
    (h : c.writePart fd write = some o) :
    o.channel.right = c.right ∧ o.channel.left = c.left ∧ o.thrown = none ∧
    ((o.writeCall = none ∧ c.buffer.held = [] ∧ o.channel.buffer.held = [] ∧ o.events = []) ∨
      ∃ offered, c.offer = some offered ∧ o.writeCall = some ⟨offered, write offered⟩ ∧
        o.events =
          if (WriteCall.mk offered (write offered)).short then [⟨fd, Flags.out⟩] else []) := by
  unfold writePart at h
  unfold offer
  rcases BipartiteBuffer.readAcquire_cases hc.wf with
    ⟨p, b, hacq, -, hheld, hnil, -⟩ | ⟨p, len, b, hacq, hpos, -⟩
  · rw [hacq] at h ⊢
    have ho : o = { channel := { c with buffer := b } } := by
      rcases p with _ | p
      · exact (Option.some.inj h).symm
      · exact (Option.some.inj ((if_neg (lt_irrefl 0)).symm.trans h)).symm
    subst ho
    exact ⟨rfl, rfl, rfl, Or.inl ⟨rfl, hnil, by rw [← hnil]; exact hheld, rfl⟩⟩
  · rw [hacq] at h ⊢
    simp only [if_pos hpos] at h ⊢
    have hlen := length_region b.data p len
    rcases hres : write (region b.data p len) with n | err
    · rw [hres] at h
      obtain ⟨b', -, rfl⟩ := Option.map_eq_some_iff.mp h
      refine ⟨rfl, rfl, rfl, Or.inr ⟨_, rfl, by rw [hres], ?_⟩⟩
      simp only [WriteCall.short, hres, hlen, decide_eq_true_eq]
    · rw [hres] at h
      obtain rfl := Option.some.inj h
      exact ⟨rfl, rfl, rfl, Or.inr ⟨_, rfl, by rw [hres], by simp [WriteCall.short, hres]⟩⟩

/-- A write that is fine is either short, with a retry for the right descriptor,
or leaves the buffer empty. -/
theorem writePart_ok {c : Channel η} (hc : c.Sound) {fd : FileDescriptor}
    {write : (offered : List UInt8) → WriteResult offered.length} (hok : c.WriteOk fd write)
    {o : Outcome η} (h : c.writePart fd write = some o) :
    (o.channel.buffer.held = [] ∧ ∀ call, o.writeCall = some call → call.short = false) ∨
    (∃ call, o.writeCall = some call ∧ call.short = true ∧ o.events = [⟨c.right, Flags.out⟩]) := by
  obtain ⟨-, -, -, ⟨hcall, -, hheld, -⟩ | ⟨offered, hoffer, hcall, hevs⟩⟩ := writePart_cases hc h
  · refine Or.inl ⟨hheld, fun call hsome => ?_⟩
    rw [hcall] at hsome
    simp at hsome
  · obtain ⟨n, hres, hshort, hfull⟩ := hok offered hoffer
    have hn := n.2
    have hwas :
        (WriteCall.mk offered (write offered)).short = decide ((n : ℕ) < offered.length) := by
      rw [hres]
      rfl
    by_cases hlt : (n : ℕ) < offered.length
    · have hs : (WriteCall.mk offered (write offered)).short = true := by rw [hwas]; simpa using hlt
      exact Or.inr ⟨_, hcall, hs, by rw [hevs, if_pos hs, hshort hlt]⟩
    · have heq : (n : ℕ) = offered.length := by omega
      have hs : (WriteCall.mk offered (write offered)).short = false := by
        rw [hwas]
        simpa using hlt
      refine Or.inl ⟨?_, fun call hsome => ?_⟩
      · obtain ⟨o', ho', -, hheld, -⟩ := writePart_correct hc fd write
        obtain rfl := Option.some.inj (ho'.symm.trans h)
        have hsent : o'.sent = c.buffer.held := by
          simp only [Outcome.sent, hcall, Option.map_some, Option.getD_some, WriteCall.accepted,
            hres]
          rw [heq, List.take_length, offer_of_oneRegion (hfull heq) hoffer]
        rw [hsent] at hheld
        exact List.append_right_eq_self.mp hheld.symm
      · rw [hcall] at hsome
        obtain rfl := Option.some.inj hsome
        exact hs

/-- **One event under the condition.**  The handler ends with an empty buffer
and no retry, or with a short write and a retry for the right descriptor, or it
did not write and left the buffer as it was. -/
theorem handle_ok {c : Channel η} (hc : c.Sound) {e : ChannelEvent} (hok : c.EventOk e)
    {o : Outcome η} (h : c.handle e = some o) :
    o.channel.Sound ∧ o.channel.right = c.right ∧ o.channel.left = c.left ∧
    ((o.channel.buffer.held = [] ∧ ∀ call, o.writeCall = some call → call.short = false) ∨
      (∃ call, o.writeCall = some call ∧ call.short = true ∧
        o.events.getLast? = some ⟨c.right, Flags.out⟩) ∨
      (o.channel.buffer.held = c.buffer.held ∧ o.writeCall = none)) := by
  obtain ⟨o', ho', hsound, -⟩ := handle_correct hc e
  obtain rfl := Option.some.inj (ho'.symm.trans h)
  refine ⟨hsound, ?_⟩
  cases e with
  | left fd mask read write =>
    simp only [handle, handleLeftIoEvent] at h
    split at h
    · rename_i hin
      obtain ⟨o₁, ho₁, h⟩ := Option.bind_eq_some_iff.mp h
      obtain ⟨hthrown, hwrite⟩ := hok hin o₁ ho₁
      obtain ⟨hright, hleft, -⟩ := readPart_right ho₁
      rw [hthrown] at h
      obtain ⟨o₂, ho₂, rfl⟩ := Option.map_eq_some_iff.mp h
      obtain ⟨o₁', ho₁', hsound₁, -⟩ := readPart_correct hc fd read
      obtain rfl := Option.some.inj (ho₁'.symm.trans ho₁)
      obtain ⟨hright₂, hleft₂, -⟩ := writePart_cases hsound₁ ho₂
      refine ⟨hright₂.trans hright, hleft₂.trans hleft, ?_⟩
      rcases writePart_ok hsound₁ hwrite ho₂ with hdone | ⟨call, hcall, hs, hevs⟩
      · exact Or.inl hdone
      · refine Or.inr (Or.inl ⟨call, hcall, hs, ?_⟩)
        simp only [hevs, List.getLast?_append, List.getLast?_singleton, Option.some_or, hright]
    · obtain rfl := Option.some.inj h
      exact ⟨rfl, rfl, Or.inr (Or.inr ⟨rfl, rfl⟩)⟩
  | right fd mask write =>
    simp only [handle, handleRightIoEvent] at h
    split at h
    · rename_i hout
      obtain ⟨hright, hleft, -⟩ := writePart_cases hc h
      refine ⟨hright, hleft, ?_⟩
      rcases writePart_ok hc (hok hout) h with hdone | ⟨call, hcall, hs, hevs⟩
      · exact Or.inl hdone
      · exact Or.inr (Or.inl ⟨call, hcall, hs, by rw [hevs]; rfl⟩)
    · obtain rfl := Option.some.inj h
      exact ⟨rfl, rfl, Or.inr (Or.inr ⟨rfl, rfl⟩)⟩

end Channel

namespace Wired

/-- The invariant of a run whose deliveries meet the condition: bytes stay in the
buffer only behind a short write. -/
structure Flowing (s : Wired η) : Prop where
  sound : s.channel.Sound
  awaited : s.channel.buffer.held ≠ [] → s.lastShort = true
  retried : ∀ fd ∈ s.retries, fd = s.channel.right

theorem Flowing.notStranded {s : Wired η} (h : s.Flowing) : s.NotStranded :=
  ⟨fun hne => Or.inl (h.awaited hne), h.retried⟩

/-- A delivery consumes nothing the invariant speaks of. -/
theorem Flowing.consume {s : Wired η} (h : s.Flowing) (d : Delivery) : (s.consume d).Flowing := by
  obtain ⟨hs, ha, hr⟩ := h
  cases d with
  | epoll e => cases e <;> exact ⟨hs, ha, hr⟩
  | queued e =>
    cases e with
    | left fd mask read write =>
      simp only [Wired.consume]
      split <;> exact ⟨hs, ha, hr⟩
    | right fd mask write => exact ⟨hs, ha, hr⟩
  | foreign => exact ⟨hs, ha, hr⟩
  | post ev => exact ⟨hs, ha, hr⟩

@[simp] theorem consume_channel (s : Wired η) (d : Delivery) :
    (s.consume d).channel = s.channel := by
  rcases d with e | e | _ | ev
  · cases e <;> rfl
  · cases e with
    | left fd mask read write =>
      simp only [Wired.consume]
      split <;> rfl
    | right fd mask write => rfl
  · rfl
  · rfl

/-- A handler that runs under the condition keeps the invariant. -/
theorem Flowing.after {s : Wired η} (h : s.Flowing) {e : ChannelEvent} (hok : s.channel.EventOk e)
    {o : Outcome η} (ho : s.channel.handle e = some o) : (s.after o).Flowing := by
  obtain ⟨hsound, hright, -, hcases⟩ := Channel.handle_ok h.sound hok ho
  have hold : ∀ fd ∈ s.retries, fd = o.channel.right := fun fd hfd => by
    rw [hright]
    exact h.retried fd hfd
  rcases hcases with ⟨hnil, hfull⟩ | ⟨call, hcall, hs, hlast⟩ | ⟨hsame, hnone⟩
  · refine ⟨hsound, fun hne => absurd hnil hne, ?_⟩
    intro fd hfd
    rcases List.mem_append.mp hfd with hfd | hfd
    · exact hold fd hfd
    · rcases hcall : o.writeCall with _ | call
      · simp [retryOf, hcall] at hfd
      · simp [retryOf, hcall, hfull call hcall] at hfd
  · refine ⟨hsound, fun _ => by simp [Wired.after, lastShort, hcall, hs], ?_⟩
    intro fd hfd
    rcases List.mem_append.mp hfd with hfd | hfd
    · exact hold fd hfd
    · have : fd = s.channel.right := by simpa [retryOf, hcall, hs, hlast] using hfd
      rw [this]
      exact hright.symm
  · refine ⟨hsound, fun hne => ?_, ?_⟩
    · have := h.awaited (by simpa [Wired.after, hsame] using hne)
      simpa [Wired.after, lastShort, hnone] using this
    · intro fd hfd
      rcases List.mem_append.mp hfd with hfd | hfd
      · exact hold fd hfd
      · simp [retryOf, hnone] at hfd

theorem flowing_step (s : Wired η) (d : Delivery) (s' : Wired η) (h : s.Flowing)
    (hok : s.Allowed d ∧ s.DeliveryOk d) (hstep : s.step d = some s') : s'.Flowing := by
  have hcons := h.consume d
  cases d with
  | epoll e =>
    obtain ⟨o, ho, rfl⟩ := Option.map_eq_some_iff.mp hstep
    rw [← consume_channel s] at ho
    exact hcons.after (by rw [consume_channel]; exact hok.2) ho
  | queued e =>
    obtain ⟨o, ho, rfl⟩ := Option.map_eq_some_iff.mp hstep
    rw [← consume_channel s] at ho
    exact hcons.after (by rw [consume_channel]; exact hok.2) ho
  | foreign =>
    obtain rfl := Option.some.inj hstep
    exact hcons
  | post ev =>
    obtain rfl := Option.some.inj hstep
    exact hcons

end Wired

/-- **Nothing is stranded in a run whose writes are fine.** -/
theorem not_stranded (data : ℕ → UInt8) (left right : FileDescriptor)
    (handlers : List (InputCallback η)) (h : η) (ds : List Delivery) (s : Wired η)
    (hmeets : Meets Wired.step (fun s d => s.Allowed d ∧ s.DeliveryOk d)
      (Wired.start (Channel.make data left right handlers h)) ds)
    (hrun : run Wired.step (Wired.start (Channel.make data left right handlers h)) ds = some s) :
    s.NotStranded := by
  refine (run_invariant Wired.flowing_step ?_ hmeets hrun).notStranded
  exact ⟨Channel.sound_make data left right handlers h,
    fun hne => absurd (BipartiteBuffer.held_init data) hne, by simp [Wired.start]⟩

/-- A right object that accepts what it is offered, up to `n` bytes. -/
def acceptUpTo (n : ℕ) (offered : List UInt8) : WriteResult offered.length :=
  .success ⟨min n offered.length, by omega⟩

/-- Three bytes on a channel from descriptor 3 to itself, which takes them one by one: the write
of the left handler and that of its retry are short. -/
def relayRun : List Delivery :=
  [.epoll (.left 3 Flags.in' (.success ⟨[7, 8, 9], by decide⟩) (acceptUpTo 1)),
    .queued (.left 3 Flags.out (.success ⟨[6], by decide⟩) (acceptUpTo 1)),
    .queued (.right 3 Flags.out (acceptUpTo 1))]

theorem not_stranded_relay : ∃ s : Wired Unit,
    run Wired.step (Wired.start (Channel.make (fun _ => 0) 3 3 [] ())) relayRun = some s ∧
      s.channel.buffer.held = [9] ∧ s.retries = [3, 3] ∧ s.NotStranded := by
  refine ⟨_, rfl, rfl, rfl, not_stranded (fun _ => 0) 3 3 [] () relayRun _ ?_ rfl⟩
  refine ⟨⟨⟨rfl, trivial⟩, fun _ o ho => ?_⟩, fun s hs => ?_⟩
  · obtain rfl := Option.some.inj ho
    exact ⟨rfl, fun offered hoffer => ⟨_, rfl, fun _ => rfl, fun _ => Or.inl (by decide)⟩⟩
  obtain rfl := Option.some.inj hs
  refine ⟨⟨⟨rfl, rfl⟩, fun hin => absurd hin (by decide)⟩, fun s hs => ?_⟩
  obtain rfl := Option.some.inj hs
  refine ⟨⟨⟨rfl, rfl⟩, fun _ offered _ => ⟨_, rfl, fun _ => rfl, fun _ => Or.inl (by decide)⟩⟩, ?_⟩
  exact fun _ _ => trivial

/-! ## A run that strands bytes -/

/-- A channel without handlers whose buffer is between two operations. -/
structure Channel.At (c : Channel η) (left right : FileDescriptor) (r w i : ℕ) : Prop where
  handlers : c.handlers = []
  left : c.left = left
  right : c.right = right
  buffer : ∃ data, c.buffer = ⟨data, false, false, r, w, i⟩

theorem Channel.at_make (data : ℕ → UInt8) (left right : FileDescriptor) (s : η) :
    (Channel.make data left right [] s).At left right 0 0 0 := ⟨rfl, rfl, rfl, data, rfl⟩

/-- **A left event of a channel without handlers**, followed through the
arithmetic of the four operations. -/
theorem Channel.At.handle_left {c : Channel η} {left right : FileDescriptor} {r w i : ℕ}
    (hc : c.At left right r w i) (fd : FileDescriptor)
    (bytes : { bytes : List UInt8 // bytes.length ≤ CHUNK_SZ }) (k : ℕ)
    (acq : ℕ × Bool) (iw : ℕ × ℕ) (q len : ℕ) (wrapped : Bool) (r' : ℕ)
    (hacq : acquireAt BUFF_SZ w r CHUNK_SZ = some acq) {n : ℕ} (hn : bytes.1.length = n)
    (hrel : releaseAt BUFF_SZ (releaseStart acq.2 w i).1 (releaseStart acq.2 w i).2 n = some iw)
    (hread : readAt r iw.2 iw.1 = (some q, len, wrapped)) (hpos : 0 < len)
    (hdrop : readReleaseAt BUFF_SZ wrapped r (min k len) = some r') {short : Bool}
    (hk : decide (min k len < len) = short) :
    ∃ o call, c.handleLeftIoEvent fd Flags.in' (.success bytes) (acceptUpTo k) = some o ∧
      o.channel.At left right r' iw.2 iw.1 ∧ o.received = bytes.1 ∧ o.writeCall = some call ∧
      call.short = short ∧ call.failed = false ∧
      o.events = if short then [⟨fd, Flags.out⟩] else [] := by
  obtain ⟨hhandlers, hleft, hright, data, hbuf⟩ := hc
  obtain ⟨p, writeWrapped⟩ := acq
  let b : BipartiteBuffer UInt8 BUFF_SZ := ⟨blit data p bytes.1, false, false, r, iw.2, iw.1⟩
  let call : WriteCall := ⟨region b.data q len, acceptUpTo k _⟩
  let o : Outcome η :=
    { channel := { c with buffer := { b with r := r' } }
      events := if short then [⟨fd, Flags.out⟩] else []
      writeCall := some call }
  have hlen : (region b.data q len).length = len := length_region b.data q len
  have hreadPart : c.readPart fd (.success bytes) = some
      { channel := { c with buffer := b }, readCall := some (.success bytes.1) } := by
    cases writeWrapped <;>
      simp [Channel.readPart, BipartiteBuffer.writeAcquire, BipartiteBuffer.store, hbuf, hacq, b,
        BipartiteBuffer.writeRelease, hn, hrel, Channel.afterRead, hhandlers, runHandlers]
  have hwritePart : ({ c with buffer := b } : Channel η).writePart fd (acceptUpTo k) = some o := by
    cases wrapped <;>
      simp [Channel.writePart, BipartiteBuffer.readAcquire, hread, b, hpos, acceptUpTo,
        BipartiteBuffer.readRelease, hdrop, o, call, ← hk]
  refine ⟨{ o with readCall := some (.success bytes.1) }, call, ?_,
    ⟨hhandlers, hleft, hright, _, rfl⟩, rfl, rfl, ?_, rfl, rfl⟩
  · simp only [Channel.handleLeftIoEvent, Flags.test_in_in, if_true, hreadPart, Option.bind_some,
      Option.isSome_none, Bool.false_eq_true, if_false, hwritePart, Option.map_some,
      List.nil_append]
  · simp only [WriteCall.short, acceptUpTo, call, hlen, hk]

/-- The same event on the bus: the retry is for the descriptor of the event. -/
theorem Wired.step_left {s : Wired η} {fd : FileDescriptor}
    {bytes : { bytes : List UInt8 // bytes.length ≤ CHUNK_SZ }} {k : ℕ} {o : Outcome η}
    {call : WriteCall} {short : Bool}
    (ho : s.channel.handleLeftIoEvent fd Flags.in' (.success bytes) (acceptUpTo k) = some o)
    (hcall : o.writeCall = some call) (hshort : call.short = short) (hfailed : call.failed = false)
    (hevs : o.events = if short then [⟨fd, Flags.out⟩] else []) :
    ∃ t, s.step (.epoll (.left fd Flags.in' (.success bytes) (acceptUpTo k))) = some t ∧
      t.channel = o.channel ∧ t.lastShort = short ∧ t.failed = false ∧
      t.queue = s.queue ++ (if short then [⟨fd, Flags.out⟩] else []) ∧
      t.retries = s.retries ++ (if short then [fd] else []) := by
  refine ⟨s.after o, ?_, rfl, ?_, ?_, by rw [← hevs]; rfl, ?_⟩
  · simp only [Wired.step, Channel.handle, ho, Option.map_some, Wired.consume]
  · simp only [Wired.lastShort, Wired.after, hcall, Option.some_or, Option.map_some,
      Option.getD_some, hshort]
  · simp only [Wired.after, hcall, Option.map_some, Option.getD_some, hfailed]
  · cases short <;> simp [Wired.after, Wired.retryOf, hcall, hshort, hevs]

/-- `n` zero bytes. -/
def zeros (n : ℕ) (h : n ≤ CHUNK_SZ) : { bytes : List UInt8 // bytes.length ≤ CHUNK_SZ } :=
  ⟨List.replicate n 0, by rw [List.length_replicate]; exact h⟩

/-- Three reads of a channel from descriptor 3 to descriptor 4.  The first two
fill the buffer and one byte of the second is accepted, so the third wraps. -/
def strandingRun : List Delivery :=
  [.epoll (.left 3 Flags.in' (.success (zeros CHUNK_SZ (Nat.le_refl _))) (acceptUpTo BUFF_SZ)),
    .epoll (.left 3 Flags.in' (.success (zeros CHUNK_SZ (Nat.le_refl _))) (acceptUpTo 1)),
    .epoll (.left 3 Flags.in' (.success (zeros 10 (by decide))) (acceptUpTo BUFF_SZ))]

/-- **A run that strands bytes.**  The third write is accepted whole, ten bytes
stay at the front of the buffer, no event for descriptor 4 is queued, and the
retry of the second write named descriptor 3. -/
theorem run_strands : ∃ s : Wired Unit,
    Meets Wired.step Wired.Allowed (Wired.start (Channel.make (fun _ => 0) 3 4 [] ()))
      strandingRun ∧
    run Wired.step (Wired.start (Channel.make (fun _ => 0) 3 4 [] ())) strandingRun = some s ∧
    s.failed = false ∧
    ¬ (s.channel.buffer.held ≠ [] → s.lastShort = true ∨
      ∃ ev ∈ s.queue, ev.fd = s.channel.right ∧ ev.flags.test Flags.out = true) ∧
    ¬ ∀ fd ∈ s.retries, fd = s.channel.right := by
  obtain ⟨o₁, call₁, ho₁, hat₁, -, hcall₁, hshort₁, hf₁, hevs₁⟩ :=
    (Channel.at_make (fun _ => 0) 3 4 ()).handle_left 3 (zeros CHUNK_SZ (Nat.le_refl _)) BUFF_SZ
      (0, false) (65535, 65535) 0 65535 false 65535 (by decide) List.length_replicate (by decide)
      (by decide) (by decide) (by decide) (decide_eq_false (by decide))
  obtain ⟨o₂, call₂, ho₂, hat₂, -, hcall₂, hshort₂, hf₂, hevs₂⟩ :=
    hat₁.handle_left 3 (zeros CHUNK_SZ (Nat.le_refl _)) 1
      (65535, false) (131070, 0) 65535 65535 false 65536 (by decide) List.length_replicate
      (by decide) (by decide) (by decide) (by decide) (decide_eq_true (by decide))
  obtain ⟨o₃, call₃, ho₃, hat₃, -, hcall₃, hshort₃, hf₃, hevs₃⟩ :=
    hat₂.handle_left 3 (zeros 10 (by decide)) BUFF_SZ
      (0, false) (131070, 10) 65536 65534 false 0 (by decide) List.length_replicate
      (by decide) (by decide) (by decide) (by decide) (decide_eq_false (by decide))
  obtain ⟨s₁, h₁, hc₁, -, -, hq₁, hr₁⟩ :=
    Wired.step_left (s := Wired.start (Channel.make (fun _ => 0) 3 4 [] ())) ho₁ hcall₁ hshort₁ hf₁
      hevs₁
  rw [← hc₁] at ho₂ hat₁
  obtain ⟨s₂, h₂, hc₂, -, -, hq₂, hr₂⟩ := Wired.step_left ho₂ hcall₂ hshort₂ hf₂ hevs₂
  rw [← hc₂] at ho₃ hat₂
  obtain ⟨s₃, h₃, hc₃, hlast, hfailed, hq₃, hr₃⟩ := Wired.step_left ho₃ hcall₃ hshort₃ hf₃ hevs₃
  rw [← hc₃] at hat₃
  obtain ⟨-, -, hright, data, hbuf⟩ := hat₃
  have hqueue : s₃.queue = [⟨3, Flags.out⟩] := by simpa [hq₂, hq₁, Wired.start] using hq₃
  have hretries : s₃.retries = [3] := by simpa [hr₂, hr₁, Wired.start] using hr₃
  refine ⟨s₃, ⟨⟨rfl, trivial⟩, fun t₁ ht₁ => ?_⟩, ?_, hfailed, fun hawaited => ?_, fun hall => ?_⟩
  · obtain rfl := Option.some.inj (h₁.symm.trans ht₁)
    refine ⟨⟨hat₁.left.symm, trivial⟩, fun t₂ ht₂ => ?_⟩
    obtain rfl := Option.some.inj (h₂.symm.trans ht₂)
    exact ⟨⟨hat₂.left.symm, trivial⟩, fun _ _ => trivial⟩
  · rw [strandingRun, run_cons, h₁, Option.bind_some, run_cons, h₂, Option.bind_some, run_cons, h₃]
    rfl
  · have hheld : s₃.channel.buffer.held ≠ [] := by
      rw [hbuf]
      exact List.cons_ne_nil _ _
    rcases hawaited hheld with hshort | ⟨ev, hmem, hfd, -⟩
    · exact absurd (hlast.symm.trans hshort) (by decide)
    · rw [hqueue, List.mem_singleton] at hmem
      rw [hmem, hright] at hfd
      exact absurd hfd (by decide)
  · have h34 := hall 3 (by simp [hretries])
    rw [hright] at h34
    exact absurd h34 (by decide)

end Io
end PsqlTcpProxy
