import PsqlTcpProxy.Io.ChannelStranded

/-!
# Input that nobody reads

An edge-triggered bus reports a readable socket once.  The left handler answers
with one read of at most `CHUNK_SZ` bytes, or with none when the buffer has no
room, and nothing makes it come back for the rest: neither the read nor the
write that makes room enqueues an `in` event.  The acceptor, which is on the same
bus, does (`EPOLLET workaround`).

`Polled` is a channel together with the unread bytes of its left socket.
`run_loses_readiness` is a run that leaves a byte unread for ever;
`readiness_kept` is what the code does guarantee: nothing is lost while the last
`in` event due finds room for a chunk and no more than a chunk to read.
-/

namespace PsqlTcpProxy
namespace Io

open Library

variable {η : Type}

/-! ## A channel and its left socket -/

/-- A channel, the event queue of its bus, and the state of its left socket. -/
structure Polled (η : Type) where
  channel : Channel η
  /-- `bus::_events` -/
  queue : List Event
  /-- The bytes that have arrived at the left socket and are unread. -/
  unread : List UInt8
  /-- An `in` edge of the left socket is undelivered. -/
  inEdge : Bool

/-- Where the bus has an event from. -/
inductive Source where
  /-- The batch epoll returned. -/
  | epoll
  /-- `bus::_events` -/
  | queue

/-- What can happen to a channel and its left socket. -/
inductive SocketEvent where
  /-- Bytes arrive at the left socket. -/
  | arrive (bytes : List UInt8)
  /-- The bus calls the left handler. -/
  | left (source : Source) (fd : FileDescriptor) (mask : Flags)
      (write : (offered : List UInt8) → WriteResult offered.length)
  /-- The bus calls the right handler. -/
  | right (source : Source) (fd : FileDescriptor) (mask : Flags)
      (write : (offered : List UInt8) → WriteResult offered.length)
  /-- The event at the front of the queue is for other descriptors. -/
  | foreign
  /-- Another callback enqueues an event. -/
  | post (ev : Event)

/-- A read of `min(available, CHUNK_SZ)` bytes. -/
def available (unread : List UInt8) : ReadResult CHUNK_SZ :=
  .success ⟨unread.take CHUNK_SZ, List.length_take_le _ _⟩

namespace Polled

/-- Nothing has arrived yet. -/
def start (c : Channel η) : Polled η := ⟨c, [], [], false⟩

/-- What the bus and the socket do before a handler runs.  When left and right
are one descriptor, the left handler is the first to be called for a queued
event, and the right one is called for the same event. -/
def consume (s : Polled η) : SocketEvent → Polled η
  | .arrive bytes => { s with unread := s.unread ++ bytes, inEdge := true }
  | .left .epoll _ mask _ => { s with inEdge := s.inEdge && !mask.test Flags.in' }
  | .left .queue .. => { s with queue := s.queue.tail }
  | .right .epoll .. => s
  | .right .queue .. =>
    if s.channel.left = s.channel.right then s else { s with queue := s.queue.tail }
  | .foreign => { s with queue := s.queue.tail }
  | .post ev => { s with queue := s.queue ++ [ev] }

/-- The state after a handler has run. -/
def after (s : Polled η) (o : Outcome η) : Polled η :=
  { s with
    channel := o.channel
    queue := s.queue ++ o.events
    unread := s.unread.drop o.received.length }

/-- One event. -/
def step (s : Polled η) (e : SocketEvent) : Option (Polled η) :=
  match e with
  | .left _ fd mask write =>
    (s.channel.handleLeftIoEvent fd mask (available s.unread) write).map (s.consume e).after
  | .right _ fd mask write =>
    (s.channel.handleRightIoEvent fd mask write).map (s.consume e).after
  | .arrive _ | .foreign | .post _ => some (s.consume e)

/-- The events an edge-triggered bus delivers: `in` is reported for the left
socket only when an edge is undelivered. -/
def Allowed (s : Polled η) : SocketEvent → Prop
  | .arrive bytes => bytes ≠ []
  | .left .epoll fd mask _ => fd = s.channel.left ∧ (mask.test Flags.in' = true → s.inEdge = true)
  | .left .queue fd mask _ => fd = s.channel.left ∧ s.queue.head? = some ⟨fd, mask⟩
  | .right .epoll fd _ _ => fd = s.channel.right
  | .right .queue fd mask _ => fd = s.channel.right ∧
      (s.channel.left ≠ s.channel.right → s.queue.head? = some ⟨fd, mask⟩)
  | .foreign => ∃ ev, s.queue.head? = some ev ∧ ev.fd ≠ s.channel.left ∧ ev.fd ≠ s.channel.right
  | .post _ => True

/-- An `in` event of the left socket is due. -/
def Armed (s : Polled η) : Prop :=
  s.inEdge = true ∨ ∃ ev ∈ s.queue, ev.fd = s.channel.left ∧ ev.flags.test Flags.in' = true

/-- The buffer has contiguous room for a chunk. -/
def HasRoom (s : Polled η) : Prop := (s.channel.buffer.writeAcquire CHUNK_SZ).1 ≠ none

/-- **No readiness is lost.**  With no `in` event due, everything has been read
or there is no room to read. -/
def ReadinessKept (s : Polled η) : Prop := ¬ s.Armed → s.unread = [] ∨ ¬ s.HasRoom

/-- The condition on one event: an `in` event that is the last one due finds all
there is to read within one chunk, and room for a chunk. -/
def LastReadOk (s : Polled η) (e : SocketEvent) : Prop :=
  match e with
  | .left _ _ mask _ => mask.test Flags.in' = true →
      (s.consume e).Armed ∨ s.unread = [] ∨ (s.unread.length ≤ CHUNK_SZ ∧ s.HasRoom)
  | _ => True

end Polled

/-! ## When no readiness is lost -/

namespace Channel

/-- What the read takes from the socket: all the read returned when there is
room for a chunk. -/
theorem readPart_received {c : Channel η} {fd : FileDescriptor} {read : ReadResult CHUNK_SZ}
    {o : Outcome η} (hroom : (c.buffer.writeAcquire CHUNK_SZ).1 ≠ none)
    (h : c.readPart fd read = some o) : o.received = read.toInput.bytes := by
  obtain ⟨b, ⟨hfull, -⟩ | ⟨err, rfl, rfl⟩ | ⟨bytes, rfl, rfl⟩⟩ := readPart_inv h
  · exact absurd hfull hroom
  · rfl
  · rfl

/-- The handlers of a channel keep its descriptors. -/
theorem handle_keeps {c : Channel η} (hc : c.Sound) {e : ChannelEvent} {o : Outcome η}
    (h : c.handle e = some o) : o.channel.left = c.left ∧ o.channel.right = c.right := by
  cases e with
  | left fd mask read write =>
    simp only [handle, handleLeftIoEvent] at h
    split at h
    · obtain ⟨o₁, ho₁, h⟩ := Option.bind_eq_some_iff.mp h
      obtain ⟨hright, hleft, -⟩ := readPart_right ho₁
      split at h
      · obtain rfl := Option.some.inj h
        exact ⟨hleft, hright⟩
      · obtain ⟨o₂, ho₂, rfl⟩ := Option.map_eq_some_iff.mp h
        obtain ⟨o', ho', hsound, -⟩ := readPart_correct hc fd read
        obtain rfl := Option.some.inj (ho'.symm.trans ho₁)
        obtain ⟨hright₂, hleft₂, -⟩ := writePart_cases hsound ho₂
        exact ⟨hleft₂.trans hleft, hright₂.trans hright⟩
    · obtain rfl := Option.some.inj h
      exact ⟨rfl, rfl⟩
  | right fd mask write =>
    simp only [handle, handleRightIoEvent] at h
    split at h
    · obtain ⟨hright, hleft, -⟩ := writePart_cases hc h
      exact ⟨hleft, hright⟩
    · obtain rfl := Option.some.inj h
      exact ⟨rfl, rfl⟩

/-- A left event with `in` takes what the read part takes. -/
theorem handleLeft_received {c : Channel η} {fd : FileDescriptor} {mask : Flags}
    {read : ReadResult CHUNK_SZ} {write : (offered : List UInt8) → WriteResult offered.length}
    {o : Outcome η} (hin : mask.test Flags.in' = true)
    (h : c.handleLeftIoEvent fd mask read write = some o) :
    ∃ o₁, c.readPart fd read = some o₁ ∧ o.received = o₁.received := by
  simp only [handleLeftIoEvent, if_pos hin] at h
  obtain ⟨o₁, ho₁, h⟩ := Option.bind_eq_some_iff.mp h
  refine ⟨o₁, ho₁, ?_⟩
  split at h
  · obtain rfl := Option.some.inj h
    rfl
  · obtain ⟨o₂, -, rfl⟩ := Option.map_eq_some_iff.mp h
    rfl

end Channel

namespace Polled

/-- The invariant of a run that meets the condition. -/
structure Watched (s : Polled η) : Prop where
  sound : s.channel.Sound
  read : ¬ s.Armed → s.unread = []

theorem Watched.readinessKept {s : Polled η} (h : s.Watched) : s.ReadinessKept :=
  fun hidle => Or.inl (h.read hidle)

@[simp] theorem consume_channel (s : Polled η) (e : SocketEvent) :
    (s.consume e).channel = s.channel := by
  rcases e with bytes | ⟨_ | _, fd, mask, write⟩ | ⟨_ | _, fd, mask, write⟩ | _ | ev
  case right.queue =>
    simp only [consume]
    split <;> rfl
  all_goals rfl

/-- An event of the left descriptor stays in the queue when an event of another
one is taken from its front. -/
theorem armed_tail {s : Polled η} {ev : Event} (hhead : s.queue.head? = some ev)
    (hne : ev.fd ≠ s.channel.left) (h : s.Armed) :
    ({ s with queue := s.queue.tail } : Polled η).Armed := by
  rcases h with hedge | ⟨ev', hmem, hfd, hin⟩
  · exact Or.inl hedge
  · obtain ⟨evs, hq⟩ := List.head?_eq_some_iff.mp hhead
    rw [hq] at hmem
    rcases List.mem_cons.mp hmem with rfl | hmem
    · exact absurd hfd hne
    · exact Or.inr ⟨ev', by rw [hq]; exact hmem, hfd, hin⟩

/-- Only a left event with `in` can take the last `in` event due. -/
theorem armed_consume {s : Polled η} {e : SocketEvent} (hallowed : s.Allowed e)
    (hleft : ∀ source fd mask write, e = .left source fd mask write →
      mask.test Flags.in' = false) (h : s.Armed) : (s.consume e).Armed := by
  rcases e with bytes | ⟨_ | _, fd, mask, write⟩ | ⟨_ | _, fd, mask, write⟩ | _ | ev
  · exact Or.inl rfl
  · have := hleft _ _ _ _ rfl
    simpa [consume, Armed, this] using h
  · obtain ⟨hfd, hhead⟩ := hallowed
    rcases h with hedge | ⟨ev', hmem, hfd', hin⟩
    · exact Or.inl hedge
    · obtain ⟨evs, hq⟩ := List.head?_eq_some_iff.mp hhead
      rw [hq] at hmem
      rcases List.mem_cons.mp hmem with rfl | hmem
      · exact absurd hin (by rw [hleft _ _ _ _ rfl]; decide)
      · exact Or.inr ⟨ev', by rw [consume, hq]; exact hmem, hfd', hin⟩
  · exact h
  · simp only [consume]
    split
    · exact h
    · rename_i hne
      refine armed_tail (hallowed.2 hne) ?_ h
      rw [hallowed.1]
      exact fun heq => hne heq.symm
  · obtain ⟨ev, hhead, hne, -⟩ := hallowed
    exact armed_tail hhead hne h
  · rcases h with hedge | ⟨ev', hmem, hfd, hin⟩
    · exact Or.inl hedge
    · exact Or.inr ⟨ev', List.mem_append_left _ hmem, hfd, hin⟩

/-- A handler adds events and takes unread bytes. -/
theorem Watched.after {s t : Polled η} {o : Outcome η} (hsound : o.channel.Sound)
    (hleft : o.channel.left = s.channel.left)
    (hread : ¬ s.Armed → s.unread.drop o.received.length = []) (ht : s.after o = t) :
    t.Watched := by
  subst ht
  refine ⟨hsound, fun hidle => hread fun harmed => hidle ?_⟩
  rcases harmed with hedge | ⟨ev, hmem, hfd, hin⟩
  · exact Or.inl hedge
  · exact Or.inr ⟨ev, List.mem_append_left _ hmem, hfd.trans hleft.symm, hin⟩

theorem consume_unread {s : Polled η} {e : SocketEvent} (he : ∀ bytes, e ≠ .arrive bytes) :
    (s.consume e).unread = s.unread := by
  rcases e with bytes | ⟨_ | _, fd, mask, write⟩ | ⟨_ | _, fd, mask, write⟩ | _ | ev
  case arrive => exact absurd rfl (he bytes)
  case right.queue =>
    simp only [consume]
    split <;> rfl
  all_goals rfl

/-- **One event under the condition.** -/
theorem watched_step (s : Polled η) (e : SocketEvent) (t : Polled η) (h : s.Watched)
    (hok : s.Allowed e ∧ s.LastReadOk e) (hstep : s.step e = some t) : t.Watched := by
  obtain ⟨hallowed, hok⟩ := hok
  cases e with
  | arrive bytes =>
    obtain rfl := Option.some.inj hstep
    exact ⟨h.sound, fun hidle => absurd (Or.inl rfl) hidle⟩
  | left source fd mask write =>
    obtain ⟨o, ho, ht⟩ := Option.map_eq_some_iff.mp hstep
    obtain ⟨o', ho', hsound, -⟩ :=
      Channel.handle_correct h.sound (.left fd mask (available s.unread) write)
    obtain rfl := Option.some.inj (ho'.symm.trans ho)
    obtain ⟨hleft, -⟩ := Channel.handle_keeps h.sound ho'
    refine Watched.after hsound (by rw [consume_channel]; exact hleft) (fun hidle => ?_) ht
    rw [consume_unread (by simp)]
    rcases hin : mask.test Flags.in' with _ | _
    · -- the handler does nothing, and what was due is still due
      have hnil := h.read fun harmed => hidle <| armed_consume hallowed
        (fun _ _ _ _ heq => by
          obtain ⟨-, -, rfl, -⟩ : _ ∧ _ ∧ mask = _ ∧ _ := by simpa using heq
          exact hin) harmed
      rw [hnil, List.drop_nil]
    · rcases hok hin with harmed | hnil | ⟨hlen, hroom⟩
      · exact absurd harmed hidle
      · rw [hnil, List.drop_nil]
      · obtain ⟨o₁, ho₁, hrecv⟩ := Channel.handleLeft_received hin ho
        rw [hrecv, Channel.readPart_received hroom ho₁]
        refine List.drop_eq_nil_of_le ?_
        simp [available, ReadResult.toInput, ResultType.bytes, hlen]
  | right source fd mask write =>
    obtain ⟨o, ho, ht⟩ := Option.map_eq_some_iff.mp hstep
    obtain ⟨o', ho', hsound, -⟩ := Channel.handle_correct h.sound (.right fd mask write)
    obtain rfl := Option.some.inj (ho'.symm.trans ho)
    obtain ⟨hleft, -⟩ := Channel.handle_keeps h.sound ho'
    refine Watched.after hsound (by rw [consume_channel]; exact hleft) (fun hidle => ?_) ht
    rw [consume_unread (by simp), h.read fun harmed =>
      hidle (armed_consume hallowed (by simp) harmed), List.drop_nil]
  | foreign =>
    obtain rfl := Option.some.inj hstep
    exact ⟨h.sound, fun hidle => h.read fun harmed =>
      hidle (armed_consume hallowed (by simp) harmed)⟩
  | post ev =>
    obtain rfl := Option.some.inj hstep
    exact ⟨h.sound, fun hidle => h.read fun harmed =>
      hidle (armed_consume hallowed (by simp) harmed)⟩

end Polled

/-- **No readiness is lost in a run whose last reads are complete.** -/
theorem readiness_kept (data : ℕ → UInt8) (left right : FileDescriptor)
    (handlers : List (InputCallback η)) (h : η) (es : List SocketEvent) (s : Polled η)
    (hmeets : Meets Polled.step (fun s e => s.Allowed e ∧ s.LastReadOk e)
      (Polled.start (Channel.make data left right handlers h)) es)
    (hrun : run Polled.step (Polled.start (Channel.make data left right handlers h)) es = some s) :
    s.ReadinessKept := by
  refine (run_invariant Polled.watched_step ?_ hmeets hrun).readinessKept
  exact ⟨Channel.sound_make data left right handlers h, fun _ => rfl⟩

/-- Two bytes that arrive and are relayed at once. -/
def arrivalRun : List SocketEvent := [.arrive [1, 2], .left .epoll 3 Flags.in' (acceptUpTo 2)]

theorem readiness_kept_arrival : ∃ s : Polled Unit,
    run Polled.step (Polled.start (Channel.make (fun _ => 0) 3 4 [] ())) arrivalRun = some s ∧
      s.ReadinessKept := by
  refine ⟨_, rfl, readiness_kept (fun _ => 0) 3 4 [] () arrivalRun _ ?_ rfl⟩
  refine ⟨⟨List.cons_ne_nil _ _, trivial⟩, fun s₁ h₁ => ?_⟩
  obtain rfl := Option.some.inj h₁
  refine ⟨⟨⟨rfl, fun _ => rfl⟩, fun _ => Or.inr (Or.inr ⟨by decide, ?_⟩)⟩, fun _ _ => trivial⟩
  exact Option.some_ne_none 0

/-! ## A run that loses readiness -/

/-- One byte more than a chunk arrives at descriptor 3 at once, and descriptor 4
accepts all it is offered. -/
def oversizedRun : List SocketEvent :=
  [.arrive (List.replicate (CHUNK_SZ + 1) 0), .left .epoll 3 Flags.in' (acceptUpTo BUFF_SZ)]

/-- **A run that loses readiness.**  The edge is consumed by a read of one chunk;
the last byte stays in the socket with an empty buffer and nothing due. -/
theorem run_loses_readiness : ∃ s : Polled Unit,
    Meets Polled.step Polled.Allowed (Polled.start (Channel.make (fun _ => 0) 3 4 [] ()))
      oversizedRun ∧
    run Polled.step (Polled.start (Channel.make (fun _ => 0) 3 4 [] ())) oversizedRun = some s ∧
    ¬ s.ReadinessKept := by
  obtain ⟨bytes, hbytes⟩ : ∃ bytes : List UInt8, bytes = List.replicate (CHUNK_SZ + 1) 0 := ⟨_, rfl⟩
  have hsize : bytes.length = CHUNK_SZ + 1 := by rw [hbytes, List.length_replicate]
  have hlen : (bytes.take CHUNK_SZ).length = CHUNK_SZ := by
    rw [List.length_take, hsize]
    exact Nat.min_eq_left (Nat.le_succ _)
  rw [oversizedRun, ← hbytes]
  obtain ⟨o, -, ho, hat, hrecv, -, -, -, hevs⟩ :=
    (Channel.at_make (fun _ => 0) 3 4 ()).handle_left 3
      ⟨bytes.take CHUNK_SZ, List.length_take_le _ _⟩ BUFF_SZ
      (0, false) (65535, 65535) 0 65535 false 65535 (by decide) hlen (by decide)
      (by decide) (by decide) (by decide) (decide_eq_false (by decide))
  let s₁ : Polled Unit := ⟨Channel.make (fun _ => 0) 3 4 [] (), [], bytes, true⟩
  let s₂ : Polled Unit := (s₁.consume (.left .epoll 3 Flags.in' (acceptUpTo BUFF_SZ))).after o
  have h₁ : (Polled.start (Channel.make (fun _ => 0) 3 4 [] ())).step (.arrive bytes) = some s₁ :=
    rfl
  have h₂ : s₁.step (.left .epoll 3 Flags.in' (acceptUpTo BUFF_SZ)) = some s₂ :=
    congrArg (Option.map _) ho
  refine ⟨s₂, ⟨fun hnil => ?_, fun t ht => ?_⟩, ?_, fun hkept => ?_⟩
  · rw [hnil] at hsize
    exact absurd hsize (by decide)
  · obtain rfl := Option.some.inj (h₁.symm.trans ht)
    exact ⟨⟨rfl, fun _ => rfl⟩, fun _ _ => trivial⟩
  · rw [run_cons, h₁, Option.bind_some, run_cons, h₂]
    rfl
  · have hunread : s₂.unread.length = 1 := by
      show (bytes.drop o.received.length).length = 1
      rw [hrecv, hlen, List.length_drop, hsize]
      exact Nat.add_sub_cancel_left _ _
    have hidle : ¬ s₂.Armed := by
      rintro (hedge | ⟨ev, hmem, -⟩)
      · exact Bool.false_ne_true hedge
      · have hqueue : s₂.queue = [] := by rw [← List.nil_append s₂.queue]; exact hevs
        rw [hqueue] at hmem
        exact absurd hmem List.not_mem_nil
    obtain ⟨-, -, -, data, hbuf⟩ := hat
    rcases hkept hidle with hnil | hroom
    · rw [hnil] at hunread
      exact absurd hunread (by decide)
    · have hacq : acquireAt BUFF_SZ 65535 65535 CHUNK_SZ = some (65535, false) := by decide
      refine hroom ?_
      show (o.channel.buffer.writeAcquire CHUNK_SZ).1 ≠ none
      rw [hbuf, BipartiteBuffer.writeAcquire, hacq]
      exact Option.some_ne_none 65535

end Io
end PsqlTcpProxy
