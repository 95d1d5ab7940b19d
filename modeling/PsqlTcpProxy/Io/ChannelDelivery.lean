import PsqlTcpProxy.Io.ChannelPrompt

/-!
# When the bytes get through

Neither handler loops: an event makes one write, of the first region the buffer
offers, and the right object takes what it likes of it.  So how long a byte waits
is counted in events.  `received_delivered` counts by the byte: after as many
events that write something as there are bytes in the buffer, all of these are
accepted.  `received_delivered_whole` counts by the region: two events that write
all they are offered are enough, however much is held, since the buffer never
consists of more than two regions.

In both the events that count may be mixed with any others, which read, fail or
write in part.  They cannot make a byte wait longer: what they put into the buffer
lies behind it (`front_write`), and what they take out brings its turn nearer
(`front_read`).
-/

namespace PsqlTcpProxy
namespace Io

open Library

variable {η : Type}

/-! ## The region offered first -/

namespace BipartiteBuffer

variable {α : Type*} {size n p len k : ℕ} {b b₁ b₂ : BipartiteBuffer α size}

/-- The length of the region the next read is offered. -/
def front (b : BipartiteBuffer α size) : ℕ := (readAt b.r b.w b.i).2.1

theorem readAcquire_front (b : BipartiteBuffer α size) : b.readAcquire.2.1 = b.front := by
  unfold readAcquire front
  rcases readAt b.r b.w b.i with ⟨p, len, _ | _⟩ <;> rfl

theorem front_of_le (h : b.r ≤ b.w) : b.front = b.w - b.r := by
  unfold front readAt
  rcases Nat.lt_or_eq_of_le h with hlt | heq
  · rw [if_neg (Nat.ne_of_lt hlt), if_pos hlt]
  · rw [if_pos heq, heq, Nat.sub_self]

theorem front_of_lt (h : b.w < b.r) : b.front = if b.r = b.i then b.w else b.i - b.r := by
  unfold front readAt
  rw [if_neg (Nat.ne_of_gt h), if_neg (Nat.not_lt.mpr (Nat.le_of_lt h))]
  split <;> rfl

/-- One region is offered whole. -/
theorem front_of_oneRegion (hone : b.OneRegion) : b.front = b.held.length := by
  rw [held_eq, heldAt]
  rcases Nat.lt_or_ge b.w b.r with hwr | hle
  · rw [front_of_lt hwr, if_neg (Nat.not_le.mpr hwr), List.length_append, length_region,
      length_region]
    rcases hone with hle | hri | hzero
    · omega
    · rw [if_pos hri, hri, Nat.sub_self, Nat.zero_add]
    · rw [hzero]
      split <;> omega
  · rw [front_of_le hle, if_pos hle, length_region]

/-- **A write leaves the first region where it is**, or makes it longer. -/
theorem front_write (hb : b.Wf) (hf : b.FlagFor n) (hacq : b.writeAcquire n = (some p, b₁))
    {xs : List α} (hxs : xs.length ≤ n)
    (hrel : (b₁.store p xs).writeRelease xs.length = some b₂) : b.front ≤ b₂.front := by
  rcases write_cases hb hf hacq hxs with ⟨-, hroom, hrel'⟩ | ⟨-, hroom, -, hrel'⟩
  · obtain rfl := Option.some.inj (hrel'.symm.trans hrel)
    have hsize := hroom.le_size
    rcases Nat.lt_or_ge b.w b.r with hwr | hle
    · have hlt := hroom.lt_read hwr
      have hri := hb.r_le_i hwr
      have hr := hb.r_lt
      have hmax : max b.i (b.w + xs.length) = b.i := by omega
      rw [front_of_lt hwr, front_of_lt (by
        show (if b.w + xs.length = size then 0 else b.w + xs.length) < b.r
        rw [if_neg (by omega)]
        exact hlt)]
      show (if b.r = b.i then b.w else b.i - b.r) ≤
        if b.r = max b.i (b.w + xs.length) then
          (if b.w + xs.length = size then 0 else b.w + xs.length)
        else max b.i (b.w + xs.length) - b.r
      rw [hmax, if_neg (show ¬ b.w + xs.length = size by omega)]
      split <;> omega
    · rw [front_of_le hle]
      by_cases hfull : b.w + xs.length = size
      · -- the write index returns to the front, and the region ends with the array
        have hpos := hroom.pos_of_full hle hfull
        have hi := hb.i_le
        have hr := hb.r_lt
        have hmax : max b.i (b.w + xs.length) = size := by omega
        rw [front_of_lt (by
          show (if b.w + xs.length = size then 0 else b.w + xs.length) < b.r
          rw [if_pos hfull]
          exact hpos)]
        show b.w - b.r ≤ if b.r = max b.i (b.w + xs.length) then
            (if b.w + xs.length = size then 0 else b.w + xs.length)
          else max b.i (b.w + xs.length) - b.r
        rw [hmax, if_neg (Nat.ne_of_lt hr)]
        omega
      · rw [front_of_le (by
          show b.r ≤ if b.w + xs.length = size then 0 else b.w + xs.length
          rw [if_neg hfull]
          omega)]
        show b.w - b.r ≤ (if b.w + xs.length = size then 0 else b.w + xs.length) - b.r
        rw [if_neg hfull]
        omega
  · obtain rfl := Option.some.inj (hrel'.symm.trans hrel)
    have hle := hroom.le_write
    have hlt := hroom.lt_read
    have hmax : max b.w (0 + xs.length) = b.w := by omega
    rw [front_of_le hle, front_of_lt (by
      show (if 0 + xs.length = size then 0 else 0 + xs.length) < b.r
      split <;> omega)]
    show b.w - b.r ≤ if b.r = max b.w (0 + xs.length) then
        (if 0 + xs.length = size then 0 else 0 + xs.length)
      else max b.w (0 + xs.length) - b.r
    rw [hmax]
    split <;> omega

/-- **A read takes the first region from its front**; when it takes all of it, what
is left is one region. -/
theorem front_read (hb : b.Wf) (hacq : b.readAcquire = (some p, len, b₁)) (hpos : 0 < len)
    (hk : k ≤ len) (hrel : b₁.readRelease k = some b₂) :
    b.front ≤ k + b₂.front ∧ (k = b.front → b₂.OneRegion) := by
  have hlen : len = b.front := by rw [← readAcquire_front, hacq]
  rcases readAcquire_cases hb with
    ⟨p', b', h, -⟩ | ⟨p', len', b', h, -, -, hr, hw, hi, -, hoff⟩
  · rw [h] at hacq
    simp only [Prod.mk.injEq] at hacq
    omega
  · rw [h] at hacq
    obtain ⟨rfl, rfl, rfl⟩ : p' = p ∧ len' = len ∧ b' = b₁ := by simpa using hacq
    obtain ⟨r', hr', rfl⟩ := Option.map_eq_some_iff.mp hrel
    obtain ⟨-, hbehind, hbefore, hinvalid⟩ := hoff
    have hwlt := hb.w_lt
    have hile := hb.i_le
    simp only [readReleaseAt, hr, Option.ite_none_right_eq_some, Option.some.injEq] at hr'
    obtain ⟨-, hr'⟩ := hr'
    -- the buffer after the read, by the indexes it has
    obtain ⟨b₃, hb₃⟩ : ∃ b₃ : BipartiteBuffer α size,
        b₃ = { b' with readWrapped := false, r := r' } := ⟨_, rfl⟩
    have hr₃ : b₃.r = r' := congrArg BipartiteBuffer.r hb₃
    have hw₃ : b₃.w = b.w := (congrArg BipartiteBuffer.w hb₃).trans hw
    have hi₃ : b₃.i = b.i := (congrArg BipartiteBuffer.i hb₃).trans hi
    rw [← hb₃]
    unfold OneRegion
    rcases hwrapped : b'.readWrapped with _ | _
    · simp only [hwrapped, Bool.false_eq_true, if_false] at hr'
      rcases Nat.lt_or_ge b.w b.r with hwr | hle
      · have hend := hbefore hwrapped hwr
        rw [front_of_lt hwr, if_neg (show ¬ b.r = b.i by omega)] at hlen ⊢
        by_cases hsize : b.r + k = size
        · rw [if_pos hsize] at hr'
          rw [front_of_le (b := b₃) (by omega)]
          omega
        · rw [if_neg hsize] at hr'
          rw [front_of_lt (b := b₃) (by omega)]
          split <;> omega
      · have hend := hbehind hwrapped hle
        rw [if_neg (by omega)] at hr'
        rw [front_of_le hle, front_of_le (b := b₃) (by omega)]
        omega
    · obtain ⟨hwr, hri, -⟩ := hinvalid hwrapped
      rw [front_of_lt hwr, if_pos hri] at hlen ⊢
      simp only [hwrapped, if_true] at hr'
      rw [if_neg (by omega)] at hr'
      rw [front_of_le (b := b₃) (by omega)]
      omega

end BipartiteBuffer

/-! ## What one event does to it -/

/-- A write that takes something of whatever it is offered. -/
def Accepts (write : (offered : List UInt8) → WriteResult offered.length) : Prop :=
  ∀ offered, offered ≠ [] → ∃ n, write offered = .success n ∧ 0 < (n : ℕ)

/-- A write that takes all it is offered. -/
def AcceptsAll (write : (offered : List UInt8) → WriteResult offered.length) : Prop :=
  ∀ offered, write offered = .success (Fin.last offered.length)

/-- The event reaches its handler's write, and the write is such: a left event reads
first, and no input callback may throw. -/
def ChannelEvent.Reaches (handlers : List (InputCallback η))
    (P : ((offered : List UInt8) → WriteResult offered.length) → Prop) : ChannelEvent → Prop
  | .left _ mask _ write => Steady handlers ∧ mask.test Flags.in' = true ∧ P write
  | .right _ mask write => mask.test Flags.out = true ∧ P write

namespace Channel

variable {c : Channel η} {fd : FileDescriptor} {read : ReadResult CHUNK_SZ}
  {write : (offered : List UInt8) → WriteResult offered.length} {o : Outcome η}

/-- A read leaves the first region where it is, or makes it longer. -/
theorem readPart_front (hc : c.Sound) (h : c.readPart fd read = some o) :
    c.buffer.front ≤ o.channel.buffer.front := by
  have hacquired : (c.buffer.writeAcquire CHUNK_SZ).2.front = c.buffer.front := by
    rcases c.buffer.writeAcquire_cases CHUNK_SZ with hcase | ⟨-, hcase⟩ | ⟨-, hcase⟩
    all_goals rw [hcase]
    all_goals rfl
  unfold readPart at h
  rcases hacq : c.buffer.writeAcquire CHUNK_SZ with ⟨_ | wbuf, b⟩
  · rw [hacq] at h hacquired
    obtain rfl := Option.some.inj h
    exact Nat.le_of_eq hacquired.symm
  · rw [hacq] at h hacquired
    cases read with
    | error err =>
      obtain rfl := Option.some.inj h
      exact Nat.le_of_eq hacquired.symm
    | success bytes =>
      obtain ⟨b', hrel, rfl⟩ := Option.map_eq_some_iff.mp h
      exact BipartiteBuffer.front_write hc.wf hc.flag hacq bytes.2 hrel

/-- The region offered is the first one. -/
theorem length_offer {offered : List UInt8} (h : c.offer = some offered) :
    offered.length = c.buffer.front ∧ offered ≠ [] := by
  have hfront := c.buffer.readAcquire_front
  unfold offer at h
  rcases hacq : c.buffer.readAcquire with ⟨_ | rbuf, len, b⟩
  · rw [hacq] at h
    cases h
  · rw [hacq] at h hfront
    simp only [Option.ite_none_right_eq_some, Option.some.injEq] at h
    obtain ⟨hpos, rfl⟩ := h
    have hlen := length_region b.data rbuf len
    refine ⟨hlen.trans hfront, fun hnil => ?_⟩
    rw [hnil, List.length_nil] at hlen
    omega

/-- Something is offered when something is held. -/
theorem front_eq_zero_iff (hc : c.Sound) : c.buffer.front = 0 ↔ c.buffer.held = [] := by
  rw [← BipartiteBuffer.readAcquire_front]
  rcases BipartiteBuffer.readAcquire_cases hc.wf with
    ⟨p, b, hacq, -, -, hnil, -⟩ | ⟨p, len, b, hacq, hpos, hd, hr, hw, hi, -, hoff⟩
  · rw [hacq]
    exact iff_of_true rfl hnil
  · rw [hacq]
    refine iff_of_false (Nat.ne_of_gt hpos) fun hnil => ?_
    obtain ⟨hreg, -⟩ := BipartiteBuffer.read_correct hc.wf hacq hpos (Nat.le_refl len)
    have hlen := length_region b.data p len
    rw [hreg, hnil, List.take_nil, List.length_nil] at hlen
    omega

/-- **A write takes the first region from its front**: as much as the right object
accepted; when that is all of the region, one region is left. -/
theorem writePart_front (hc : c.Sound) (h : c.writePart fd write = some o) :
    c.buffer.front ≤ o.sent.length + o.channel.buffer.front ∧
      (o.sent.length = c.buffer.front → o.channel.buffer.OneRegion) := by
  have hacquired := c.buffer.readAcquire_front
  unfold writePart at h
  rcases BipartiteBuffer.readAcquire_cases hc.wf with
    ⟨p, b, hacq, hwf, hheld, hnil, hflag⟩ | ⟨p, len, b, hacq, hpos, -, hr, hw, hi, -, -⟩
  · rw [hacq] at h hacquired
    have ho : o = { channel := { c with buffer := b } } := by
      rcases p with _ | p
      · exact (Option.some.inj h).symm
      · exact (Option.some.inj ((if_neg (lt_irrefl 0)).symm.trans h)).symm
    subst ho
    rw [← hacquired]
    exact ⟨Nat.zero_le _, fun _ => oneRegion_of_nil (c := { c with buffer := b })
      ⟨hwf, hflag _ hc.flag⟩ (hheld.trans hnil)⟩
  · rw [hacq] at h hacquired
    simp only [if_pos hpos] at h
    have hlen := length_region b.data p len
    rcases hres : write (region b.data p len) with n | err
    · rw [hres] at h
      obtain ⟨b', hrel, rfl⟩ := Option.map_eq_some_iff.mp h
      have hn := n.2
      obtain ⟨hfront, hone⟩ :=
        BipartiteBuffer.front_read hc.wf hacq hpos (show (n : ℕ) ≤ len by omega) hrel
      have hsent : ((region b.data p len).take n).length = n := by
        rw [List.length_take]
        omega
      exact ⟨hfront.trans (Nat.add_le_add_right (Nat.le_of_eq hsent.symm) _),
        fun hall => hone (hsent.symm.trans hall)⟩
    · rw [hres] at h
      obtain rfl := Option.some.inj h
      have hsame : b.front = c.buffer.front := by
        rw [BipartiteBuffer.front, BipartiteBuffer.front, hr, hw, hi]
      refine ⟨Nat.le_trans (Nat.le_of_eq hsame.symm) (Nat.le_add_left _ _), fun hzero => ?_⟩
      -- nothing was sent, though something was offered
      rw [← hacquired] at hzero
      exact absurd hzero (Nat.ne_of_lt hpos)

/-- A write that accepts something of everything takes at least a byte. -/
theorem writePart_accepts (hc : c.Sound) (hne : c.buffer.held ≠ []) (haccepts : Accepts write)
    (h : c.writePart fd write = some o) : 0 < o.sent.length := by
  obtain ⟨-, -, -, ⟨-, hnil, -⟩ | ⟨offered, hoffer, hcall, -⟩⟩ := writePart_cases hc h
  · exact absurd hnil hne
  · obtain ⟨n, hres, hpos⟩ := haccepts offered (length_offer hoffer).2
    have hn := n.2
    simp only [Outcome.sent, hcall, Option.map_some, Option.getD_some, WriteCall.accepted, hres,
      List.length_take]
    omega

/-- A write that accepts everything takes the first region. -/
theorem writePart_acceptsAll (hc : c.Sound) (haccepts : AcceptsAll write)
    (h : c.writePart fd write = some o) : o.sent.length = c.buffer.front := by
  obtain ⟨-, -, -, ⟨hcall, hnil, -⟩ | ⟨offered, hoffer, hcall, -⟩⟩ := writePart_cases hc h
  · simp only [Outcome.sent, hcall, Option.map_none, Option.getD_none, List.length_nil]
    exact ((front_eq_zero_iff hc).mpr hnil).symm
  · simp only [Outcome.sent, hcall, Option.map_some, Option.getD_some, WriteCall.accepted,
      haccepts offered, Fin.val_last, List.take_length]
    exact (length_offer hoffer).1

/-- **Where an event writes.**  What was held, or more, is there to be written; then the
event does not write, or it makes one write. -/
theorem handle_write (hc : c.Sound) {e : ChannelEvent} (h : c.handle e = some o) :
    ∃ c₁ : Channel η, c₁.Sound ∧ c.buffer.front ≤ c₁.buffer.front ∧
      c.buffer.held <+: c₁.buffer.held ∧
      ((o.channel = c₁ ∧ o.sent = [] ∧ ∀ P, ¬ e.Reaches c.handlers P) ∨
        ∃ fd write o₁, c₁.writePart fd write = some o₁ ∧ o.channel = o₁.channel ∧
          o.sent = o₁.sent ∧ ∀ P, e.Reaches c.handlers P → P write) := by
  cases e with
  | left fd mask read write =>
    simp only [handle, handleLeftIoEvent] at h
    split at h
    · obtain ⟨o₁, ho₁, h⟩ := Option.bind_eq_some_iff.mp h
      obtain ⟨o', ho', hsound, hheld, hsent⟩ := readPart_correct hc fd read
      obtain rfl := Option.some.inj (ho'.symm.trans ho₁)
      refine ⟨o'.channel, hsound, readPart_front hc ho₁, hheld ▸ List.prefix_append _ _, ?_⟩
      split at h
      · rename_i hthrown
        obtain rfl := Option.some.inj h
        refine Or.inl ⟨rfl, hsent, fun P hreach => ?_⟩
        rw [(readPart_handlers ho₁).2 hreach.1] at hthrown
        cases hthrown
      · obtain ⟨o₂, ho₂, rfl⟩ := Option.map_eq_some_iff.mp h
        exact Or.inr ⟨fd, write, o₂, ho₂, rfl, rfl, fun P hreach => hreach.2.2⟩
    · rename_i hin
      obtain rfl := Option.some.inj h
      exact ⟨c, hc, Nat.le_refl _, List.prefix_refl _,
        Or.inl ⟨rfl, rfl, fun P hreach => hin hreach.2.1⟩⟩
  | right fd mask write =>
    simp only [handle, handleRightIoEvent] at h
    refine ⟨c, hc, Nat.le_refl _, List.prefix_refl _, ?_⟩
    split at h
    · exact Or.inr ⟨fd, write, o, h, rfl, rfl, fun P hreach => hreach.2⟩
    · rename_i hout
      obtain rfl := Option.some.inj h
      exact Or.inl ⟨rfl, rfl, fun P hreach => hout hreach.1⟩

/-- No event makes what was offered first wait behind something else. -/
theorem handle_front (hc : c.Sound) {e : ChannelEvent} (h : c.handle e = some o) :
    c.buffer.front ≤ o.sent.length + o.channel.buffer.front := by
  obtain ⟨c₁, hsound, hfront, -, ⟨rfl, -⟩ | ⟨fd, write, o₁, ho₁, hchannel, hsent, -⟩⟩ :=
    handle_write hc h
  · exact Nat.le_trans hfront (Nat.le_add_left _ _)
  · rw [hchannel, hsent]
    exact Nat.le_trans hfront (writePart_front hsound ho₁).1

/-- An event that writes something takes at least a byte. -/
theorem handle_accepts (hc : c.Sound) (hne : c.buffer.held ≠ []) {e : ChannelEvent}
    (hreach : e.Reaches c.handlers Accepts) (h : c.handle e = some o) : 0 < o.sent.length := by
  obtain ⟨c₁, hsound, -, hheld, ⟨-, -, hnot⟩ | ⟨fd, write, o₁, ho₁, -, hsent, hwrite⟩⟩ :=
    handle_write hc h
  · exact absurd hreach (hnot _)
  · rw [hsent]
    refine writePart_accepts hsound (fun hnil => hne ?_) (hwrite _ hreach) ho₁
    rw [hnil] at hheld
    exact List.prefix_nil.mp hheld

/-- An event that writes all it is offered takes the first region, and leaves one. -/
theorem handle_acceptsAll (hc : c.Sound) {e : ChannelEvent}
    (hreach : e.Reaches c.handlers AcceptsAll) (h : c.handle e = some o) :
    c.buffer.front ≤ o.sent.length ∧ o.channel.buffer.OneRegion := by
  obtain ⟨c₁, hsound, hfront, -, ⟨-, -, hnot⟩ | ⟨fd, write, o₁, ho₁, hchannel, hsent, hwrite⟩⟩ :=
    handle_write hc h
  · exact absurd hreach (hnot _)
  · have hall := writePart_acceptsAll hsound (hwrite _ hreach) ho₁
    rw [hchannel, hsent]
    exact ⟨hall ▸ hfront, (writePart_front hsound ho₁).2 hall⟩

end Channel

/-! ## Runs -/

namespace Flow

variable {f f' : Flow η}

/-- The handlers are those the channel was made with, the stream is intact, and `received`
has come in. -/
structure Carrying (handlers : List (InputCallback η)) (received : List UInt8) (f : Flow η) :
    Prop where
  intact : f.Intact
  handlers : f.channel.handlers = handlers
  came : received <+: f.received

/-- The bytes of `received` that are still to be accepted. -/
def pending (received : List UInt8) (f : Flow η) : ℕ := received.length - f.accepted.length

variable {handlers : List (InputCallback η)} {received : List UInt8}

theorem Carrying.step (h : f.Carrying handlers received) {e : ChannelEvent}
    (hstep : f.step e = some f') : f'.Carrying handlers received := by
  obtain ⟨f'', hstep', hintact⟩ := f.step_intact e h.intact
  obtain rfl := Option.some.inj (hstep'.symm.trans hstep)
  obtain ⟨o, ho, rfl⟩ := Option.map_eq_some_iff.mp hstep
  exact ⟨hintact, (Channel.handle_handlers ho).trans h.handlers,
    h.came.trans (List.prefix_append _ _)⟩

/-- Nothing pending: all of it was accepted. -/
theorem Carrying.delivered (h : f.Carrying handlers received) (hzero : f.pending received = 0) :
    received <+: f.accepted := by
  have hle : received.length ≤ f.accepted.length := Nat.sub_eq_zero_iff_le.mp hzero
  have haccepted : f.accepted <+: f.received := ⟨_, h.intact.stream⟩
  exact List.prefix_of_prefix_length_le h.came haccepted hle

/-- What is pending is held. -/
theorem Carrying.pending_le (h : f.Carrying handlers received) :
    f.pending received ≤ f.channel.buffer.held.length := by
  have hlen := congrArg List.length h.intact.stream
  have hcame := h.came.length_le
  rw [List.length_append] at hlen
  unfold pending
  omega

/-- What a step takes is what its handler sent. -/
theorem pending_step {e : ChannelEvent} (received : List UInt8)
    (hstep : f.step e = some f') : ∃ o, f.channel.handle e = some o ∧ f'.channel = o.channel ∧
      f'.pending received = f.pending received - o.sent.length := by
  obtain ⟨o, ho, rfl⟩ := Option.map_eq_some_iff.mp hstep
  refine ⟨o, ho, rfl, ?_⟩
  unfold pending
  rw [show (f.after o).accepted = f.accepted ++ o.sent from rfl, List.length_append]
  omega

/-- **Delivery by a measure.**  If every event of one kind brings the measure down while
something is pending, and no event raises it, then as many events of the kind as the
measure says deliver everything. -/
theorem Carrying.delivered_by (h : f.Carrying handlers received) (P : ChannelEvent → Prop)
    (rank : Flow η → ℕ) (hzero : ∀ s, rank s = 0 → s.pending received = 0)
    (hrank : ∀ s e s', s.Carrying handlers received → s.pending received ≠ 0 →
      s.step e = some s' → rank s' ≤ rank s ∧ (P e → rank s' < rank s))
    {ds es : List ChannelEvent} (hsub : ds.Sublist es) (hds : ∀ e ∈ ds, P e)
    (hcount : rank f ≤ ds.length) :
    ∃ t, run Flow.step f es = some t ∧ received <+: t.accepted := by
  classical
  have hmine : ds.length ≤ es.countP fun e => decide (P e) := by
    rw [← List.countP_eq_length.mpr fun e he => decide_eq_true (hds e he)]
    exact hsub.countP_le
  obtain ⟨before, after, t, rfl, hbefore, ht, hdone⟩ :=
    run_finishes (fun e => decide (P e)) rank hzero (fun s e hs hpending => by
      obtain ⟨s', hstep, -⟩ := s.step_intact e hs.intact
      obtain ⟨hle, hlt⟩ := hrank s e s' hs hpending hstep
      exact ⟨s', hstep, hs.step hstep, hle, fun hP => hlt (of_decide_eq_true hP)⟩)
      h (hcount.trans hmine)
  -- what was accepted stays accepted
  obtain ⟨t', hafter, -, ht'⟩ := run_total
    (I := fun s : Flow η => s.Intact ∧ received <+: s.accepted)
    (fun s e hs => by
      obtain ⟨s', hstep, hintact⟩ := s.step_intact e hs.1
      obtain ⟨o, -, rfl⟩ := Option.map_eq_some_iff.mp hstep
      exact ⟨s.after o, hstep, hintact, hs.2.trans (List.prefix_append _ _)⟩)
    ⟨ht.intact, ht.delivered hdone⟩ after
  exact ⟨t', by rw [run_append, hbefore, Option.bind_some, hafter], ht'⟩

/-- How many whole writes it takes: none, one if all that is pending lies in the first
region, else two. -/
def regionsPending (received : List UInt8) (f : Flow η) : ℕ :=
  if f.pending received = 0 then 0
  else if f.pending received ≤ f.channel.buffer.front then 1 else 2

end Flow

section Delivered

variable (data : ℕ → UInt8) (left right : FileDescriptor) (handlers : List (InputCallback η))
  (s : η)

/-- A run has carried what it has received. -/
theorem Flow.carrying_run {before : List ChannelEvent} {f : Flow η}
    (hrun : run Flow.step (Flow.start (Channel.make data left right handlers s)) before = some f) :
    f.Carrying handlers f.received := by
  obtain ⟨f', hrun', hf⟩ := run_total (I := fun f : Flow η => f.Carrying handlers [])
    (fun f e hf => by
      obtain ⟨f', hstep, -⟩ := f.step_intact e hf.intact
      exact ⟨f', hstep, hf.step hstep⟩)
    ⟨Flow.intact_start data left right handlers s, rfl, List.prefix_refl _⟩ before
  obtain rfl := Option.some.inj (hrun.symm.trans hrun')
  exact ⟨hf.intact, hf.handlers, List.prefix_refl _⟩

/-- **The bytes get through, one by one.**  From any state that any events lead to, every
run that contains as many events that write something as there are bytes in the buffer
gets all of them accepted, and so all that had come in, whatever the other events do. -/
theorem received_delivered {before : List ChannelEvent} {f : Flow η}
    (hrun : run Flow.step (Flow.start (Channel.make data left right handlers s)) before = some f)
    {writers es : List ChannelEvent} (hsub : writers.Sublist es)
    (hwriters : ∀ e ∈ writers, e.Reaches handlers Accepts)
    (hcount : f.channel.buffer.held.length ≤ writers.length) :
    ∃ t, run Flow.step f es = some t ∧ f.received <+: t.accepted := by
  have hf := Flow.carrying_run data left right handlers s hrun
  refine hf.delivered_by (fun e => e.Reaches handlers Accepts) (Flow.pending f.received)
    (fun _ => id) (fun t e t' ht hpending hstep => ?_) hsub hwriters (hf.pending_le.trans hcount)
  obtain ⟨o, ho, -, htaken⟩ := Flow.pending_step f.received hstep
  rw [htaken]
  refine ⟨Nat.sub_le _ _, fun hreach => ?_⟩
  have hne : t.channel.buffer.held ≠ [] := fun hnil => by
    have hle := ht.pending_le
    rw [hnil] at hle
    exact hpending (Nat.le_zero.mp hle)
  have hsent := Channel.handle_accepts ht.intact.sound hne (ht.handlers ▸ hreach) ho
  omega

/-- A left event of descriptor 3 that reads `bytes`, on a channel whose right object
accepts at most `k` bytes. -/
def arrival (bytes : { bytes : List UInt8 // bytes.length ≤ CHUNK_SZ }) (k : ℕ) : ChannelEvent :=
  .left 3 Flags.in' (.success bytes) (acceptUpTo k)

/-- An `out` event of descriptor 4, on a channel whose right object accepts at most `k`
bytes. -/
def departure (k : ℕ) : ChannelEvent := .right 4 Flags.out (acceptUpTo k)

theorem accepts_upTo {k : ℕ} (hk : 0 < k) : Accepts (acceptUpTo k) := by
  intro offered hne
  refine ⟨_, rfl, ?_⟩
  have hlen := List.length_pos_iff.mpr hne
  show 0 < min k offered.length
  omega

/-- Three bytes wait, a fourth comes in between, and three events write one byte each. -/
theorem received_delivered_trickle : ∃ f t : Flow Unit,
    run Flow.step (Flow.start (Channel.make (fun _ => 0) 3 4 [] ()))
      [arrival ⟨[1, 2, 3], by decide⟩ 0] = some f ∧
    run Flow.step f [departure 1, arrival ⟨[4], by decide⟩ 0, departure 1, departure 1] = some t ∧
    f.received <+: t.accepted := by
  have hone : ∀ e ∈ List.replicate 3 (departure 1),
      e.Reaches ([] : List (InputCallback Unit)) Accepts :=
    List.forall_mem_replicate.mpr (Or.inr ⟨rfl, accepts_upTo (Nat.le_refl 1)⟩)
  have hsub : (List.replicate 3 (departure 1)).Sublist
      [departure 1, arrival ⟨[4], by decide⟩ 0, departure 1, departure 1] :=
    .cons_cons _ (.cons _ (.refl _))
  have hbefore : run Flow.step (Flow.start (Channel.make (fun _ => 0) 3 4 [] ()))
      [arrival ⟨[1, 2, 3], by decide⟩ 0] = some _ := rfl
  obtain ⟨t, hrun, hprefix⟩ :=
    received_delivered (fun _ => 0) 3 4 [] () hbefore hsub hone (by decide)
  exact ⟨_, t, hbefore, hrun, hprefix⟩

/-- **Two whole writes are enough.**  From any state that any events lead to, every run
that contains two events that write all they are offered gets everything accepted that
had come in, however much it is and whatever the other events do. -/
theorem received_delivered_whole {before : List ChannelEvent} {f : Flow η}
    (hrun : run Flow.step (Flow.start (Channel.make data left right handlers s)) before = some f)
    {writers es : List ChannelEvent} (hsub : writers.Sublist es)
    (hwriters : ∀ e ∈ writers, e.Reaches handlers AcceptsAll) (hcount : 2 ≤ writers.length) :
    ∃ t, run Flow.step f es = some t ∧ f.received <+: t.accepted := by
  have hf := Flow.carrying_run data left right handlers s hrun
  have htwo : f.regionsPending f.received ≤ 2 := by
    unfold Flow.regionsPending
    split
    · omega
    · split <;> omega
  refine hf.delivered_by (fun e => e.Reaches handlers AcceptsAll)
    (Flow.regionsPending f.received) (fun t hzero => ?_) (fun t e t' ht hpending hstep => ?_)
    hsub hwriters (htwo.trans hcount)
  · unfold Flow.regionsPending at hzero
    split at hzero
    · assumption
    · split at hzero <;> omega
  · obtain ⟨o, ho, hchannel, htaken⟩ := Flow.pending_step f.received hstep
    have hfront := Channel.handle_front ht.intact.sound ho
    have ht' := ht.step hstep
    have hheld := ht'.pending_le
    unfold Flow.regionsPending
    rw [if_neg hpending]
    refine ⟨?_, fun hreach => ?_⟩
    · rw [hchannel]
      split
      · omega
      · split
        · split <;> omega
        · split <;> omega
    · obtain ⟨hall, hone⟩ :=
        Channel.handle_acceptsAll ht.intact.sound (ht.handlers ▸ hreach) ho
      have hrest := BipartiteBuffer.front_of_oneRegion (hchannel ▸ hone)
      split
      · split <;> omega
      · rw [if_pos (by omega)]
        split <;> omega

/-- A write that takes all. -/
def takeAll (offered : List UInt8) : WriteResult offered.length :=
  .success (Fin.last offered.length)

/-- Three bytes wait, a fourth comes in between, and two events write all they are offered. -/
theorem received_delivered_whole_twice : ∃ f t : Flow Unit,
    run Flow.step (Flow.start (Channel.make (fun _ => 0) 3 4 [] ()))
      [arrival ⟨[1, 2, 3], by decide⟩ 0] = some f ∧
    run Flow.step f [.right 4 Flags.out takeAll, arrival ⟨[4], by decide⟩ 0,
      .right 4 Flags.out takeAll] = some t ∧
    f.received <+: t.accepted := by
  have hall : ∀ e ∈ List.replicate 2 (ChannelEvent.right 4 Flags.out takeAll),
      e.Reaches ([] : List (InputCallback Unit)) AcceptsAll :=
    List.forall_mem_replicate.mpr (Or.inr ⟨rfl, fun _ => rfl⟩)
  have hsub : (List.replicate 2 (ChannelEvent.right 4 Flags.out takeAll)).Sublist
      [.right 4 Flags.out takeAll, arrival ⟨[4], by decide⟩ 0, .right 4 Flags.out takeAll] :=
    .cons_cons _ (.cons _ (.refl _))
  have hbefore : run Flow.step (Flow.start (Channel.make (fun _ => 0) 3 4 [] ()))
      [arrival ⟨[1, 2, 3], by decide⟩ 0] = some _ := rfl
  obtain ⟨t, hrun, hprefix⟩ :=
    received_delivered_whole (fun _ => 0) 3 4 [] () hbefore hsub hall (by decide)
  exact ⟨_, t, hbefore, hrun, hprefix⟩

end Delivered

end Io
end PsqlTcpProxy
