import PsqlTcpProxy.Psql.LogFile

/-!
# What the query buffer has room for

`write_acquire` hands out linear regions, so a piece can be refused while more cells are free
than it needs: those at the end of the array are lost when a write wraps.  But a write wraps only
when its piece does not fit there, so fewer are lost than the longest piece is long.

A message is therefore stored in full if there is room for it and once more for the longest
message, next to what the buffer holds when `add_message` is called (`light_load_complete`).
It does not matter how its pieces fall, what the writer thread does in the meantime, and where
the indexes stand.  For an empty buffer this is a message of less than `CHUNK_SZ` characters.
-/

namespace PsqlTcpProxy

namespace Io

open Library

variable {α : Type*} {size longest : ℕ}

theorem BipartiteBuffer.length_held (b : BipartiteBuffer α size) :
    b.held.length = if b.r ≤ b.w then b.w - b.r else b.i - b.r + b.w := by
  rw [held]
  split
  · exact length_region _ _ _
  · rw [List.length_append, length_region, length_region]

/-- **There is room for a piece** next to what is held and a longest piece, and it wraps only
near the end of the array. -/
theorem acquireAt_of_load {w r i n : ℕ} (hw : w < size) (hri : w < r → r ≤ i)
    (hpos : 0 < longest) (hn : n ≤ longest) (hlate : w < r → size < i + longest)
    (hload : (if r ≤ w then w - r else i - r + w) + n + longest ≤ size) :
    ∃ p wrapped, acquireAt size w r n = some (p, wrapped) ∧
      (wrapped = true → size < w + longest) := by
  rcases Nat.lt_or_ge w r with hwr | hrw
  · -- the free cells are in one piece
    have hend := hlate hwr
    have hread := hri hwr
    rw [if_neg (Nat.not_le.mpr hwr)] at hload
    refine ⟨w, false, ?_, by rintro ⟨⟩⟩
    simp only [acquireAt, calcFree_of_lt hwr]
    exact if_pos (by omega)
  · rw [if_pos hrw] at hload
    by_cases hfits : n ≤ size - w
    · refine ⟨w, false, ?_, by rintro ⟨⟩⟩
      simp only [acquireAt, calcFree_of_le hrw]
      exact if_pos (by omega)
    · refine ⟨0, true, ?_, fun _ => by omega⟩
      simp only [acquireAt, calcFree_of_le hrw]
      rw [if_neg (by omega), if_pos (by omega)]

/-- Data that the producer is making wrap ends near the end of the array.  What does not wrap
stays ahead of the read index. -/
def ProducerPc.Late (longest : ℕ) (b : BipartiteBuffer α size) : ProducerPc α → Prop
  | .idle | .acquiring .. | .loadingI .. => True
  | .copying .. => b.writeWrapped = true → size < b.w + longest
  | .storingI _ _ i w => size < i + longest ∨ (b.r ≤ b.w ∧ b.w ≤ w)
  | .storingW _ _ w => size < b.i + longest ∨ (b.r ≤ b.w ∧ b.w ≤ w)

namespace Spsc

/-- **There is room for all that waits**, and once more for the longest piece. -/
structure Loaded (longest : ℕ) (s : Spsc α size) : Prop where
  inv : s.Inv
  short : ∀ piece ∈ s.waiting, piece.length ≤ longest
  /-- Data that wraps does so near the end. -/
  late : s.buffer.w < s.buffer.r → size < s.buffer.i + longest
  producer : s.producer.Late longest s.buffer
  load : s.buffer.held.length + s.producer.inFlight.length + s.waiting.flatten.length + longest ≤
    size

variable {b : BipartiteBuffer α size} {pc : ProducerPc α} {cpc : ConsumerPc}
  {todo accepted : List (List α)} {consumed piece : List α}

/-- The request that is answered next has room. -/
theorem Loaded.acquireAt {w : ℕ} (hpos : 0 < longest)
    (h : Loaded longest ⟨b, .acquiring piece w, cpc, todo, accepted, consumed⟩) :
    ∃ p wrapped, acquireAt size w b.r piece.length = some (p, wrapped) ∧
      (wrapped = true → size < b.w + longest) := by
  obtain ⟨-, rfl⟩ : b.writeWrapped = false ∧ w = b.w := h.inv.producer
  have hload : b.held.length + 0 + (piece :: todo).flatten.length + longest ≤ size := h.load
  rw [List.flatten_cons, List.length_append, b.length_held] at hload
  exact acquireAt_of_load (i := b.i) h.inv.wf.w_lt h.inv.wf.r_le_i hpos
    (h.short piece List.mem_cons_self) h.late (by omega)

theorem Loaded.granted {s : Spsc α size} (hpos : 0 < longest) (h : s.Loaded longest) {w : ℕ}
    (hpc : s.producer = .acquiring piece w) : s.granted piece w = true := by
  obtain ⟨b, pc, cpc, todo, accepted, consumed⟩ := s
  obtain rfl : pc = .acquiring piece w := hpc
  obtain ⟨p, wrapped, hacq, -⟩ := h.acquireAt hpos
  rw [Spsc.granted, hacq]
  rfl

/-- Releasing a piece wraps the data near the end of the array, or not at all. -/
theorem late_of_releasing {p i w : ℕ} {wrapped : Bool} (hb : b.Wf) (hpos : 0 < longest)
    (hlate : b.w < b.r → size < b.i + longest) (hend : wrapped = true → size < b.w + longest)
    (hroom : Room size b.r b.w piece.length wrapped p)
    (hfilled : region b.data p piece.length = piece)
    (hrel : releaseAt size (releaseStart wrapped b.w b.i).1 (releaseStart wrapped b.w b.i).2
      piece.length = some (i, w)) :
    size < i + longest ∨ (b.r ≤ b.w ∧ b.w ≤ w) := by
  rcases Nat.lt_or_ge b.w b.r with hwr | hrw
  · left
    rw [Releasing.i_eq hb ⟨wrapped, hroom, hfilled, hrel⟩ hwr]
    exact hlate hwr
  · cases hroom with
    | linear hroom =>
      rw [releaseStart, if_neg (by decide), releaseAt_eq_some hroom.le_size] at hrel
      simp only [Option.some.injEq, Prod.mk.injEq] at hrel
      by_cases hfull : b.w + piece.length = size
      · -- the write index goes to the front without a wrap, and nothing is lost
        left
        omega
      · right
        rw [if_neg hfull] at hrel
        omega
    | wrap hroom =>
      left
      have hbelow := hroom.lt_read
      have hr := hb.r_lt
      have hlast := hend rfl
      rw [releaseStart, if_pos rfl, releaseAt_eq_some (by simp only; omega)] at hrel
      simp only [Option.some.injEq, Prod.mk.injEq] at hrel
      omega

/-- **A step of the producer** leaves room for what still waits. -/
theorem Loaded.producerStep {s t : Spsc α size} (hpos : 0 < longest) (h : s.Loaded longest)
    (hstep : s.producerStep = some t) : t.Loaded longest := by
  obtain ⟨t', ht', hinv⟩ := producerStep_inv s h.inv
  obtain rfl := Option.some.inj (ht'.symm.trans hstep)
  obtain ⟨b, pc, cpc, todo, accepted, consumed⟩ := s
  cases pc with
  | idle =>
    cases todo with
    | nil =>
      obtain rfl := Option.some.inj hstep
      exact h
    | cons piece todo =>
      obtain rfl := Option.some.inj hstep
      exact ⟨hinv, h.short, h.late, trivial, h.load⟩
  | acquiring piece w =>
    obtain ⟨p, wrapped, hacq, hend⟩ := h.acquireAt hpos
    obtain ⟨hflag, -⟩ : b.writeWrapped = false ∧ w = b.w := h.inv.producer
    have hshort : ∀ piece ∈ todo, piece.length ≤ longest := fun piece' hpiece' =>
      h.short piece' (List.mem_cons_of_mem _ hpiece')
    have hload : b.held.length + piece.length + todo.flatten.length + longest ≤ size := by
      have hall : b.held.length + 0 + (piece :: todo).flatten.length + longest ≤ size := h.load
      rw [List.flatten_cons, List.length_append] at hall
      omega
    cases wrapped with
    | false =>
      simp only [Spsc.producerStep, hacq, Option.some.injEq] at hstep
      subst hstep
      exact ⟨hinv, hshort, h.late, fun hset => absurd (hflag.symm.trans hset) Bool.false_ne_true,
        hload⟩
    | true =>
      simp only [Spsc.producerStep, hacq, Option.some.injEq] at hstep
      subst hstep
      exact ⟨hinv, hshort, h.late, fun _ => hend rfl, hload⟩
  | copying piece p k =>
    obtain ⟨hk, hroom, hcopied⟩ : k ≤ piece.length ∧
      Room size b.r b.w piece.length b.writeWrapped p ∧ region b.data p k = piece.take k :=
      h.inv.producer
    have hend : b.writeWrapped = true → size < b.w + longest := h.producer
    rcases hget : piece[k]? with _ | x
    · by_cases hflag : b.writeWrapped = true
      · simp only [Spsc.producerStep, hget, if_pos hflag, Option.map_eq_some_iff] at hstep
        obtain ⟨iw, hrel, rfl⟩ := hstep
        obtain rfl : k = piece.length := by
          have := List.getElem?_eq_none_iff.mp hget
          omega
        rw [List.take_length] at hcopied
        rw [hflag] at hroom
        have hlate := late_of_releasing h.inv.wf hpos h.late (fun _ => hend hflag) hroom hcopied
          hrel
        exact ⟨hinv, h.short, h.late, hlate, h.load⟩
      · simp only [Spsc.producerStep, hget, if_neg hflag, Option.some.injEq] at hstep
        subst hstep
        exact ⟨hinv, h.short, h.late, trivial, h.load⟩
    · simp only [Spsc.producerStep, hget, Option.some.injEq] at hstep
      subst hstep
      refine ⟨hinv, h.short, h.late, hend, ?_⟩
      have hheld :
          ({ b with data := blit b.data (p + k) [x] } : BipartiteBuffer α size).held = b.held :=
        hroom.held_blit (by
          have hlt : k < piece.length := (List.getElem?_eq_some_iff.mp hget).1
          rw [List.length_singleton]
          omega)
      show List.length _ + _ + _ + _ ≤ _
      rw [hheld]
      exact h.load
  | loadingI piece p w =>
    obtain ⟨iw, hrel, rfl⟩ := Option.map_eq_some_iff.mp hstep
    obtain ⟨-, rfl, hroom, hfilled⟩ : b.writeWrapped = false ∧ w = b.w ∧
      Room size b.r b.w piece.length false p ∧ region b.data p piece.length = piece :=
      h.inv.producer
    exact ⟨hinv, h.short, h.late, late_of_releasing h.inv.wf hpos h.late (by rintro ⟨⟩)
      hroom hfilled hrel, h.load⟩
  | storingI piece p i w =>
    obtain rfl := Option.some.inj hstep
    obtain ⟨-, hrel⟩ : b.writeWrapped = false ∧ Releasing b piece p i w := h.inv.producer
    have hi : b.w < b.r → i = b.i := hrel.i_eq h.inv.wf
    refine ⟨hinv, h.short, fun hwr => ?_, h.producer, ?_⟩
    · show size < i + longest
      rw [hi hwr]
      exact h.late hwr
    · show (heldAt b.data b.r b.w i).length + _ + _ + _ ≤ _
      rw [heldAt_of_i hi]
      exact h.load
  | storingW piece p w =>
    obtain rfl := Option.some.inj hstep
    obtain ⟨-, hrel⟩ : b.writeWrapped = false ∧ Releasing b piece p b.i w := h.inv.producer
    have hend : size < b.i + longest ∨ (b.r ≤ b.w ∧ b.w ≤ w) := h.producer
    refine ⟨hinv, h.short, fun hwr => ?_, trivial, ?_⟩
    · have hwr' : w < b.r := hwr
      rcases hend with hnear | ⟨hrw, hww⟩
      · exact hnear
      · exact absurd (Nat.le_trans hrw hww) (Nat.not_le.mpr hwr')
    · have hheld := (hrel.wStored h.inv.wf).held
      show (BipartiteBuffer.held { b with w }).length + 0 + _ + _ ≤ _
      rw [hheld, List.length_append]
      exact h.load

/-- **A step of the consumer** makes more room. -/
theorem Loaded.consumerStep {s t : Spsc α size} {more : Bool} (h : s.Loaded longest)
    (hstep : s.consumerStep more = some t) : t.Loaded longest := by
  obtain ⟨t', ht', hinv⟩ := consumerStep_inv s more h.inv
  obtain rfl := Option.some.inj (ht'.symm.trans hstep)
  obtain ⟨hpc, htodo, -⟩ := consumerStep_frame hstep
  obtain ⟨hflag, hw, hi, hadvances, hheld⟩ := consumerStep_indexes h.inv hstep
  have hbehind := hadvances.behind
  have hwaiting : t'.waiting = s.waiting := by rw [waiting, waiting, hpc, htodo]
  refine ⟨hinv, hwaiting ▸ h.short, fun hwr => ?_, ?_, ?_⟩
  · rw [hi]
    refine h.late (Nat.lt_of_not_le fun hrw => ?_)
    have := hbehind hrw
    omega
  · have hlate := h.producer
    rw [hpc]
    cases hproducer : s.producer with
    | idle => trivial
    | acquiring piece w => trivial
    | loadingI piece p w => trivial
    | copying piece p k =>
      rw [hproducer] at hlate
      intro hset
      rw [hw]
      exact hlate (hflag ▸ hset)
    | storingI piece p i w =>
      rw [hproducer] at hlate
      rcases hlate with hnear | ⟨hrw, hww⟩
      · exact Or.inl hnear
      · exact Or.inr ⟨hw ▸ hbehind hrw, hw ▸ hww⟩
    | storingW piece p w =>
      rw [hproducer] at hlate
      rcases hlate with hnear | ⟨hrw, hww⟩
      · exact Or.inl (hi ▸ hnear)
      · exact Or.inr ⟨hw ▸ hbehind hrw, hw ▸ hww⟩
  · have hload := h.load
    rw [hpc, hwaiting]
    omega

end Spsc

end Io

namespace Psql

open Library Io
open QueryProcessor hiding CHUNK_SZ

namespace QueryQueue

/-- A message is added only if there is room for it and once more for the longest message. -/
def Light (longest : ℕ) (q : QueryQueue) : QueryTurn → Prop
  | .addMessage message => q.busy = false → message.length ≤ longest ∧
      q.spsc.buffer.held.length + (record q.separator message).length + longest ≤
        QueryProcessor.BUFF_SZ
  | .producer | .consumer _ => True

instance (longest : ℕ) (q : QueryQueue) : DecidablePred (q.Light longest)
  | .addMessage message => inferInstanceAs (Decidable (q.busy = false → message.length ≤ longest ∧
      q.spsc.buffer.held.length + (record q.separator message).length + longest ≤
        QueryProcessor.BUFF_SZ))
  | .producer | .consumer _ => .isTrue trivial

variable {longest : ℕ}

theorem loaded_start (data : ℕ → UInt8) (separator : UInt8)
    (hlongest : longest ≤ QueryProcessor.BUFF_SZ) :
    (start data separator).spsc.Loaded longest := by
  refine ⟨inv_start data separator, fun piece hpiece => absurd hpiece List.not_mem_nil,
    fun hwr => absurd hwr (Nat.lt_irrefl 0), trivial, ?_⟩
  show (BipartiteBuffer.held (.init data)).length + 0 + 0 + longest ≤ _
  rw [BipartiteBuffer.held_init, List.length_nil]
  omega

/-- No message is added if the longest one is longer than the buffer. -/
theorem Light.min {q : QueryQueue} {turn : QueryTurn} (h : q.Light longest turn) :
    q.Light (min longest QueryProcessor.BUFF_SZ) turn := by
  cases turn with
  | addMessage message =>
    intro hbusy
    obtain ⟨hmessage, hroom⟩ := h hbusy
    rw [Nat.min_eq_left (by omega)]
    exact ⟨hmessage, hroom⟩
  | producer => trivial
  | consumer more => trivial

/-- No request is longer than its message, or than the separator. -/
theorem length_of_mem_requests {separator : UInt8} {message piece : Text} (hpos : 0 < longest)
    (hmessage : message.length ≤ longest) (h : piece ∈ requests separator message) :
    piece.length ≤ longest := by
  rcases List.mem_append.mp h with hpiece | hseparator
  · have hsub := (List.sublist_flatten_of_mem hpiece).length_le
    rw [flatten_messagePieces] at hsub
    exact Nat.le_trans hsub hmessage
  · obtain rfl := List.mem_singleton.mp hseparator
    exact hpos

/-- **A turn leaves room** for what waits, if messages are added only when there is. -/
theorem step_loaded {q t : QueryQueue} {turn : QueryTurn} (hpos : 0 < longest)
    (h : q.spsc.Loaded longest) (hlight : q.Light longest turn) (hstep : q.step turn = some t) :
    t.spsc.Loaded longest := by
  cases turn with
  | addMessage message =>
    by_cases hbusy : q.busy = true
    · obtain rfl := Option.some.inj ((if_pos hbusy).symm.trans hstep)
      exact h
    · obtain rfl := Option.some.inj ((if_neg hbusy).symm.trans hstep)
      have hidle : q.busy = false := by simpa using hbusy
      obtain ⟨hmessage, hroom⟩ := hlight hidle
      have hwait := waiting_of_not_busy hidle
      have hnow : q.spsc.producer.requesting ++ (q.spsc.todo ++ requests q.separator message) =
          requests q.separator message := by
        rw [← List.append_assoc]
        show q.spsc.waiting ++ _ = _
        rw [hwait, List.nil_append]
      obtain ⟨hpc, -⟩ := idle_of_not_busy hidle
      refine ⟨⟨h.inv.wf, h.inv.producer, h.inv.consumer, h.inv.stream⟩, fun piece hpiece => ?_,
        h.late, h.producer, ?_⟩
      · have hrequest : piece ∈ requests q.separator message := by
          rw [← hnow]
          exact hpiece
        exact length_of_mem_requests hpos hmessage hrequest
      · show q.spsc.buffer.held.length + q.spsc.producer.inFlight.length +
          (q.spsc.producer.requesting ++ (q.spsc.todo ++ _)).flatten.length + longest ≤ _
        rw [hnow, flatten_requests, hpc]
        exact hroom
  | producer =>
    obtain ⟨spsc, hspsc, rfl⟩ := Option.map_eq_some_iff.mp hstep
    exact h.producerStep hpos hspsc
  | consumer more =>
    obtain ⟨spsc, hspsc, rfl⟩ := Option.map_eq_some_iff.mp hstep
    exact h.consumerStep hspsc

/-- Then the request that is answered next is granted. -/
theorem grants_of_loaded {q : QueryQueue} (hpos : 0 < longest) (h : q.spsc.Loaded longest)
    (turn : QueryTurn) : q.Grants turn := by
  cases turn with
  | addMessage message => trivial
  | consumer more => trivial
  | producer =>
    show q.GrantedTo q.spsc.producer
    cases hpc : q.spsc.producer with
    | acquiring piece w => exact h.granted hpos hpc
    | idle => trivial
    | copying piece p k => trivial
    | loadingI piece p w => trivial
    | storingI piece p i w => trivial
    | storingW piece p w => trivial

/-- **Under light load no message is lost.**  Take any interleaving of the two threads in which,
whenever `add_message` is called, the message is no longer than `longest` and the buffer has
room for it, its separator and `longest` characters more.  Then every `write_acquire` succeeds,
and between two calls of `add_message` what was consumed and what is buffered is every message
that was added, with a separator behind it. -/
theorem light_load_complete (data : ℕ → UInt8) (separator : UInt8) (hpos : 0 < longest)
    (turns : List QueryTurn) (hlight : Meets step (Light longest) (start data separator) turns) :
    Meets step Grants (start data separator) turns ∧
      ∃ q, run step (start data separator) turns = some q ∧ (q.busy = false →
        q.spsc.consumed ++ q.spsc.buffered = terminated separator q.added) := by
  have hpos' : 0 < min longest QueryProcessor.BUFF_SZ := Nat.lt_min.mpr ⟨hpos, by decide⟩
  have hgrants : Meets step Grants (start data separator) turns :=
    hlight.imp (loaded_start data separator (Nat.min_le_right longest _))
      (fun q turn hloaded _ => grants_of_loaded hpos' hloaded turn)
      (fun q turn t hloaded hturn hstep => step_loaded hpos' hloaded hturn.min hstep)
  refine ⟨hgrants, ?_⟩
  obtain ⟨q, hrun, hsafe⟩ := run_total step_safe
    ⟨inv_start data separator, rfl, [], List.Sublist.refl _, rfl⟩ turns
  refine ⟨q, hrun, fun hbusy => AllAccepted.total ?_ hsafe hbusy⟩
  exact run_invariant (fun _ _ _ hI hP hs => step_allAccepted hI hP hs)
    (show (start data separator).AllAccepted from rfl) hgrants hrun

/-- The messages `ab` and `c`: the first one is consumed when the second is added. -/
theorem light_load_complete_pair : ∃ q,
    run step shortStart pairTurns = some q ∧ (q.busy = false →
      q.spsc.consumed ++ q.spsc.buffered = terminated NEWLINE q.added) :=
  (light_load_complete (fun _ => 0) NEWLINE Nat.two_pos pairTurns
    (meets_pair (fun _ => ⟨Nat.le_refl 2, by decide⟩) (by decide)
      (fun _ => ⟨Nat.le_succ 1, by decide⟩) (by decide))).2

end QueryQueue

/-! ## The log file -/

namespace LogFile

variable {ι : Type} [DecidableEq ι] {longest : ℕ}

/-- A handler adds a text only if there is room for it and once more for the longest text. -/
def Light (longest : ℕ) (s : LogFile ι) : FileTurn ι → Prop
  | .add => ∀ p ∈ s.shared.pending.head?, s.shared.queue.Light longest (.addMessage p.2)
  | .call .. | .main | .signal | .leave | .writer => True

instance (longest : ℕ) (s : LogFile ι) : DecidablePred (s.Light longest)
  | .add => inferInstanceAs (Decidable
      (∀ p ∈ s.shared.pending.head?, s.shared.queue.Light longest (.addMessage p.2)))
  | .call .. | .main | .signal | .leave | .writer => .isTrue trivial

theorem step_loaded {s t : LogFile ι} {turn : FileTurn ι}
    (hpos : 0 < min longest QueryProcessor.BUFF_SZ)
    (h : s.shared.queue.spsc.Loaded (min longest QueryProcessor.BUFF_SZ))
    (hlight : s.Light longest turn) (hstep : s.step turn = some t) :
    t.shared.queue.spsc.Loaded (min longest QueryProcessor.BUFF_SZ) := by
  have hanswers : s.Answers (QueryQueue.Light longest) turn := by
    cases turn <;> trivial
  rcases step_shared hanswers hstep with hsame | ⟨d, hadd, hd, hshared⟩
  · exact hsame ▸ h
  · have hpending : d = .add → ∀ p ∈ s.shared.pending.head?,
        s.shared.queue.Light longest (.addMessage p.2) := by
      intro hd
      obtain rfl := hadd hd
      exact hlight
    rcases SharedLog.step_queue (fun _ _ => trivial) hpending hd hshared with
      hsame | ⟨turn', hturn, hqueue⟩
    · exact hsame ▸ h
    · exact QueryQueue.step_loaded hpos h hturn.min hqueue

/-- **No text is lost under light load.**  Take any run of the two threads in which, whenever a
handler adds a text, it is no longer than `longest` and the buffer has room for it, its separator
and `longest` characters more.  Then no request is refused, and whenever the main thread is
between two calls of the handlers, what is in the file and what is still to be written are the
texts of all sessions, none missing and each session's in order, with a separator behind each. -/
theorem light_log_file (data : ℕ → UInt8) (separator : UInt8) (fd : ι → FileDescriptor)
    (hpos : 0 < longest) (turns : List (FileTurn ι))
    (hlight : Meets step (Light longest) (start data separator fd) turns) :
    Meets step (Answers QueryQueue.Grants) (start data separator fd) turns ∧
      ∃ s, run step (start data separator fd) turns = some s ∧ (s.shared.quiet = true →
        ∃ texts, Woven (s.shared.texts fd) texts ∧
          s.file ++ s.writer.unwritten = terminated separator texts) := by
  have hpos' : 0 < min longest QueryProcessor.BUFF_SZ := Nat.lt_min.mpr ⟨hpos, by decide⟩
  have hgrants : Meets step (Answers QueryQueue.Grants) (start data separator fd) turns := by
    refine hlight.imp
      (J := fun s => s.shared.queue.spsc.Loaded (min longest QueryProcessor.BUFF_SZ))
      (QueryQueue.loaded_start data separator (Nat.min_le_right longest _))
      (fun s turn hloaded _ => ?_)
      (fun s turn t hloaded hturn hstep => step_loaded hpos' hloaded hturn hstep)
    cases turn with
    | main => exact QueryQueue.grants_of_loaded hpos' hloaded .producer
    | call i c => trivial
    | add => trivial
    | signal => trivial
    | leave => trivial
    | writer => trivial
  obtain ⟨s, hrun, -⟩ := run_sound data separator fd turns
  obtain ⟨ls, hlogged, hshared⟩ := shared_run hgrants hrun
  exact ⟨hgrants, s, hrun, fun hquiet =>
    ⟨s.shared.queue.added, SharedLog.total_of_granted hlogged hshared hquiet⟩⟩

/-- Two clients send the query `a`, one after the other. -/
theorem light_log_file_two : ∃ s, run step twoStart twoTurns = some s ∧
    (s.shared.quiet = true → ∃ texts, Woven (s.shared.texts SharedLog.twoSockets) texts ∧
      s.file ++ s.writer.unwritten = terminated QueryQueue.NEWLINE texts) := by
  refine (light_log_file (fun _ => 0) QueryQueue.NEWLINE SharedLog.twoSockets Nat.one_pos twoTurns
    (meets_two trivial (fun p hp _ => ?_) (by decide) trivial (fun p hp _ => ?_) (by decide))).2
  · obtain rfl := Option.some.inj hp
    exact ⟨Nat.le_refl 1, by decide⟩
  · obtain rfl := Option.some.inj hp
    exact ⟨Nat.le_refl 1, by decide⟩

end LogFile

end Psql
end PsqlTcpProxy
