import Mathlib.Algebra.GroupWithZero.Nat
import PsqlTcpProxy.Psql.QueryQueue

/-!
# Neither thread waits for the other

The two threads of a query processor share its buffer without a lock.  `work` counts the steps
the main thread has still to take in its call of `add_message`, `remaining` those the writer
thread has at most to take in its call of `_process`.  Each own step brings the number down,
and no step of the other thread raises it, so each call ends after a number of own steps that
is known in advance (`wait_free`), wherever the other thread is and
whether or not it moves.
-/

namespace PsqlTcpProxy

namespace Io

open Library

variable {α : Type*} {size : ℕ}

/-- The steps left for the piece the producer is at. -/
def ProducerPc.work : ProducerPc α → ℕ
  | .idle => 0
  | .acquiring piece _ => piece.length + 5
  | .copying piece _ k => piece.length - k + 4
  | .loadingI .. => 3
  | .storingI .. => 2
  | .storingW .. => 1

/-- The most steps that are left for a consumer's call. -/
def ConsumerPc.remaining (size : ℕ) : ConsumerPc → ℕ
  | .idle => 0
  | .acquiring _ => size + 4
  | .loadingI .. => size + 3
  | .reading _ len k => len - k + 2
  | .storingR .. => 1

namespace Spsc

/-- The steps left for all pieces. -/
def work (s : Spsc α size) : ℕ :=
  s.producer.work + (s.todo.map fun piece => piece.length + 6).sum

theorem idle_of_work {s : Spsc α size} (h : s.work = 0) : s.producer = .idle ∧ s.todo = [] := by
  obtain ⟨b, pc, cpc, todo, accepted, consumed⟩ := s
  obtain ⟨hpc, htodo⟩ := Nat.add_eq_zero_iff.mp h
  constructor
  · cases pc with
    | idle => rfl
    | acquiring piece w => cases hpc
    | copying piece p k => cases hpc
    | loadingI piece p w => cases hpc
    | storingI piece p i w => cases hpc
    | storingW piece p w => cases hpc
  · cases todo with
    | nil => rfl
    | cons piece todo =>
      simp only [List.map_cons, List.sum_cons] at htodo
      omega

/-- **A step of the producer** is one step less, and none of the consumer's business. -/
theorem producerStep_progress {s t : Spsc α size} (hstep : s.producerStep = some t) :
    t.consumer = s.consumer ∧ t.consumed = s.consumed ∧ (s.work ≠ 0 → t.work < s.work) := by
  obtain ⟨b, pc, cpc, todo, accepted, consumed⟩ := s
  have hless : ∀ (b' : BipartiteBuffer α size) (pc' : ProducerPc α) (accepted' : List (List α)),
      pc'.work < pc.work →
      (⟨b', pc', cpc, todo, accepted', consumed⟩ : Spsc α size).work <
        (⟨b, pc, cpc, todo, accepted, consumed⟩ : Spsc α size).work :=
    fun _ _ _ hpc => Nat.add_lt_add_right hpc _
  cases pc with
  | idle =>
    cases todo with
    | nil =>
      obtain rfl := Option.some.inj hstep
      exact ⟨rfl, rfl, fun h => absurd rfl h⟩
    | cons piece todo =>
      obtain rfl := Option.some.inj hstep
      refine ⟨rfl, rfl, fun _ => ?_⟩
      simp only [work, ProducerPc.work, List.map_cons, List.sum_cons]
      omega
  | acquiring piece w =>
    rcases hacq : acquireAt size w b.r piece.length with _ | ⟨p, _ | _⟩
    · simp only [producerStep, hacq, Option.some.injEq] at hstep
      subst hstep
      exact ⟨rfl, rfl, fun _ => hless _ .idle _ (Nat.succ_pos _)⟩
    · simp only [producerStep, hacq, Option.some.injEq] at hstep
      subst hstep
      exact ⟨rfl, rfl, fun _ => hless _ (.copying piece p 0) _ (Nat.lt_succ_self _)⟩
    · simp only [producerStep, hacq, Option.some.injEq] at hstep
      subst hstep
      exact ⟨rfl, rfl, fun _ => hless _ (.copying piece p 0) _ (Nat.lt_succ_self _)⟩
  | copying piece p k =>
    rcases hget : piece[k]? with _ | x
    · by_cases hflag : b.writeWrapped = true
      · simp only [producerStep, hget, if_pos hflag, Option.map_eq_some_iff] at hstep
        obtain ⟨iw, -, rfl⟩ := hstep
        refine ⟨rfl, rfl, fun _ => hless _ _ _ ?_⟩
        simp only [ProducerPc.work]
        omega
      · simp only [producerStep, hget, if_neg hflag, Option.some.injEq] at hstep
        subst hstep
        refine ⟨rfl, rfl, fun _ => hless _ _ _ ?_⟩
        simp only [ProducerPc.work]
        omega
    · simp only [producerStep, hget, Option.some.injEq] at hstep
      subst hstep
      have hlt : k < piece.length := (List.getElem?_eq_some_iff.mp hget).1
      refine ⟨rfl, rfl, fun _ => hless _ (.copying piece p (k + 1)) _ ?_⟩
      simp only [ProducerPc.work]
      omega
  | loadingI piece p w =>
    obtain ⟨iw, -, rfl⟩ := Option.map_eq_some_iff.mp hstep
    exact ⟨rfl, rfl, fun _ => hless _ _ _ (Nat.lt_succ_self 2)⟩
  | storingI piece p i w =>
    obtain rfl := Option.some.inj hstep
    exact ⟨rfl, rfl, fun _ => hless _ _ _ (Nat.lt_succ_self 1)⟩
  | storingW piece p w =>
    obtain rfl := Option.some.inj hstep
    exact ⟨rfl, rfl, fun _ => hless _ _ _ Nat.zero_lt_one⟩

theorem work_consumerStep {s t : Spsc α size} {more : Bool}
    (hstep : s.consumerStep more = some t) : t.work = s.work := by
  obtain ⟨hproducer, htodo, -⟩ := consumerStep_frame hstep
  rw [work, work, hproducer, htodo]

theorem remaining_offered (size pos len : ℕ) : (offered pos len).remaining size ≤ len + 2 := by
  unfold offered
  split
  · exact Nat.le_refl _
  · exact Nat.zero_le _

/-- **A step of the consumer** in a call is one step less. -/
theorem remaining_consumerStep {s t : Spsc α size} {more : Bool} (h : s.Inv)
    (hstep : s.consumerStep more = some t) (hcall : s.consumer ≠ .idle) :
    t.consumer.remaining size < s.consumer.remaining size := by
  obtain ⟨b, pc, cpc, todo, accepted, consumed⟩ := s
  have hw : b.w < size := h.wf.w_lt
  have hi : b.i ≤ size := h.wf.i_le
  cases cpc with
  | idle => exact absurd rfl hcall
  | acquiring r =>
    simp only [consumerStep] at hstep
    split at hstep
    · obtain rfl := Option.some.inj hstep
      exact Nat.succ_pos _
    · split at hstep
      · obtain rfl := Option.some.inj hstep
        have := remaining_offered size r (b.w - r)
        simp only [ConsumerPc.remaining] at this ⊢
        omega
      · obtain rfl := Option.some.inj hstep
        exact Nat.lt_succ_self _
  | loadingI r w =>
    obtain ⟨-, hle, -⟩ : r = b.r ∧ w ≤ b.w ∧ b.w < b.r := h.consumer
    simp only [consumerStep] at hstep
    split at hstep
    · obtain rfl := Option.some.inj hstep
      have := remaining_offered size 0 w
      simp only [ConsumerPc.remaining] at this ⊢
      omega
    · obtain rfl := Option.some.inj hstep
      have := remaining_offered size r (b.i - r)
      simp only [ConsumerPc.remaining] at this ⊢
      omega
  | reading pos len k =>
    by_cases hmore : (more && decide (k < len)) = true
    · simp only [consumerStep, if_pos hmore, Option.some.injEq] at hstep
      subst hstep
      have hlt : k < len := by simpa using (Bool.and_eq_true_iff.mp hmore).2
      simp only [ConsumerPc.remaining]
      omega
    · simp only [consumerStep, if_neg hmore, Option.map_eq_some_iff] at hstep
      obtain ⟨r, -, rfl⟩ := hstep
      simp only [ConsumerPc.remaining]
      omega
  | storingR pos len k r =>
    obtain rfl := Option.some.inj hstep
    exact Nat.succ_pos _

theorem idle_of_remaining {pc : ConsumerPc} (h : pc.remaining size = 0) : pc = .idle := by
  cases pc with
  | idle => rfl
  | acquiring r => cases h
  | loadingI r w => cases h
  | reading pos len k => cases h
  | storingR pos len k r => cases h

/-- No call takes more steps than this. -/
theorem Inv.remaining_le {s : Spsc α size} (h : s.Inv) :
    s.consumer.remaining size ≤ size + 4 := by
  obtain ⟨b, pc, cpc, todo, accepted, consumed⟩ := s
  cases cpc with
  | idle => exact Nat.zero_le _
  | acquiring r => exact Nat.le_refl _
  | loadingI r w => exact Nat.le_succ _
  | reading pos len k =>
    obtain ⟨-, hoff⟩ : k ≤ len ∧ Offered b.r b.w b.i b.readWrapped pos len := h.consumer
    have hw : b.w < size := h.wf.w_lt
    have hi : b.i ≤ size := h.wf.i_le
    have hle : len ≤ size := by
      rcases hflag : b.readWrapped with _ | _
      · rcases Nat.lt_or_ge b.w b.r with hlt | hge
        · have := hoff.le_invalid hflag hlt
          omega
        · have := hoff.le_write hflag hge
          omega
      · have := (hoff.at_invalid hflag).2.2
        omega
    simp only [ConsumerPc.remaining]
    omega
  | storingR pos len k r =>
    simp only [ConsumerPc.remaining]
    omega

end Spsc

end Io

namespace Psql

open Library Io
open QueryProcessor hiding CHUNK_SZ

/-- A step of the main thread inside `add_message`. -/
def QueryTurn.isMain : QueryTurn → Bool
  | .producer => true
  | .addMessage _ | .consumer _ => false

/-- A step of the writer thread. -/
def QueryTurn.isWriter : QueryTurn → Bool
  | .consumer _ => true
  | .addMessage _ | .producer => false

namespace QueryQueue

/-- The main thread is inside `add_message` as long as it has steps to take. -/
theorem not_busy_of_work {q : QueryQueue} (h : q.spsc.work = 0) : q.busy = false := by
  obtain ⟨hidle, htodo⟩ := Spsc.idle_of_work h
  rw [busy, hidle, htodo]

/-- The steps of a call of `add_message`. -/
theorem work_requests (separator : UInt8) (message : Text) :
    ((requests separator message).map fun piece => piece.length + 6).sum =
      message.length + 1 + 6 * (requests separator message).length := by
  have hsum : ∀ pieces : List Text, (pieces.map fun piece => piece.length + 6).sum =
      pieces.flatten.length + 6 * pieces.length := by
    intro pieces
    induction pieces with
    | nil => rfl
    | cons piece pieces ih =>
      rw [List.map_cons, List.sum_cons, ih, List.flatten_cons, List.length_append,
        List.length_cons]
      omega
  rw [hsum, flatten_requests, record, List.length_append, List.length_singleton]

/-- The main thread leaves the writer thread where it is. -/
theorem step_frame {q t : QueryQueue} {turn : QueryTurn} (hturn : turn.isWriter = false)
    (hstep : q.step turn = some t) :
    t.spsc.consumer = q.spsc.consumer ∧ t.spsc.consumed = q.spsc.consumed := by
  cases turn with
  | addMessage message =>
    by_cases hbusy : q.busy = true
    · obtain rfl := Option.some.inj ((if_pos hbusy).symm.trans hstep)
      exact ⟨rfl, rfl⟩
    · obtain rfl := Option.some.inj ((if_neg hbusy).symm.trans hstep)
      exact ⟨rfl, rfl⟩
  | producer =>
    obtain ⟨spsc, hspsc, rfl⟩ := Option.map_eq_some_iff.mp hstep
    obtain ⟨hconsumer, hconsumed, -⟩ := Spsc.producerStep_progress hspsc
    exact ⟨hconsumer, hconsumed⟩
  | consumer more => cases hturn

variable {separator : UInt8}

/-- The state in which `add_message` starts. -/
theorem step_addMessage {q : QueryQueue} (h : q.Safe separator) (hbusy : q.busy = false)
    (message : Text) : ∃ t, q.step (.addMessage message) = some t ∧ t.Safe separator ∧
      t.added = q.added ++ [message] ∧
      t.spsc.work = message.length + 1 + 6 * (requests separator message).length := by
  obtain ⟨t, hstep, hsafe⟩ := step_safe q (.addMessage message) h
  refine ⟨t, hstep, hsafe, ?_⟩
  have hidle : ¬ q.busy = true := by
    rw [hbusy]
    exact Bool.false_ne_true
  obtain rfl := Option.some.inj ((if_neg hidle).symm.trans hstep)
  obtain ⟨hpc, htodo⟩ := idle_of_not_busy hbusy
  have hseparator : q.separator = separator := h.separator_eq
  refine ⟨rfl, ?_⟩
  show q.spsc.producer.work + ((q.spsc.todo ++ requests q.separator message).map _).sum = _
  rw [hpc, htodo, hseparator, List.nil_append, ← work_requests]
  exact Nat.zero_add _

/-- **A call of `add_message` returns**, whatever the writer thread does. -/
theorem add_message_returns {q : QueryQueue} (h : q.Safe separator) (hbusy : q.busy = false)
    (message : Text) {more : List QueryTurn}
    (hmore : message.length + 1 + 6 * (requests separator message).length ≤
      more.countP QueryTurn.isMain) :
    ∃ before after t, more = before ++ after ∧
      run step q (.addMessage message :: before) = some t ∧ t.busy = false ∧
      t.added = q.added ++ [message] := by
  obtain ⟨s, hstep, hsafe, hadded, hwork⟩ := step_addMessage h hbusy message
  have hturn : ∀ (s : QueryQueue) (turn : QueryTurn),
      s.Safe separator ∧ s.added = q.added ++ [message] → ¬ s.busy = false →
      ∃ t, s.step turn = some t ∧ (t.Safe separator ∧ t.added = q.added ++ [message]) ∧
        t.spsc.work ≤ s.spsc.work ∧ (turn.isMain = true → t.spsc.work < s.spsc.work) := by
    intro s turn hs hcall
    have hcalling : s.busy = true := by simpa using hcall
    obtain ⟨t, ht, hsafe'⟩ := step_safe s turn hs.1
    cases turn with
    | addMessage other =>
      obtain rfl := Option.some.inj ((if_pos hcalling).symm.trans ht)
      exact ⟨s, ht, hs, Nat.le_refl _, by rintro ⟨⟩⟩
    | producer =>
      obtain ⟨spsc, hspsc, rfl⟩ := Option.map_eq_some_iff.mp ht
      have hless := (Spsc.producerStep_progress hspsc).2.2 fun hzero =>
        hcall (not_busy_of_work hzero)
      exact ⟨_, ht, ⟨hsafe', s.note_added.trans hs.2⟩, Nat.le_of_lt hless, fun _ => hless⟩
    | consumer m =>
      obtain ⟨spsc, hspsc, rfl⟩ := Option.map_eq_some_iff.mp ht
      exact ⟨_, ht, ⟨hsafe', hs.2⟩, Nat.le_of_eq (Spsc.work_consumerStep hspsc), by rintro ⟨⟩⟩
  obtain ⟨before, after, t, hsplit, hrun, ⟨-, hadded'⟩, hdone⟩ := run_finishes QueryTurn.isMain
    (fun s : QueryQueue => s.spsc.work) (fun s => not_busy_of_work) hturn ⟨hsafe, hadded⟩
    (Nat.le_trans (Nat.le_of_eq hwork) hmore)
  refine ⟨before, after, t, hsplit, ?_, hdone, hadded'⟩
  rw [run_cons, hstep, Option.bind_some, hrun]

/-- **A call of `_process` returns**, whatever the main thread does. -/
theorem process_returns {q : QueryQueue} (h : q.Safe separator) {more : List QueryTurn}
    (hmore : QueryProcessor.BUFF_SZ + 4 ≤ more.countP QueryTurn.isWriter) :
    ∃ before after t, more = before ++ after ∧ run step q before = some t ∧
      t.spsc.consumer = .idle := by
  have hturn : ∀ (s : QueryQueue) (turn : QueryTurn), s.Safe separator →
      ¬ s.spsc.consumer = .idle → ∃ t, s.step turn = some t ∧ t.Safe separator ∧
        t.spsc.consumer.remaining QueryProcessor.BUFF_SZ ≤
          s.spsc.consumer.remaining QueryProcessor.BUFF_SZ ∧
        (turn.isWriter = true → t.spsc.consumer.remaining QueryProcessor.BUFF_SZ <
          s.spsc.consumer.remaining QueryProcessor.BUFF_SZ) := by
    intro s turn hs hcall
    obtain ⟨t, ht, hsafe⟩ := step_safe s turn hs
    refine ⟨t, ht, hsafe, ?_⟩
    cases turn with
    | addMessage message =>
      rw [(step_frame rfl ht).1]
      exact ⟨Nat.le_refl _, by rintro ⟨⟩⟩
    | producer =>
      rw [(step_frame rfl ht).1]
      exact ⟨Nat.le_refl _, by rintro ⟨⟩⟩
    | consumer m =>
      obtain ⟨spsc, hspsc, rfl⟩ := Option.map_eq_some_iff.mp ht
      have hless := Spsc.remaining_consumerStep hs.inv hspsc hcall
      exact ⟨Nat.le_of_lt hless, fun _ => hless⟩
  obtain ⟨before, after, t, hsplit, hrun, -, hdone⟩ := run_finishes QueryTurn.isWriter
    (fun s : QueryQueue => s.spsc.consumer.remaining QueryProcessor.BUFF_SZ)
    (fun s => Spsc.idle_of_remaining) hturn h (Nat.le_trans h.inv.remaining_le hmore)
  exact ⟨before, after, t, hsplit, hrun, hdone⟩

/-- **The query processor is wait-free.**  From every state that an interleaving reaches: a call
of `add_message` is over after `message.length + 1` steps of the main thread and six more for
every `write_acquire`, and a call of `_process` after `BUFF_SZ + 4` steps of the writer thread;
between them the other thread may take any steps, or none. -/
theorem wait_free (data : ℕ → UInt8) (separator : UInt8) (turns : List QueryTurn) :
    ∃ q, run step (start data separator) turns = some q ∧
      (∀ message, q.busy = false → ∀ more : List QueryTurn,
        message.length + 1 + 6 * (requests separator message).length ≤
          more.countP QueryTurn.isMain →
        ∃ before after t, more = before ++ after ∧
          run step q (.addMessage message :: before) = some t ∧ t.busy = false ∧
          t.added = q.added ++ [message]) ∧
      ∀ more : List QueryTurn, QueryProcessor.BUFF_SZ + 4 ≤ more.countP QueryTurn.isWriter →
        ∃ before after t, more = before ++ after ∧ run step q before = some t ∧
          t.spsc.consumer = .idle := by
  obtain ⟨q, hrun, hsafe⟩ := run_total step_safe
    ⟨inv_start data separator, rfl, [], List.Sublist.refl _, rfl⟩ turns
  refine ⟨q, hrun, fun message hbusy more hmore => ?_, fun more hmore => ?_⟩
  · exact add_message_returns hsafe hbusy message hmore
  · exact process_returns hsafe hmore

end QueryQueue

end Psql
end PsqlTcpProxy
