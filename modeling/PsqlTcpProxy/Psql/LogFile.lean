import PsqlTcpProxy.Psql.FileWriter
import PsqlTcpProxy.Psql.SharedLog

/-!
# The log file

The `main` of `psql_proxy` starts the writer thread and stays in `io::context::run`,
which calls the handlers of the sessions until a stop is requested.  Then it joins the writer
thread.  A signal requests the stop, and can come at any moment: the handlers of the events at
hand are still called, and the writer thread is wherever it is.

Two models that exist are put together here.  What the sessions do with the query processor is
`SharedLog`, and what the writer thread does with it is `FileWriter.writerStep`; `step_shared`
says that a run is a run of the first.

What is written at any moment begins with whole lines, and they are texts of the clients
(`log_file_lines`).  The writer thread can be joined, whatever the sessions do after the signal
(`writer_joins`).  At the end the file has a line for every text, unless a text contains a
newline or something is in the buffer that the writer thread was not about to take
(`log_file_complete`).
-/

namespace PsqlTcpProxy
namespace Psql

open Library Io
open QueryProcessor hiding CHUNK_SZ

variable {ι : Type} [DecidableEq ι]

/-- The two threads of a `psql_proxy`. -/
structure LogFile (ι : Type) where
  /-- The handlers and the query processor. -/
  shared : SharedLog ι
  /-- `_stop_requested` of the `io::context` -/
  stopRequested : Bool
  /-- The main thread is behind `run`, at `writer_thread.join`. -/
  joining : Bool
  /-- The writer thread. -/
  pc : WriterPc

/-- Whose turn it is. -/
inductive FileTurn (ι : Type) where
  /-- A channel of the session calls its handler. -/
  | call (i : ι) (c : HandlerCall)
  /-- The handler calls `add_message`. -/
  | add
  /-- A step of the main thread inside `add_message`. -/
  | main
  /-- `_cleanup` calls `stop`. -/
  | signal
  /-- `run` finds a stop requested and returns. -/
  | leave
  /-- A step of the writer thread. -/
  | writer

/-- A step of the writer thread. -/
def FileTurn.isWriter : FileTurn ι → Bool
  | .writer => true
  | _ => false

namespace LogFile

/-- Both threads are started. -/
def start (data : ℕ → UInt8) (separator : UInt8) (fd : ι → FileDescriptor) : LogFile ι :=
  { shared := .start data separator fd, stopRequested := false, joining := false, pc := .testing }

/-- The writer thread, and what it sees. -/
def writer (s : LogFile ι) : FileWriter := ⟨s.shared.queue, s.stopRequested, s.pc⟩

/-- The writer thread has moved. -/
def setWriter (s : LogFile ι) (w : FileWriter) : LogFile ι :=
  { s with shared := { s.shared with queue := w.dataProcessor }, pc := w.pc }

/-- The characters passed to the stream. -/
def file (s : LogFile ι) : Text := s.writer.written

/-- The main thread moves, as long as it is in `run`. -/
def mainStep (s : LogFile ι) (turn : LogTurn ι) : Option (LogFile ι) :=
  if s.joining then some s else (s.shared.step turn).map fun shared => { s with shared }

/-- One turn.  `none` is a failed assertion. -/
def step (s : LogFile ι) : FileTurn ι → Option (LogFile ι)
  | .call i c => s.mainStep (.call i c)
  | .add => s.mainStep .add
  | .main => s.mainStep .main
  | .signal => some { s with stopRequested := true }
  | .leave => some { s with joining := s.joining || (s.stopRequested && s.shared.quiet) }
  | .writer => s.writer.writerStep.map s.setWriter

/-! ## The log of all sessions -/

/-- The main thread's next step is answered as `P` says. -/
def Answers (P : QueryQueue → QueryTurn → Prop) (s : LogFile ι) : FileTurn ι → Prop
  | .main => P s.shared.queue .producer
  | .call .. | .add | .signal | .leave | .writer => True

instance {P : QueryQueue → QueryTurn → Prop} [∀ q, DecidablePred (P q)] (s : LogFile ι) :
    DecidablePred (s.Answers P)
  | .main => inferInstanceAs (Decidable (P s.shared.queue .producer))
  | .call .. | .add | .signal | .leave | .writer => .isTrue trivial

/-- The main thread does what the sessions do, or nothing. -/
theorem mainStep_cases {s t : LogFile ι} {d : LogTurn ι} (h : s.mainStep d = some t) :
    t = s ∨ ∃ shared, s.shared.step d = some shared ∧ t = { s with shared } := by
  unfold mainStep at h
  split at h
  · exact Or.inl (Option.some.inj h).symm
  · obtain ⟨shared, hshared, rfl⟩ := Option.map_eq_some_iff.mp h
    exact Or.inr ⟨shared, hshared, rfl⟩

/-- The writer thread moves the consumer, or leaves the query processor alone. -/
theorem writerStep_queue {w v : FileWriter} (h : w.writerStep = some v) :
    v.dataProcessor = w.dataProcessor ∨
      w.dataProcessor.step (.consumer true) = some v.dataProcessor := by
  obtain ⟨q, stop, pc⟩ := w
  cases pc with
  | processing =>
    obtain ⟨q', hq, rfl⟩ := Option.map_eq_some_iff.mp h
    exact Or.inr hq
  | testing =>
    obtain rfl := Option.some.inj h
    exact Or.inl rfl
  | processed n =>
    obtain rfl := Option.some.inj h
    exact Or.inl rfl
  | sleeping =>
    obtain rfl := Option.some.inj h
    exact Or.inl rfl
  | returned =>
    obtain rfl := Option.some.inj h
    exact Or.inl rfl

/-- **A turn is a turn of the log of all sessions**, or none. -/
theorem step_shared {P : QueryQueue → QueryTurn → Prop} {s t : LogFile ι} {turn : FileTurn ι}
    (hP : s.Answers P turn) (hstep : s.step turn = some t) :
    t.shared = s.shared ∨ ∃ d, (d = .add → turn = .add) ∧ s.shared.Answers P d ∧
      s.shared.step d = some t.shared := by
  have hmain : ∀ d, (d = .add → turn = .add) → s.shared.Answers P d → s.mainStep d = some t →
      t.shared = s.shared ∨ ∃ d, (d = .add → turn = .add) ∧ s.shared.Answers P d ∧
        s.shared.step d = some t.shared := by
    intro d hadd hd hmain
    rcases mainStep_cases hmain with rfl | ⟨shared, hshared, rfl⟩
    · exact Or.inl rfl
    · exact Or.inr ⟨d, hadd, hd, hshared⟩
  cases turn with
  | call i c => exact hmain (.call i c) (by rintro ⟨⟩) trivial hstep
  | add => exact hmain .add (fun _ => rfl) trivial hstep
  | main => exact hmain .main (by rintro ⟨⟩) hP hstep
  | signal =>
    obtain rfl := Option.some.inj hstep
    exact Or.inl rfl
  | leave =>
    obtain rfl := Option.some.inj hstep
    exact Or.inl rfl
  | writer =>
    obtain ⟨w, hw, rfl⟩ := Option.map_eq_some_iff.mp hstep
    rcases writerStep_queue hw with hsame | hqueue
    · left
      show { s.shared with queue := w.dataProcessor } = s.shared
      rw [hsame]
      rfl
    · exact Or.inr ⟨.writer true, by rintro ⟨⟩, trivial, congrArg (Option.map _) hqueue⟩

variable {fd : ι → FileDescriptor} {separator : UInt8}

/-- A run of the two threads is a run of the sessions. -/
theorem shared_run {P : QueryQueue → QueryTurn → Prop} {data : ℕ → UInt8}
    {turns : List (FileTurn ι)}
    (hmeets : Meets step (Answers P) (start data separator fd) turns) {s : LogFile ι}
    (hrun : run step (start data separator fd) turns = some s) :
    ∃ ds, Meets SharedLog.step (SharedLog.Answers P) (.start data separator fd) ds ∧
      run SharedLog.step (.start data separator fd) ds = some s.shared := by
  have hturn : ∀ (s : LogFile ι) (l : SharedLog ι) (turn : FileTurn ι) (t : LogFile ι),
      s.shared = l → s.Answers P turn → s.step turn = some t →
        t.shared = l ∨ ∃ d l', l.Answers P d ∧ l.step d = some l' ∧ t.shared = l' := by
    rintro s l turn t rfl hP hstep
    rcases step_shared hP hstep with hsame | ⟨d, -, hd, hnext⟩
    · exact Or.inl hsame
    · exact Or.inr ⟨d, t.shared, hd, hnext, rfl⟩
  obtain ⟨ds, l, hmeets', hrun', rfl⟩ := run_simulates hturn rfl hmeets hrun
  exact ⟨ds, hmeets', hrun'⟩

/-! ## What every turn keeps -/

/-- The sessions are logged, and the main thread leaves `run` between two calls and on
request. -/
structure Sound (fd : ι → FileDescriptor) (separator : UInt8) (s : LogFile ι) : Prop where
  tracks : s.shared.Tracks fd separator
  requested : s.joining = true → s.stopRequested = true
  quiet : s.joining = true → s.shared.quiet = true

theorem sound_start (data : ℕ → UInt8) (separator : UInt8) (fd : ι → FileDescriptor) :
    (start data separator fd).Sound fd separator :=
  ⟨SharedLog.tracks_start data separator fd, by rintro ⟨⟩, by rintro ⟨⟩⟩

/-- The writer thread does not make the main thread busy. -/
theorem busy_consumer {q t : QueryQueue} {more : Bool} (h : q.step (.consumer more) = some t) :
    t.busy = q.busy := by
  obtain ⟨spsc, hspsc, rfl⟩ := Option.map_eq_some_iff.mp h
  obtain ⟨hproducer, htodo, -⟩ := Spsc.consumerStep_frame hspsc
  unfold QueryQueue.busy
  rw [hproducer, htodo]

/-- In `run` the main thread does what the sessions do. -/
theorem mainStep_of_step {s : LogFile ι} {turn : LogTurn ι} {shared : SharedLog ι}
    (hserving : s.joining = false) (h : s.shared.step turn = some shared) :
    s.mainStep turn = some { s with shared } := by
  have hrun : ¬ s.joining = true := by
    rw [hserving]
    exact Bool.false_ne_true
  rw [mainStep, if_neg hrun, h, Option.map_some]

/-- The main thread takes a step. -/
theorem mainStep_sound {s : LogFile ι} (h : s.Sound fd separator) (turn : LogTurn ι) :
    ∃ t, s.mainStep turn = some t ∧ t.Sound fd separator := by
  by_cases hjoining : s.joining = true
  · exact ⟨s, if_pos hjoining, h⟩
  · obtain ⟨shared, hshared, htracks⟩ := SharedLog.step_tracks s.shared turn h.tracks
    exact ⟨{ s with shared }, mainStep_of_step (by simpa using hjoining) hshared, htracks,
      fun hj => absurd hj hjoining, fun hj => absurd hj hjoining⟩

theorem step_sound (s : LogFile ι) (turn : FileTurn ι) (h : s.Sound fd separator) :
    ∃ t, s.step turn = some t ∧ t.Sound fd separator := by
  cases turn with
  | call i c => exact mainStep_sound h (.call i c)
  | add => exact mainStep_sound h .add
  | main => exact mainStep_sound h .main
  | signal => exact ⟨_, rfl, h.tracks, fun _ => rfl, h.quiet⟩
  | leave =>
    have hleft : (s.joining || (s.stopRequested && s.shared.quiet)) = true →
        s.stopRequested = true ∧ s.shared.quiet = true := by
      intro hjoining
      rcases (Bool.or_eq_true _ _).mp hjoining with hbefore | hnow
      · exact ⟨h.requested hbefore, h.quiet hbefore⟩
      · exact Bool.and_eq_true_iff.mp hnow
    exact ⟨_, rfl, h.tracks, fun hj => (hleft hj).1, fun hj => (hleft hj).2⟩
  | writer =>
    obtain ⟨w, hw, -⟩ := FileWriter.step_inv s.writer .writer h.tracks.safe.inv
    refine ⟨s.setWriter w, congrArg (Option.map _) hw, ?_⟩
    rcases writerStep_queue hw with hsame | hqueue
    · have heq : (s.setWriter w).shared = s.shared := congrArg
        (fun queue => { s.shared with queue }) hsame
      exact ⟨heq ▸ h.tracks, h.requested, fun hjoining => heq ▸ h.quiet hjoining⟩
    · obtain ⟨shared, hshared, htracks⟩ := SharedLog.step_tracks s.shared (.writer true) h.tracks
      obtain rfl : (s.setWriter w).shared = shared :=
        Option.some.inj ((congrArg (Option.map _) hqueue).symm.trans hshared)
      refine ⟨htracks, h.requested, fun hjoining => ?_⟩
      rw [← h.quiet hjoining, SharedLog.quiet, SharedLog.quiet]
      exact congrArg (fun busy => s.shared.pending.isEmpty && !busy) (busy_consumer hqueue)

theorem run_sound (data : ℕ → UInt8) (separator : UInt8) (fd : ι → FileDescriptor)
    (turns : List (FileTurn ι)) :
    ∃ s, run step (start data separator fd) turns = some s ∧ s.Sound fd separator :=
  run_total step_sound (sound_start data separator fd) turns

/-! ## Whole lines -/

/-- What was accepted begins some records, also in the middle of a call. -/
theorem accepted_prefix {q : QueryQueue} {old kept : List Text} {last : Option Text}
    (h : q.Whole old kept last) :
    ∃ kept' : List Text, kept'.Sublist q.added ∧
      q.spsc.accepted.flatten <+: terminated q.separator kept' := by
  have hlast : terminated q.separator last.toList =
      (last.map (QueryProcessor.record q.separator)).getD [] := by
    cases last with
    | none => rfl
    | some message => exact List.flatMap_singleton _ _
  rw [h.added]
  by_cases hstored : q.stored = some true
  · refine ⟨kept ++ last.toList, h.kept_sublist.append (List.Sublist.refl _), ?_⟩
    rw [h.accepted, if_pos hstored, terminated_append, hlast, ← h.rest]
    exact (List.prefix_append_right_inj _).mpr (List.prefix_append _ _)
  · refine ⟨kept, h.kept_sublist.trans (List.sublist_append_left _ _), ?_⟩
    rw [h.accepted, if_neg hstored, List.append_nil]
    exact List.prefix_refl _

/-- **Whole lines, at every moment.**  However the clients' bytes arrive, the threads are
interleaved and the signal comes: no assertion fails; and if the requests of each message are
answered alike, then at every moment the file begins a sequence of records, woven from some of
the texts of each session, in order.  If no text contains the separator, the lines of the file
are the first of these texts. -/
theorem log_file_lines (data : ℕ → UInt8) (separator : UInt8) (fd : ι → FileDescriptor)
    (turns : List (FileTurn ι)) :
    ∃ s, run step (start data separator fd) turns = some s ∧
      (Meets step (Answers QueryQueue.Uniform) (start data separator fd) turns →
        ∃ kept g, (∀ i, (g i).Sublist (s.shared.texts fd i)) ∧ Woven g kept ∧
          s.file <+: terminated separator kept ∧
          ((∀ i, ∀ text ∈ s.shared.texts fd i, separator ∉ text) →
            fields separator s.file <+: kept)) := by
  obtain ⟨s, hrun, hsound⟩ := run_sound data separator fd turns
  refine ⟨s, hrun, fun hmeets => ?_⟩
  obtain ⟨ls, hlogged, hshared⟩ := shared_run hmeets hrun
  obtain ⟨ds, hmeets', hqueue⟩ :=
    SharedLog.queue_run (fun _ _ => trivial) (fun _ _ => trivial) hlogged hshared
  obtain ⟨old, kept₀, last, hwhole⟩ := run_invariant
    (fun _ _ _ hI hP hs => QueryQueue.Whole.step hI hP hs)
    ⟨[], [], none, QueryQueue.whole_start data separator⟩ hmeets' hqueue
  obtain ⟨kept, hkept, haccepted⟩ := accepted_prefix hwhole
  obtain ⟨f, hwoven, hf⟩ := hsound.tracks.woven
  obtain ⟨g, hg, hweaving⟩ := hwoven.of_sublist hkept
  have hgtexts : ∀ i, (g i).Sublist (s.shared.texts fd i) := fun i => by
    rw [← hf i]
    exact (hg i).trans (List.sublist_append_left _ _)
  have hseparator : s.shared.queue.separator = separator := hsound.tracks.safe.separator_eq
  have hfile : s.file <+: terminated separator kept := by
    rw [← hseparator]
    exact hsound.tracks.safe.inv.consumed_prefix.trans haccepted
  refine ⟨kept, g, hgtexts, hweaving, hfile, fun hfree => ?_⟩
  have hlines : fields separator (terminated separator kept) = kept := by
    refine fields_terminated_iff.mpr fun text htext => ?_
    obtain ⟨i, hi⟩ := hweaving.exists_mem htext
    exact hfree i text ((hgtexts i).mem hi)
  rw [← hlines]
  exact fields_prefix separator hfile

/-! ## The end of the writer thread -/

/-- The most steps that are left for a round of the writer thread. -/
def roundLeft : ConsumerPc → ℕ
  | .idle => QueryProcessor.BUFF_SZ + 5
  | pc => pc.remaining QueryProcessor.BUFF_SZ

/-- The most steps that are left for the writer thread, once a stop is requested. -/
def stepsLeft (s : LogFile ι) : ℕ :=
  match s.pc with
  | .returned => 0
  | .testing => 1
  | .sleeping => 2
  | .processed _ => 3
  | .processing => roundLeft s.shared.queue.spsc.consumer + 3

theorem roundLeft_of_ne_idle {pc : ConsumerPc} (h : pc ≠ .idle) :
    roundLeft pc = pc.remaining QueryProcessor.BUFF_SZ := by
  cases pc with
  | idle => exact absurd rfl h
  | acquiring r => rfl
  | loadingI r w => rfl
  | reading pos len k => rfl
  | storingR pos len k r => rfl

theorem roundLeft_pos (pc : ConsumerPc) : 0 < roundLeft pc := by
  by_cases hidle : pc = .idle
  · rw [hidle]
    exact Nat.succ_pos _
  · rw [roundLeft_of_ne_idle hidle]
    exact Nat.pos_of_ne_zero fun hzero => hidle (Spsc.idle_of_remaining hzero)

/-- A round is never longer than this. -/
theorem roundLeft_le {q : QueryThreads} (h : q.Inv) :
    roundLeft q.consumer ≤ QueryProcessor.BUFF_SZ + 5 := by
  by_cases hidle : q.consumer = .idle
  · rw [hidle]
    exact Nat.le_refl _
  · rw [roundLeft_of_ne_idle hidle]
    exact Nat.le_succ_of_le h.remaining_le

theorem stepsLeft_le {s : LogFile ι} (h : s.Sound fd separator) :
    s.stepsLeft ≤ QueryProcessor.BUFF_SZ + 8 := by
  have hround := roundLeft_le h.tracks.safe.inv
  unfold stepsLeft
  split
  · exact Nat.zero_le _
  · exact Nat.le_add_left 1 _
  · exact Nat.le_add_left 2 _
  · exact Nat.le_add_left 3 _
  · exact Nat.add_le_add_right hround 3

/-- **A step in a round** is one step less. -/
theorem roundLeft_consumerStep {q p : QueryThreads} (h : q.Inv)
    (hstep : q.consumerStep true = some p) (hround : p.consumer ≠ .idle) :
    roundLeft p.consumer < roundLeft q.consumer := by
  rw [roundLeft_of_ne_idle hround]
  by_cases hidle : q.consumer = .idle
  · obtain ⟨p', hp', hinv⟩ := Spsc.consumerStep_inv q true h
    obtain rfl := Option.some.inj (hp'.symm.trans hstep)
    rw [hidle]
    exact Nat.lt_succ_of_le hinv.remaining_le
  · rw [roundLeft_of_ne_idle hidle]
    exact Spsc.remaining_consumerStep h hstep hidle

/-- The main thread leaves the writer thread where it is, and a stop stays requested. -/
theorem step_frame {s t : LogFile ι} {turn : FileTurn ι} (hturn : turn.isWriter = false)
    (hstep : s.step turn = some t) :
    t.pc = s.pc ∧ t.shared.queue.spsc.consumer = s.shared.queue.spsc.consumer ∧
      t.file = s.file ∧ (s.stopRequested = true → t.stopRequested = true) := by
  have hmain : ∀ d : LogTurn ι, (∀ more, d ≠ .writer more) → s.mainStep d = some t →
      t.pc = s.pc ∧ t.shared.queue.spsc.consumer = s.shared.queue.spsc.consumer ∧
        t.file = s.file ∧ (s.stopRequested = true → t.stopRequested = true) := by
    intro d hd hmain
    rcases mainStep_cases hmain with rfl | ⟨shared, hshared, rfl⟩
    · exact ⟨rfl, rfl, rfl, id⟩
    · obtain ⟨hconsumer, hconsumed⟩ := SharedLog.step_frame hd hshared
      exact ⟨rfl, hconsumer, hconsumed, id⟩
  cases turn with
  | call i c => exact hmain (.call i c) (fun _ => by rintro ⟨⟩) hstep
  | add => exact hmain .add (fun _ => by rintro ⟨⟩) hstep
  | main => exact hmain .main (fun _ => by rintro ⟨⟩) hstep
  | signal =>
    obtain rfl := Option.some.inj hstep
    exact ⟨rfl, rfl, rfl, fun _ => rfl⟩
  | leave =>
    obtain rfl := Option.some.inj hstep
    exact ⟨rfl, rfl, rfl, id⟩
  | writer => cases hturn

/-- **A step of the writer thread** is one step less, once a stop is requested. -/
theorem stepsLeft_writer {s t : LogFile ι} (h : s.Sound fd separator)
    (hstop : s.stopRequested = true) (hpc : s.pc ≠ .returned) (hstep : s.step .writer = some t) :
    t.stepsLeft < s.stepsLeft := by
  have hinv := h.tracks.safe.inv
  obtain ⟨⟨handler, pending, q, calls⟩, stop, joining, pc⟩ := s
  obtain rfl : stop = true := hstop
  cases pc with
  | testing =>
    obtain rfl := Option.some.inj hstep
    exact Nat.zero_lt_one
  | sleeping =>
    obtain rfl := Option.some.inj hstep
    exact Nat.lt_succ_self 1
  | processed n =>
    obtain rfl := Option.some.inj hstep
    by_cases hzero : n = 0
    · simp only [setWriter, writer, stepsLeft, if_pos hzero]
      exact Nat.lt_succ_self 2
    · simp only [setWriter, writer, stepsLeft, if_neg hzero]
      exact Nat.le_succ 2
  | processing =>
    obtain ⟨spsc, hspsc, -⟩ := Spsc.consumerStep_inv q.spsc true hinv
    have hq : q.step (.consumer true) = some { q with spsc } := congrArg (Option.map _) hspsc
    by_cases hround : spsc.consumer = .idle
    · have hmoved : FileWriter.writerStep ⟨q, true, .processing⟩ =
          some ⟨{ q with spsc }, true, .processed (FileWriter.result q.spsc.consumer)⟩ := by
        simp only [FileWriter.writerStep, hq, Option.map_some, hround]
      obtain rfl := Option.some.inj ((congrArg (Option.map _) hmoved).symm.trans hstep)
      show 3 < roundLeft q.spsc.consumer + 3
      exact Nat.lt_add_of_pos_left (roundLeft_pos q.spsc.consumer)
    · have hmoved : FileWriter.writerStep ⟨q, true, .processing⟩ =
          some ⟨{ q with spsc }, true, .processing⟩ := by
        simp only [FileWriter.writerStep, hq, Option.map_some]
      obtain rfl := Option.some.inj ((congrArg (Option.map _) hmoved).symm.trans hstep)
      exact Nat.add_lt_add_right (roundLeft_consumerStep hinv hspsc hround) 3
  | returned => exact absurd rfl hpc

/-- Behind its loop the writer thread does nothing any more. -/
theorem returned_stays {s t : LogFile ι} {turn : FileTurn ι} (hpc : s.pc = .returned)
    (hstep : s.step turn = some t) : t.pc = .returned ∧ t.file = s.file := by
  by_cases hturn : turn.isWriter = true
  · cases turn with
    | writer =>
      have hstay : s.writer.writerStep = some s.writer := by
        unfold FileWriter.writerStep
        rw [writer, hpc]
      obtain rfl := Option.some.inj ((congrArg (Option.map _) hstay).symm.trans hstep)
      exact ⟨hpc, rfl⟩
    | call i c => cases hturn
    | add => cases hturn
    | main => cases hturn
    | signal => cases hturn
    | leave => cases hturn
  · obtain ⟨hsame, -, hfile, -⟩ := step_frame (by simpa using hturn) hstep
    exact ⟨hsame.trans hpc, hfile⟩

/-- The same, whatever the sessions do. -/
theorem run_returned_stays {s : LogFile ι} (h : s.Sound fd separator) (hpc : s.pc = .returned)
    (rest : List (FileTurn ι)) :
    ∃ u, run step s rest = some u ∧ u.Sound fd separator ∧ u.pc = .returned ∧ u.file = s.file :=
  run_total (fun t turn ht => by
    obtain ⟨u, hstep, hsound⟩ := step_sound t turn ht.1
    obtain ⟨hreturned, hfile⟩ := returned_stays ht.2.1 hstep
    exact ⟨u, hstep, hsound, hreturned, hfile.trans ht.2.2⟩) ⟨h, hpc, rfl⟩ rest

/-- **Once a stop is requested the writer thread comes to its end.** -/
theorem returns {s : LogFile ι} (h : s.Sound fd separator) (hstop : s.stopRequested = true)
    {more : List (FileTurn ι)}
    (hmore : QueryProcessor.BUFF_SZ + 8 ≤ more.countP FileTurn.isWriter) :
    ∃ t, run step s more = some t ∧ t.Sound fd separator ∧ t.pc = .returned := by
  have hturn : ∀ (s : LogFile ι) (turn : FileTurn ι),
      s.Sound fd separator ∧ s.stopRequested = true → ¬ s.pc = .returned →
      ∃ t, s.step turn = some t ∧ (t.Sound fd separator ∧ t.stopRequested = true) ∧
        t.stepsLeft ≤ s.stepsLeft ∧ (turn.isWriter = true → t.stepsLeft < s.stepsLeft) := by
    intro s turn hs hpc
    obtain ⟨t, ht, hsound⟩ := step_sound s turn hs.1
    by_cases hwriter : turn.isWriter = true
    · obtain rfl : turn = .writer := by cases turn <;> first | rfl | cases hwriter
      have hless := stepsLeft_writer hs.1 hs.2 hpc ht
      obtain ⟨w, -, rfl⟩ := Option.map_eq_some_iff.mp ht
      exact ⟨_, ht, ⟨hsound, hs.2⟩, Nat.le_of_lt hless, fun _ => hless⟩
    · obtain ⟨hsame, hconsumer, -, hstopped⟩ := step_frame (by simpa using hwriter) ht
      refine ⟨t, ht, ⟨hsound, hstopped hs.2⟩, Nat.le_of_eq ?_, fun hw => absurd hw hwriter⟩
      rw [stepsLeft, stepsLeft, hsame, hconsumer]
  have hzero : ∀ s : LogFile ι, s.stepsLeft = 0 → s.pc = .returned := by
    intro s hs
    unfold stepsLeft at hs
    split at hs
    · assumption
    · cases hs
    · cases hs
    · cases hs
    · cases hs
  obtain ⟨before, after, t, rfl, hrun, ⟨hsound, -⟩, hreturned⟩ := run_finishes FileTurn.isWriter
    stepsLeft hzero hturn ⟨h, hstop⟩ (Nat.le_trans (stepsLeft_le h) hmore)
  obtain ⟨u, hrest, husound, hpc, -⟩ := run_returned_stays hsound hreturned after
  exact ⟨u, by rw [run_append, hrun, Option.bind_some, hrest], husound, hpc⟩

/-- **The writer thread can be joined.**  From every state that an interleaving reaches with a
stop requested, the writer thread is behind its loop after `BUFF_SZ + 8` steps of its own, and
the file is not touched any more; between these steps the sessions may do anything, or nothing. -/
theorem writer_joins (data : ℕ → UInt8) (separator : UInt8) (fd : ι → FileDescriptor)
    (turns : List (FileTurn ι)) :
    ∃ s, run step (start data separator fd) turns = some s ∧ (s.stopRequested = true →
      ∀ more : List (FileTurn ι), QueryProcessor.BUFF_SZ + 8 ≤ more.countP FileTurn.isWriter →
        ∃ t, run step s more = some t ∧ t.pc = .returned ∧
          ∀ rest u, run step t rest = some u → u.file = t.file) := by
  obtain ⟨s, hrun, hsound⟩ := run_sound data separator fd turns
  refine ⟨s, hrun, fun hstop more hmore => ?_⟩
  obtain ⟨t, hrest, htsound, hpc⟩ := returns hsound hstop hmore
  refine ⟨t, hrest, hpc, fun rest u hu => ?_⟩
  obtain ⟨u', hu', -, -, hfile⟩ := run_returned_stays htsound hpc rest
  obtain rfl := Option.some.inj (hu'.symm.trans hu)
  exact hfile

/-! ## What is in the file at the end -/

/-- The main thread is at the join, so the writer thread is alone. -/
theorem joining_step {s t : LogFile ι} (turn : FileTurn ι) (hjoining : t.joining = true)
    (h : FileWriter.Ending s.writer t.writer) :
    ∃ u, t.step turn = some u ∧ u.joining = true ∧ FileWriter.Ending s.writer u.writer := by
  have hstays : ∀ d, t.mainStep d = some t := fun d => if_pos hjoining
  have hstop : t.stopRequested = true := h.stopped.requested
  cases turn with
  | call i c => exact ⟨t, hstays (.call i c), hjoining, h⟩
  | add => exact ⟨t, hstays .add, hjoining, h⟩
  | main => exact ⟨t, hstays .main, hjoining, h⟩
  | signal =>
    refine ⟨{ t with stopRequested := true }, rfl, hjoining, ?_⟩
    show FileWriter.Ending s.writer ⟨t.shared.queue, true, t.pc⟩
    rw [← hstop]
    exact h
  | leave =>
    refine ⟨{ t with joining := t.joining || (t.stopRequested && t.shared.quiet) }, rfl, ?_, h⟩
    show (t.joining || _) = true
    rw [hjoining, Bool.true_or]
  | writer =>
    obtain ⟨w, hw, hnext, -⟩ := FileWriter.writerStep_ending h.stopped
    refine ⟨t.setWriter w, congrArg (Option.map _) hw, hjoining, ?_⟩
    have hsame : (t.setWriter w).writer = w := by
      show (⟨w.dataProcessor, t.stopRequested, w.pc⟩ : FileWriter) = w
      rw [hstop, ← hnext.stopped.requested]
    rw [hsame]
    exact h.trans hnext

/-- The rest of the run is the end of the writer thread. -/
theorem joining_run {s : LogFile ι} (h : s.Sound fd separator) (hjoining : s.joining = true)
    (more : List (FileTurn ι)) :
    ∃ t, run step s more = some t ∧ t.joining = true ∧ FileWriter.Ending s.writer t.writer := by
  have hbusy : s.shared.queue.busy = false := (h.tracks.added (h.quiet hjoining)).2
  exact run_total (fun _ turn ht => joining_step turn ht.1 ht.2)
    ⟨hjoining, ⟨h.requested hjoining, hbusy, h.tracks.safe.inv⟩, rfl, rfl⟩ more

/-- The end of a run in which no request is refused, from the join on. -/
theorem complete_iff {data : ℕ → UInt8} {turns : List (FileTurn ι)} {s : LogFile ι}
    (hrun : run step (start data QueryQueue.NEWLINE fd) turns = some s)
    (hgrants : Meets step (Answers QueryQueue.Grants) (start data QueryQueue.NEWLINE fd) turns)
    (hjoining : s.joining = true) {more : List (FileTurn ι)}
    (hmore : QueryProcessor.BUFF_SZ + 8 ≤ more.countP FileTurn.isWriter) :
    ∃ t, run step s more = some t ∧ t.pc = .returned ∧
      (Woven (s.shared.texts fd) (fields QueryQueue.NEWLINE t.file) ↔
        (∀ i, ∀ text ∈ s.shared.texts fd i, QueryQueue.NEWLINE ∉ text) ∧
          s.writer.coming = s.writer.unwritten.length) := by
  obtain ⟨s', hrun', hsound⟩ := run_sound data QueryQueue.NEWLINE fd turns
  obtain rfl := Option.some.inj (hrun.symm.trans hrun')
  obtain ⟨ls, hlogged, hshared⟩ := shared_run hgrants hrun
  obtain ⟨hwoven, htotal⟩ :=
    SharedLog.total_of_granted hlogged hshared (hsound.quiet hjoining)
  obtain ⟨t, hrest, -, hpc⟩ := returns hsound (hsound.requested hjoining) hmore
  obtain ⟨t', hrest', -, hending⟩ := joining_run hsound hjoining more
  obtain rfl := Option.some.inj (hrest.symm.trans hrest')
  refine ⟨t, hrest, hpc, ?_⟩
  -- how much of all the texts is in the file
  have hbegins : t.file <+: terminated QueryQueue.NEWLINE s.shared.queue.added := by
    have hquiet : s.shared.queue.busy = false :=
      (hsound.tracks.added (hsound.quiet hjoining)).2
    have haccepted : t.writer.accepted = s.writer.accepted := hending.accepted
    have hwhole : s.writer.accepted = terminated QueryQueue.NEWLINE s.shared.queue.added := by
      rw [← htotal]
      exact (hsound.tracks.safe.inv.consumed_buffered
        (QueryQueue.idle_of_not_busy hquiet).1).symm
    rw [← hwhole, ← haccepted]
    exact hending.stopped.inv.consumed_prefix
  have hlength : t.file.length = s.file.length + s.writer.coming :=
    hending.length_written hpc
  have hall : (terminated QueryQueue.NEWLINE s.shared.queue.added).length =
      s.file.length + s.writer.unwritten.length := by
    rw [← htotal, List.length_append]
    rfl
  constructor
  · intro hlines
    have hfree : ∀ i, ∀ text ∈ s.shared.texts fd i, QueryQueue.NEWLINE ∉ text :=
      fun i text htext => notMem_of_mem_fields ((hlines.sublist i).mem htext)
    refine ⟨hfree, ?_⟩
    by_contra hne
    have hshort := length_fields_lt hbegins (by
      have := hbegins.length_le
      omega)
    rw [SharedLog.lines_of_newlineFree hwoven hfree] at hshort
    exact Nat.ne_of_lt hshort (hlines.perm hwoven).length_eq
  · rintro ⟨hfree, hcoming⟩
    have hfile : t.file = terminated QueryQueue.NEWLINE s.shared.queue.added :=
      hbegins.eq_of_length (by omega)
    rw [hfile, SharedLog.lines_of_newlineFree hwoven hfree]
    exact hwoven

/-- **When the file is complete.**  Take any run in which no request is refused, up to a moment
at which the main thread is at the join.  Once the writer thread is behind its loop, the lines of
the file are woven from the texts of all sessions, none missing and each session's in order, if
and only if no text contains a newline and all that was unwritten at that moment is what the
writer thread was then going to write in its turn of the loop. -/
theorem log_file_complete (data : ℕ → UInt8) (fd : ι → FileDescriptor)
    (turns : List (FileTurn ι)) :
    ∃ s, run step (start data QueryQueue.NEWLINE fd) turns = some s ∧
      (Meets step (Answers QueryQueue.Grants) (start data QueryQueue.NEWLINE fd) turns →
        s.joining = true → ∀ more : List (FileTurn ι),
          QueryProcessor.BUFF_SZ + 8 ≤ more.countP FileTurn.isWriter →
          ∃ t, run step s more = some t ∧ t.pc = .returned ∧
            (Woven (s.shared.texts fd) (fields QueryQueue.NEWLINE t.file) ↔
              (∀ i, ∀ text ∈ s.shared.texts fd i, QueryQueue.NEWLINE ∉ text) ∧
                s.writer.coming = s.writer.unwritten.length)) := by
  obtain ⟨s, hrun, -⟩ := run_sound data QueryQueue.NEWLINE fd turns
  exact ⟨s, hrun, fun hgrants hjoining _ hmore => complete_iff hrun hgrants hjoining hmore⟩

/-! ## A run with one query -/

section Letter

/-- The client's bytes have been handled, and its text is in the query processor. -/
def letterAdded (s : LogFile ι) (i : ι) (fd : FileDescriptor) : LogFile ι :=
  { s with shared := s.shared.letterAdded i fd }

/-- In between: the text is still to be added. -/
def letterCalled (s : LogFile ι) (i : ι) (fd : FileDescriptor) : LogFile ι :=
  { s with shared := s.shared.letterCalled i fd }

section

variable {s : LogFile ι} {i : ι} {fd : FileDescriptor} (hrunning : s.joining = false)
  (hquiet : s.shared.quiet = true) (hinit : s.shared.handler i = .init fd)
  {turns : List (FileTurn ι)}

include hrunning hquiet

theorem step_add : (s.letterCalled i fd).step .add = some (s.letterAdded i fd) :=
  mainStep_of_step hrunning (SharedLog.step_add hquiet)

include hinit

theorem step_letter : s.step (.call i SharedLog.letterCall) = some (s.letterCalled i fd) :=
  mainStep_of_step hrunning (SharedLog.step_letter hquiet hinit)

/-- A run that begins so. -/
theorem run_letter : run step s (.call i SharedLog.letterCall :: .add :: turns) =
    run step (s.letterAdded i fd) turns :=
  run_step (step_letter hrunning hquiet hinit) (run_step (step_add hrunning hquiet) rfl)

theorem meets_letter {P : LogFile ι → FileTurn ι → Prop} (hcall : P s (.call i SharedLog.letterCall))
    (hadd : P (s.letterCalled i fd) .add) (h : Meets step P (s.letterAdded i fd) turns) :
    Meets step P s (.call i SharedLog.letterCall :: .add :: turns) := by
  refine ⟨hcall, fun t ht => ?_⟩
  obtain rfl := Option.some.inj ((step_letter hrunning hquiet hinit).symm.trans ht)
  refine ⟨hadd, fun t' ht' => ?_⟩
  obtain rfl := Option.some.inj ((step_add hrunning hquiet).symm.trans ht')
  exact h

end

variable (fd : ι → FileDescriptor) (i : ι)

/-- The text is stored, the writer thread begins a turn of its loop, and then a signal comes. -/
def letterEnd : List (FileTurn ι) := List.replicate 17 .main ++ [.writer, .signal, .leave]

/-- The bytes of one client arrive, the text is stored, and then a signal comes. -/
def letterTurns : List (FileTurn ι) := .call i SharedLog.letterCall :: .add :: letterEnd

theorem grants_letter : Meets step (Answers QueryQueue.Grants)
    (start (fun _ => 0) QueryQueue.NEWLINE fd) (letterTurns i) := by
  have hinit : (start (fun _ => 0) QueryQueue.NEWLINE fd).shared.handler i = .init (fd i) := rfl
  exact meets_letter rfl rfl hinit trivial trivial (of_decide_eq_true rfl)

theorem letter_ends : ∃ s,
    run step (start (fun _ => 0) QueryQueue.NEWLINE fd) (letterTurns i) = some s ∧
      s.joining = true ∧ s.writer.coming = s.writer.unwritten.length ∧
      s.shared.calls = Function.update (fun _ => []) i [SharedLog.letterCall] := by
  have heval : (run step
      ((start (fun _ => 0) QueryQueue.NEWLINE fd).letterAdded i (fd i)) letterEnd).map
      (fun s => (s.joining, s.writer.coming, s.writer.unwritten.length, s.shared.calls)) =
        some (true, 2, 2, Function.update (fun _ => []) i [SharedLog.letterCall]) := rfl
  obtain ⟨s, hrest, hs⟩ := Option.map_eq_some_iff.mp heval
  simp only [Prod.mk.injEq] at hs
  obtain ⟨hjoining, hcoming, hunwritten, hcalls⟩ := hs
  exact ⟨s, (run_letter rfl rfl rfl).trans hrest, hjoining, hcoming.trans hunwritten.symm, hcalls⟩

/-- The text has no newline. -/
theorem newlineFree_letter {s : LogFile ι}
    (hcalls : s.shared.calls = Function.update (fun _ => []) i [SharedLog.letterCall]) :
    ∀ j, ∀ text ∈ s.shared.texts fd j, QueryQueue.NEWLINE ∉ text := by
  intro j text htext
  rw [SharedLog.texts, hcalls] at htext
  by_cases hij : j = i
  · subst hij
    rw [Function.update_self, Handler.run, SharedLog.call_letter] at htext
    obtain rfl := List.mem_singleton.mp htext
    decide
  · rw [Function.update_of_ne hij] at htext
    cases htext

end Letter

omit [DecidableEq ι] in
/-- As many steps as the writer thread needs. -/
theorem writers_enough : QueryProcessor.BUFF_SZ + 8 ≤ (List.replicate (QueryProcessor.BUFF_SZ + 8)
    (.writer : FileTurn ι)).countP FileTurn.isWriter := by
  rw [List.countP_replicate]
  exact Nat.le_refl _

/-- Two clients, and the file has the one line. -/
theorem log_file_complete_letter : ∃ s t,
    run step (start (fun _ => 0) QueryQueue.NEWLINE SharedLog.twoSockets) (letterTurns false) =
      some s ∧
    run step s (List.replicate (QueryProcessor.BUFF_SZ + 8) .writer) = some t ∧
    Woven (s.shared.texts SharedLog.twoSockets) (fields QueryQueue.NEWLINE t.file) := by
  obtain ⟨s, hrun, hjoining, hcoming, hcalls⟩ := letter_ends SharedLog.twoSockets false
  obtain ⟨s', hrun', hcomplete⟩ :=
    log_file_complete (fun _ => 0) SharedLog.twoSockets (letterTurns false)
  obtain rfl := Option.some.inj (hrun.symm.trans hrun')
  obtain ⟨t, hrest, -, hlines⟩ :=
    hcomplete (grants_letter SharedLog.twoSockets false) hjoining _ writers_enough
  exact ⟨s, t, hrun, hrest, hlines.mpr ⟨newlineFree_letter _ false hcalls, hcoming⟩⟩

/-! ## A run with two clients -/

/-- Both have sent nothing yet. -/
def twoStart : LogFile Bool := start (fun _ => 0) QueryQueue.NEWLINE SharedLog.twoSockets

/-- The main thread stores a text, and the writer thread writes it. -/
def letterWritten : List (FileTurn Bool) := List.replicate 14 .main ++ List.replicate 10 .writer

/-- The bytes of one client arrive, and then those of the other. -/
def twoTurns : List (FileTurn Bool) :=
  (.call false SharedLog.letterCall :: .add :: letterWritten) ++
    .call true SharedLog.letterCall :: .add :: letterWritten

theorem one_runs : (run step (twoStart.letterAdded false 7) letterWritten).isSome = true := by
  decide

/-- The text of the first client is in the file. -/
def oneWritten : LogFile Bool :=
  (run step (twoStart.letterAdded false 7) letterWritten).get one_runs

theorem run_one : run step twoStart (.call false SharedLog.letterCall :: .add :: letterWritten) =
    some oneWritten :=
  (run_letter rfl rfl rfl).trans (Option.some_get one_runs).symm

/-- A condition holds along the run if it holds where the texts are added and in between. -/
theorem meets_two {P : LogFile Bool → FileTurn Bool → Prop}
    (hcall : P twoStart (.call false SharedLog.letterCall))
    (hadd : P (twoStart.letterCalled false 7) .add)
    (hfirst : Meets step P (twoStart.letterAdded false 7) letterWritten)
    (hcall' : P oneWritten (.call true SharedLog.letterCall))
    (hadd' : P (oneWritten.letterCalled true 8) .add)
    (hsecond : Meets step P (oneWritten.letterAdded true 8) letterWritten) :
    Meets step P twoStart twoTurns := by
  refine (meets_letter rfl rfl rfl hcall hadd hfirst).append fun t ht => ?_
  obtain rfl := Option.some.inj (run_one.symm.trans ht)
  exact meets_letter rfl (by decide) rfl hcall' hadd' hsecond

theorem log_file_lines_two : ∃ s, run step twoStart twoTurns = some s ∧
    ∃ kept g, (∀ i, (g i).Sublist (s.shared.texts SharedLog.twoSockets i)) ∧ Woven g kept ∧
      s.file <+: terminated QueryQueue.NEWLINE kept ∧
      ((∀ i, ∀ text ∈ s.shared.texts SharedLog.twoSockets i, QueryQueue.NEWLINE ∉ text) →
        fields QueryQueue.NEWLINE s.file <+: kept) := by
  obtain ⟨s, hrun, hlines⟩ :=
    log_file_lines (fun _ => 0) QueryQueue.NEWLINE SharedLog.twoSockets twoTurns
  exact ⟨s, hrun, hlines (meets_two trivial trivial (by decide) trivial trivial (by decide))⟩

end LogFile

end Psql
end PsqlTcpProxy
