import PsqlTcpProxy.Proxy.Lifetime

/-!
# No event crosses sessions

While no descriptor changes its session under an event that is still to come
(`Unmixed`), every event that is to come names the session its descriptor belongs
to (`Pending`), and the callbacks of that descriptor belong to the same session
(`Lives.tagged`).  `Tracked` follows the watch along a run: what it has of the
batch and of the queue is what the bus has.
-/

namespace PsqlTcpProxy
namespace Proxy

open Library Io Server

variable {η : Type}

/-! ## The watch during a dispatch -/

namespace Watch

/-- Every event that is still to come and was a session's is still that session's. -/
def Pending (w : Watch) : Prop :=
  ∀ entry ∈ w.batch ++ w.queue, ∀ sid ∈ entry.2, w.owner entry.1.fd = some sid

theorem Pending.step {w : Watch} (h : w.Pending) {entry : Entry Callback} (hfresh : w.Fresh entry) :
    (w.step entry).Pending := by
  intro item hitem sid hsid
  cases entry with
  | added fd callback =>
    show (if item.1.fd = fd then callback.session? else w.owner item.1.fd) = some sid
    split
    · rename_i hfd
      exact hfresh item hitem hfd sid hsid
    · exact h item hitem sid hsid
  | enqueued ev =>
    rcases List.mem_append.mp hitem with hbatch | hqueue
    · exact h item (List.mem_append_left _ hbatch) sid hsid
    · rcases List.mem_append.mp hqueue with hold | hnew
      · exact h item (List.mem_append_right _ hold) sid hsid
      · rw [List.mem_singleton.mp hnew] at hsid ⊢
        exact hsid
  | polled batch =>
    rcases List.mem_append.mp hitem with hbatch | hqueue
    · obtain ⟨ev, -, rfl⟩ := List.mem_map.mp hbatch
      exact hsid
    · exact h item (List.mem_append_right _ hqueue) sid hsid
  | delivered ev =>
    rcases List.mem_append.mp hitem with hbatch | hqueue
    · exact h item (List.mem_append_left _ (List.mem_of_mem_tail hbatch)) sid hsid
    · exact h item (List.mem_append_right _ hqueue) sid hsid
  | dispatched ev =>
    rcases List.mem_append.mp hitem with hbatch | hqueue
    · exact h item (List.mem_append_left _ hbatch) sid hsid
    · exact h item (List.mem_append_right _ (List.mem_of_mem_tail hqueue)) sid hsid
  | marked _ | invoked _ _ | returned _ _ | reported _ => exact h item hitem sid hsid

/-- Without an arrival the watch only adds to the queue. -/
theorem foldl_step {l : List (Entry Callback)} (hl : ∀ e ∈ l, ¬ e.IsArrival) (w : Watch) :
    (l.foldl step w).batch = w.batch ∧ (l.foldl step w).current = w.current ∧
      (l.foldl step w).queue.map Prod.fst = w.queue.map Prod.fst ++ enqueuedIn l := by
  induction l generalizing w with
  | nil => exact ⟨rfl, rfl, (List.append_nil _).symm⟩
  | cons e l ih =>
    obtain ⟨hfirst, hrest⟩ := List.forall_mem_cons.mp hl
    obtain ⟨hbatch, hcurrent, hqueue⟩ := ih hrest (w.step e)
    rw [List.foldl_cons, hbatch, hcurrent, hqueue]
    cases e with
    | polled _ | delivered _ | dispatched _ => exact absurd trivial hfirst
    | enqueued ev => simp [Watch.step, enqueuedIn, Entry.enqueued?]
    | added _ _ | marked _ | invoked _ _ | returned _ _ | reported _ => exact ⟨rfl, rfl, rfl⟩

/-- Pending events stay pending while descriptors stay unmixed. -/
theorem Pending.foldl {w : Watch} (h : w.Pending) {l : List (Entry Callback)}
    (hl : Meets (fun w entry => some (Watch.step w entry)) Fresh w l) :
    (l.foldl Watch.step w).Pending := by
  induction l generalizing w with
  | nil => exact h
  | cons e l ih => exact ih (h.step hl.1) (hl.2 _ rfl)

/-- The callbacks that are called belong to the event, if it is a session's. -/
theorem meets_stays {l : List (Entry Callback)} {w : Watch} (hl : ∀ e ∈ l, ¬ e.IsArrival)
    (hcalled : ∀ callback ev, .invoked callback ev ∈ l →
      ∀ sid ∈ w.current, callback.session? = some sid) :
    Meets (fun w entry => some (step w entry)) Stays w l := by
  induction l generalizing w with
  | nil => trivial
  | cons e l ih =>
    obtain ⟨hfirst, hrest⟩ := List.forall_mem_cons.mp hl
    constructor
    · cases e with
      | invoked callback ev => exact hcalled callback ev List.mem_cons_self
      | added _ _ | marked _ | enqueued _ | polled _ | delivered _ | dispatched _ | returned _ _
      | reported _ => trivial
    · rintro _ ⟨⟩
      refine ih hrest fun callback ev hmem sid hsid => ?_
      have hcurrent : (w.step e).current = w.current :=
        (foldl_step (l := [e]) (by simpa using hfirst) w).2.1
      rw [hcurrent] at hsid
      exact hcalled callback ev (List.mem_cons_of_mem _ hmem) sid hsid

end Watch

theorem clean_append {l l' : List (Entry Callback)} :
    Clean (l ++ l') ↔ Clean l ∧
      Meets (fun w entry => some (Watch.step w entry)) Watch.Stays (watch l) l' :=
  meets_append _ l l'

theorem unmixed_append {l l' : List (Entry Callback)} :
    Unmixed (l ++ l') ↔ Unmixed l ∧
      Meets (fun w entry => some (Watch.step w entry)) Watch.Fresh (watch l) l' :=
  meets_append _ l l'

/-! ## The watch along a run -/

/-- No event has crossed, and none that is to come will. -/
def Sorted (s : ProxyBus η) : Prop :=
  Unmixed s.trace → Clean s.trace ∧ (watch s.trace).Pending

/-- The watch agrees with the bus, which has `batch` and `queue` still to deliver. -/
structure Tracked (cfg : Config η) (opened : List FileDescriptor) (batch queue : List Event)
    (s : ProxyBus η) : Prop where
  moment : ServerMoment cfg opened s
  batch : (watch s.trace).batch.map Prod.fst = batch
  queue : (watch s.trace).queue.map Prod.fst = queue ++ s.events
  sorted : Sorted s

namespace Tracked

variable {cfg : Config η} {opened : List FileDescriptor} {batch queue : List Event}
  {s : ProxyBus η} {ev : Event}

/-- **One dispatch.**  All it calls are the callbacks of one descriptor, which
belong to the session that registered last; and whose the event was then, it still
is. -/
theorem dispatch (h : Tracked cfg opened batch queue s)
    (hcurrent : Unmixed s.trace →
      ∀ sid ∈ (watch s.trace).current, (watch s.trace).owner ev.fd = some sid) :
    Tracked cfg opened batch queue
      (s.dispatch (host cfg) (some fun _ => pure ()) ev).2 := by
  obtain ⟨l, hemits, halone, hcalled⟩ := (Bus.dispatches (silent_server cfg) ev s).lines
  obtain ⟨hbatch, -, hqueue⟩ := Watch.foldl_step halone (watch s.trace)
  refine ⟨h.moment.dispatch ev, ?_, ?_, ?_⟩
  · rw [hemits.trace, watch_append, hbatch]
    exact h.batch
  · rw [hemits.trace, hemits.events, watch_append, hqueue, h.queue, List.append_assoc]
  · intro hunmixed
    rw [hemits.trace] at hunmixed ⊢
    obtain ⟨hbefore, hduring⟩ := unmixed_append.mp hunmixed
    obtain ⟨hclean, hpending⟩ := h.sorted hbefore
    constructor
    · refine clean_append.mpr ⟨hclean, Watch.meets_stays halone ?_⟩
      intro callback ev' hmem sid hsid
      have htagged :=
        (ServerMoment.lives h.moment).tagged ev.fd callback (hcalled callback ev' hmem)
      rw [← htagged]
      exact hcurrent hbefore sid hsid
    · rw [watch_append]
      exact hpending.foldl hduring

/-- A line that calls nothing and registers nothing. -/
theorem sorted_log (h : Tracked cfg opened batch queue s) {entry : Entry Callback}
    (hstays : ∀ w : Watch, w.Stays entry) (hfresh : ∀ w : Watch, w.Fresh entry) :
    Sorted (s.log entry) := by
  intro hunmixed
  obtain ⟨hclean, hpending⟩ := h.sorted (unmixed_append.mp hunmixed).1
  constructor
  · refine clean_append.mpr ⟨hclean, hstays _, ?_⟩
    exact fun _ _ => trivial
  · simp only [Bus.log, watch_append]
    exact hpending.foldl ⟨hfresh _, fun _ _ => trivial⟩

/-- The kernel reports a batch. -/
theorem polled (h : Tracked cfg opened [] queue s) (batch : List Event) :
    Tracked cfg opened batch queue (s.log (.polled batch)) := by
  refine ⟨h.moment.log _ (by rintro ⟨⟩), ?_, ?_, h.sorted_log (fun _ => trivial) fun _ => trivial⟩
  · simp [Bus.log, Watch.step, Function.comp_def]
  · simp only [Bus.log, watch_append, List.foldl_cons, List.foldl_nil, Watch.step]
    exact h.queue

/-- `errno` is no line of the trace. -/
theorem setErrno (h : Tracked cfg opened batch queue s) (errno : ℤ) :
    Tracked cfg opened batch queue (s.setErrno (host cfg) errno) :=
  ⟨h.moment.setErrno errno, h.batch, h.queue, h.sorted⟩

/-- An error is reported. -/
theorem reported (h : Tracked cfg opened batch queue s) (err : Error) :
    Tracked cfg opened batch queue (s.log (.reported err)) := by
  refine ⟨h.moment.log _ (by rintro ⟨⟩), ?_, ?_, h.sorted_log (fun _ => trivial) fun _ => trivial⟩
  · simp only [Bus.log, watch_append, List.foldl_cons, List.foldl_nil, Watch.step]
    exact h.batch
  · simp only [Bus.log, watch_append, List.foldl_cons, List.foldl_nil, Watch.step]
    exact h.queue

/-- **The next event of the batch.** -/
theorem deliver (h : Tracked cfg opened (ev :: batch) queue s) :
    Tracked cfg opened batch queue
      ((s.log (.delivered ev)).dispatch (host cfg) (some fun _ => pure ()) ev).2 := by
  obtain ⟨⟨first, tag⟩, rest, hcons, hfirst, hrest⟩ := List.map_eq_cons_iff.mp h.batch
  obtain rfl : first = ev := hfirst
  have hlogged : Tracked cfg opened batch queue (s.log (.delivered first)) := by
    refine ⟨h.moment.log _ (by rintro ⟨⟩), ?_, ?_, h.sorted_log (fun _ => trivial) fun _ => trivial⟩
    · simp only [Bus.log, watch_append, List.foldl_cons, List.foldl_nil, Watch.step, hcons]
      exact hrest
    · simp only [Bus.log, watch_append, List.foldl_cons, List.foldl_nil, Watch.step]
      exact h.queue
  refine hlogged.dispatch fun hunmixed sid hsid => ?_
  obtain ⟨-, hpending⟩ := h.sorted (unmixed_append.mp hunmixed).1
  simp only [Bus.log, watch_append, List.foldl_cons, List.foldl_nil, Watch.step, hcons] at hsid ⊢
  exact hpending (first, tag) (by simp [hcons]) sid hsid

/-- **The next event of the queue.** -/
theorem next (h : Tracked cfg opened batch (ev :: queue) s) :
    Tracked cfg opened batch queue
      ((s.log (.dispatched ev)).dispatch (host cfg) (some fun _ => pure ()) ev).2 := by
  obtain ⟨⟨first, tag⟩, rest, hcons, hfirst, hrest⟩ := List.map_eq_cons_iff.mp h.queue
  obtain rfl : first = ev := hfirst
  have hlogged : Tracked cfg opened batch queue (s.log (.dispatched first)) := by
    refine ⟨h.moment.log _ (by rintro ⟨⟩), ?_, ?_, h.sorted_log (fun _ => trivial) fun _ => trivial⟩
    · simp only [Bus.log, watch_append, List.foldl_cons, List.foldl_nil, Watch.step]
      exact h.batch
    · simp only [Bus.log, watch_append, List.foldl_cons, List.foldl_nil, Watch.step, hcons]
      exact hrest
  refine hlogged.dispatch fun hunmixed sid hsid => ?_
  obtain ⟨-, hpending⟩ := h.sorted (unmixed_append.mp hunmixed).1
  simp only [Bus.log, watch_append, List.foldl_cons, List.foldl_nil, Watch.step, hcons] at hsid ⊢
  exact hpending (first, tag) (by simp [hcons]) sid hsid

/-- The rest of the batch. -/
theorem deliverAll (h : Tracked cfg opened batch queue s) :
    Tracked cfg opened [] queue
      (s.native (host cfg) (some fun _ => pure ()) (Epoll.deliverAll batch)).2 := by
  induction batch generalizing s with
  | nil => exact h
  | cons ev evs ih =>
    rw [native_deliverAll_cons]
    exact ih h.deliver

/-- The rest of the queue. -/
theorem drain (h : Tracked cfg opened [] queue s) :
    Tracked cfg opened [] [] (s.drain (host cfg) (some fun _ => pure ()) queue).2 := by
  induction queue generalizing s with
  | nil => exact h
  | cons ev evs ih =>
    rw [drain_cons]
    exact ih h.next

/-- **One call of `wait_events`.** -/
theorem waitEvents (h : Tracked cfg opened [] [] s) (polled : Except ℤ (List Event)) :
    Tracked cfg opened [] []
      (s.waitEvents (host cfg) (epollWaitEvents cfg polled) (some fun _ => pure ())).2 := by
  have hnative : Tracked cfg opened [] []
      (s.native (host cfg) (some fun _ => pure ()) (epollWaitEvents cfg polled)).2 := by
    rcases polled with errno | batch
    · rw [native_errno]
      exact h.setErrno errno
    · rw [native_batch]
      exact ((h.setErrno 0).polled batch).deliverAll
  rcases hserved : s.native (host cfg) (some fun _ => pure ()) (epollWaitEvents cfg polled)
    with ⟨e | ⟨⟩, t⟩
  · rw [hserved] at hnative
    obtain ⟨err, hrefused⟩ := waitEvents_refused hserved
    rw [hrefused]
    exact hnative.reported err
  · rw [hserved] at hnative
    have hswapped : Tracked cfg opened [] t.events ({ t with events := [] } : ProxyBus η) :=
      ⟨hnative.moment.swap, hnative.batch, by rw [List.append_nil]; exact hnative.queue,
        hnative.sorted⟩
    rw [waitEvents_served hserved]
    exact hswapped.drain

end Tracked

theorem tracked_startServer (cfg : Config η) (opened : List FileDescriptor) :
    Tracked cfg opened [] [] (startServer cfg opened) := by
  refine ⟨.start, rfl, rfl, fun _ => ⟨⟨trivial, fun _ _ => trivial⟩, ?_⟩⟩
  rintro entry ⟨⟩

/-- **While no descriptor changes its session under an event that is still to
come, no event crosses sessions.**  Whatever the kernel, the clients and the
targets do, every callback that is called for an event that was a session's when
it was reported or enqueued is a callback of that session. -/
theorem no_event_crosses (cfg : Config η) (opened : List FileDescriptor)
    (polls : List (Except ℤ (List Event))) (h : Unmixed (runServer cfg opened polls).trace) :
    Clean (runServer cfg opened polls).trace := by
  have hafter : Tracked cfg opened [] [] (runServer cfg opened polls) :=
    runs_rule (fun _ polled hs => hs.waitEvents polled) (tracked_startServer cfg opened) polls
  exact (hafter.sorted h).1

set_option maxRecDepth 4000 in
/-- A run in which both descriptors of a session are reused, after its events have
been delivered. -/
theorem no_event_crosses_reusing :
    (∃ x, (runServer reusingServer [0, 1, 2, 4]
      [.ok [⟨3, Flags.in'⟩], .ok [⟨5, Flags.error⟩, ⟨3, Flags.in'⟩]]).world.sessions 1 = some x) ∧
    Clean (runServer reusingServer [0, 1, 2, 4]
      [.ok [⟨3, Flags.in'⟩], .ok [⟨5, Flags.error⟩, ⟨3, Flags.in'⟩]]).trace := by
  constructor
  · exact Option.isSome_iff_exists.mp (by decide)
  · exact no_event_crosses reusingServer [0, 1, 2, 4]
      [.ok [⟨3, Flags.in'⟩], .ok [⟨5, Flags.error⟩, ⟨3, Flags.in'⟩]] (by decide)

end Proxy
end PsqlTcpProxy
