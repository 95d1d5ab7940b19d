import PsqlTcpProxy.Proxy.SessionRule

/-!
# Ends that are announced

`Announces` is said of a property of sessions that comes with an error event: when a handler
brings it about, an error event for one of the session's descriptors is enqueued in the same
call.

Between two calls of `wait_events` every registered session with such a property has an error
event in the queue (`Heeded`).  It cannot be said of every moment: while the queue is drained,
the events that have been taken out of it are dispatched one after the other.  But a session
with an event among these is gone at the end, so it is enough to keep an eye on the others.

Hence `Announces.ends`: the call of `wait_events` in which the end of a session is announced
ends it.
-/

namespace PsqlTcpProxy
namespace Proxy

open Library Io Server

variable {η : Type} {cfg : Config η}

/-! ## Runs of dispatches -/

section Rules

variable {P : ProxyBus η → Prop} (hlog : ∀ s entry, Between entry → P s → P (s.log entry))
  (hdispatch : ∀ s ev, P s → P (s.dispatch (host cfg) (some fun _ => pure ()) ev).2)
include hlog hdispatch

/-- A batch of events. -/
theorem deliverAll_rule (batch : List Event) {s : ProxyBus η} (h : P s) :
    P (s.native (host cfg) (some fun _ => pure ()) (Epoll.deliverAll batch)).2 := by
  induction batch generalizing s with
  | nil => exact h
  | cons ev evs ih =>
    rw [native_deliverAll_cons]
    exact ih (hdispatch _ ev (hlog s (.delivered ev) trivial h))

/-- The events of the queue. -/
theorem drain_rule (evs : List Event) {s : ProxyBus η} (h : P s) :
    P (s.drain (host cfg) (some fun _ => pure ()) evs).2 := by
  induction evs generalizing s with
  | nil => exact h
  | cons ev evs ih =>
    rw [drain_cons]
    exact ih (hdispatch _ ev (hlog s (.dispatched ev) trivial h))

/-- The native phase. -/
theorem native_rule (herrno : ∀ s errno, P s → P (s.setErrno (host cfg) errno))
    (polled : Except ℤ (List Event)) {s : ProxyBus η} (h : P s) :
    P (s.native (host cfg) (some fun _ => pure ()) (epollWaitEvents cfg polled)).2 := by
  rcases polled with errno | batch
  · rw [native_errno]
    exact herrno s errno h
  · rw [native_batch]
    exact deliverAll_rule hlog hdispatch batch (hlog _ (.polled batch) trivial (herrno s 0 h))

end Rules

/-! ## Sessions that are not registered -/

/-- The session is there, and it is not registered. -/
def Unregistered (s : ProxyBus η) (sid : SessionId) : Prop :=
  s.world.sessions sid ≠ none ∧ ∀ x, ¬ Registered s sid x

section Unregistered

variable {s t : ProxyBus η} {sid : SessionId}

theorem Gone.unregistered (h : Gone s sid) : Unregistered s sid := by
  obtain ⟨hown, x, hx, -⟩ := h
  refine ⟨?_, fun y hy => ?_⟩
  · rw [hx]
    exact Option.some_ne_none x
  · have hnil : registrations sid y.client y.target y.client = [] := by
      rw [← hy.own, hown]
    rw [registrations_client] at hnil
    cases hnil

/-- **A dispatch** registers no session that was there before. -/
theorem Unregistered.dispatch (h : Unregistered s sid) (hs : Settled cfg s)
    (hclear : s.callbacksToRemove = []) (ev : Event) :
    Unregistered (s.dispatch (host cfg) (some fun _ => pure ()) ev).2 sid := by
  have hstep := hs.dispatch hclear ev
  obtain ⟨x, hx⟩ := Option.ne_none_iff_exists'.mp h.1
  obtain ⟨y, hy, hclient, htarget⟩ := hstep.sockets sid x hx
  refine ⟨?_, fun z hz => ?_⟩
  · rw [hy]
    exact Option.some_ne_none y
  · obtain rfl := Option.some.inj (hy.symm.trans hz.session)
    have hown := hstep.own sid h.1
    rw [hz.own] at hown
    split at hown
    · have hnil := congrFun hown y.client
      rw [registrations_client] at hnil
      cases hnil
    · refine h.2 x ⟨hx, ?_⟩
      rw [← hown, hclient, htarget]

/-- **Between two dispatches** it stays so. -/
theorem Unregistered.passes {evs : List Event} (h : Unregistered s sid) (hs : Settled cfg s)
    (hclear : s.callbacksToRemove = []) (hrun : Passes cfg s evs t) : Unregistered t sid := by
  induction hrun with
  | start => exact h
  | noted _ _ _ ih | swapped _ ih | errnoSet _ _ ih =>
    exact ⟨ih.1, fun x hx => ih.2 x ⟨hx.session, hx.own⟩⟩
  | dispatched ev ht ih =>
    obtain ⟨hsettled, hclear'⟩ := ht.settled hs hclear
    exact ih.dispatch hsettled hclear' ev

end Unregistered

/-! ## The sessions whose end is announced -/

/-- The session is one of `D`, or an error event is there if `T` holds of it. -/
def Heard (T : Session η → Prop) (D : SessionId → Prop) (sid : SessionId) (x : Session η)
    (evs : List Event) : Prop :=
  D sid ∨ (T x → ∃ e ∈ evs, Fatal x e)

/-- `T` comes with an error event, in sessions of which `I` holds. -/
def Announces (cfg : Config η) (I T : Session η → Prop) : Prop :=
  ∀ D : SessionId → Prop, SessionRule cfg fun sid x evs => I x ∧ Heard T D sid x evs

variable {I T : Session η → Prop}

/-- Between two dispatches, with `D` left out. -/
structure Watched (cfg : Config η) (I T : Session η → Prop) (D : SessionId → Prop)
    (s : ProxyBus η) : Prop where
  settled : Settled cfg s
  clear : s.callbacksToRemove = []
  heard : Everywhere cfg (fun sid x evs => I x ∧ Heard T D sid x evs) s

/-- Between two calls of `wait_events` no session is left out that is registered. -/
def Heeded (cfg : Config η) (I T : Session η → Prop) (s : ProxyBus η) : Prop :=
  ∃ D, Watched cfg I T D s ∧ ∀ sid, D sid → Unregistered s sid

section Watched

variable {D : SessionId → Prop} {s : ProxyBus η} {sid : SessionId} {x : Session η}

theorem Watched.log (h : Watched cfg I T D s) (entry : Entry Callback) (hentry : Between entry) :
    Watched cfg I T D (s.log entry) := by
  obtain ⟨hsettled, hclear⟩ := (Passes.start.noted entry hentry).settled h.settled h.clear
  exact ⟨hsettled, hclear, h.heard⟩

theorem Watched.dispatch (hT : Announces cfg I T) (h : Watched cfg I T D s) (ev : Event) :
    Watched cfg I T D (s.dispatch (host cfg) (some fun _ => pure ()) ev).2 := by
  have hstep := h.settled.dispatch h.clear ev
  exact ⟨hstep.settled, hstep.clear, h.heard.dispatch (hT D) ev⟩

/-- **A registered session whose end is announced** has an error event in the queue. -/
theorem Heeded.fatal (h : Heeded cfg I T s) (hx : Registered s sid x) (hTx : T x) :
    ∃ e ∈ s.events, Fatal x e := by
  obtain ⟨D, hwatched, hD⟩ := h
  obtain ⟨-, -, hheard⟩ := hwatched.heard.attached hwatched.settled hx
  exact hheard.resolve_left (fun hmem => (hD sid hmem).2 x hx) hTx

theorem Heeded.log (h : Heeded cfg I T s) (entry : Entry Callback) (hentry : Between entry) :
    Heeded cfg I T (s.log entry) := by
  obtain ⟨D, hwatched, hD⟩ := h
  refine ⟨D, hwatched.log entry hentry, fun sid hmem => ⟨(hD sid hmem).1, fun x hx => ?_⟩⟩
  exact (hD sid hmem).2 x ⟨hx.session, hx.own⟩

theorem Heeded.setErrno (h : Heeded cfg I T s) (errno : ℤ) :
    Heeded cfg I T (s.setErrno (host cfg) errno) := by
  obtain ⟨D, hwatched, hD⟩ := h
  obtain ⟨hsettled, hclear⟩ := (Passes.start.errnoSet errno).settled hwatched.settled hwatched.clear
  refine ⟨D, ⟨hsettled, hclear, hwatched.heard⟩, fun sid hmem => ⟨(hD sid hmem).1, fun x hx => ?_⟩⟩
  exact (hD sid hmem).2 x ⟨hx.session, hx.own⟩

theorem Heeded.dispatch (hT : Announces cfg I T) (h : Heeded cfg I T s) (ev : Event) :
    Heeded cfg I T (s.dispatch (host cfg) (some fun _ => pure ()) ev).2 := by
  obtain ⟨D, hwatched, hD⟩ := h
  exact ⟨D, hwatched.dispatch hT ev, fun sid hmem =>
    (hD sid hmem).dispatch hwatched.settled hwatched.clear ev⟩

/-- **The queue phase.**  The sessions left out meanwhile are those whose end was announced
before, and they are gone. -/
theorem Heeded.drain (hT : Announces cfg I T) (h : Heeded cfg I T s) :
    Heeded cfg I T (({ s with events := [] } : ProxyBus η).drain (host cfg)
      (some fun _ => pure ()) s.events).2 := by
  have hevents := h
  obtain ⟨D, hwatched, -⟩ := h
  have hpasses := ((handles_swap s).trans (handles_drain cfg s.events _)).passes
  rw [List.nil_append] at hpasses
  obtain ⟨hsettled, hclear⟩ := (Passes.start.swapped).settled hwatched.settled hwatched.clear
  let D' : SessionId → Prop := fun sid => ∃ x, s.world.sessions sid = some x ∧ T x
  have hswapped : Watched cfg I T D' { s with events := [] } := by
    refine ⟨hsettled, hclear, fun sid x hx => ?_⟩
    refine (hwatched.heard sid x hx).imp_right fun hright => ⟨hright.1, hright.2.1, ?_⟩
    by_cases hTx : T x
    · exact Or.inl ⟨x, hx, hTx⟩
    · exact Or.inr fun hTx' => absurd hTx' hTx
  refine ⟨D', drain_rule (fun t entry hentry ht => ht.log entry hentry)
    (fun t ev ht => ht.dispatch hT ev) s.events hswapped, ?_⟩
  rintro sid ⟨x, hx, hTx⟩
  by_cases hregistered : Registered s sid x
  · have hend := hregistered.passes hwatched.settled hwatched.clear hpasses
    rw [if_pos (hevents.fatal hregistered hTx)] at hend
    exact hend.unregistered
  · have hbefore : Unregistered s sid := by
      refine ⟨?_, fun y hy => ?_⟩
      · rw [hx]
        exact Option.some_ne_none x
      · obtain rfl := Option.some.inj (hx.symm.trans hy.session)
        exact hregistered hy
    exact hbefore.passes hwatched.settled hwatched.clear hpasses

/-- **One call of `wait_events`.** -/
theorem Heeded.waitEvents (hT : Announces cfg I T) (h : Heeded cfg I T s)
    (polled : Except ℤ (List Event)) :
    Heeded cfg I T (s.waitEvents (host cfg) (epollWaitEvents cfg polled)
      (some fun _ => pure ())).2 := by
  have hnative := native_rule (P := Heeded cfg I T)
    (fun _ entry hentry ht => ht.log entry hentry) (fun _ ev ht => ht.dispatch hT ev)
    (fun _ errno ht => ht.setErrno errno) polled h
  rcases hserved : s.native (host cfg) (some fun _ => pure ()) (epollWaitEvents cfg polled)
    with ⟨e | ⟨⟩, t⟩
  · rw [hserved] at hnative
    obtain ⟨err, hrefused⟩ := waitEvents_refused hserved
    rw [hrefused]
    exact hnative.log (.reported err) trivial
  · rw [hserved] at hnative
    rw [waitEvents_served hserved]
    exact hnative.drain hT

theorem heeded_startServer (opened : List FileDescriptor) :
    Heeded cfg I T (startServer cfg opened) := by
  refine ⟨fun _ => False, ⟨settled_startServer cfg opened, rfl, ?_⟩, fun _ h => h.elim⟩
  intro sid x hx
  cases hx

/-- **Every run.** -/
theorem heeded_runServer (hT : Announces cfg I T) (opened : List FileDescriptor)
    (polls : List (Except ℤ (List Event))) : Heeded cfg I T (runServer cfg opened polls) :=
  runs_rule (fun _ polled hs => hs.waitEvents hT polled) (heeded_startServer opened) polls

/-- The run in the middle of a batch: the kernel has reported `pre ++ post`, and the events of
`pre` have been dispatched. -/
def midBatch (cfg : Config η) (opened : List FileDescriptor)
    (polls : List (Except ℤ (List Event))) (pre post : List Event) : ProxyBus η :=
  ((((runServer cfg opened polls).setErrno (host cfg) 0).log (.polled (pre ++ post))).native
    (host cfg) (some fun _ => pure ()) (Epoll.deliverAll pre)).2

theorem heeded_midBatch (hT : Announces cfg I T) (opened : List FileDescriptor)
    (polls : List (Except ℤ (List Event))) (pre post : List Event) :
    Heeded cfg I T (midBatch cfg opened polls pre post) :=
  deliverAll_rule (P := Heeded cfg I T) (fun _ entry hentry ht => ht.log entry hentry)
    (fun _ ev ht => ht.dispatch hT ev) pre
    (((heeded_runServer hT opened polls).setErrno 0).log (.polled (pre ++ post)) trivial)

/-- Once gone, always gone. -/
theorem Gone.serve (hs : Settled cfg s) (hclear : s.callbacksToRemove = []) (h : Gone s sid)
    (polls : List (Except ℤ (List Event))) : Gone (serve cfg s polls) sid := by
  induction polls generalizing s with
  | nil => exact h
  | cons polled polls ih =>
    obtain ⟨evs, hcall⟩ := handles_waitEvents cfg polled s
    obtain ⟨hsettled, hclear'⟩ := hcall.passes.settled hs hclear
    exact ih hsettled hclear' (h.passes hs hclear hcall.passes).1

/-- **An end that is announced comes.**  If in the middle of a batch the end of a registered
session is announced, then an error event for it is in the queue, and it is gone when
`wait_events` returns, and stays so. -/
theorem Announces.ends (hT : Announces cfg I T) (opened : List FileDescriptor)
    (polls : List (Except ℤ (List Event))) (pre post : List Event)
    (hx : Registered (midBatch cfg opened polls pre post) sid x) (hTx : T x) :
    (∃ e ∈ (midBatch cfg opened polls pre post).events, Fatal x e) ∧
      ∀ later, Gone (serve cfg (runServer cfg opened polls) (.ok (pre ++ post) :: later)) sid := by
  have hheeded := heeded_midBatch hT opened polls pre post
  have hfatal := hheeded.fatal hx hTx
  refine ⟨hfatal, fun later => ?_⟩
  obtain ⟨D, hwatched, -⟩ := hheeded
  have hdoomed : Doomed cfg (midBatch cfg opened polls pre post) sid x.fds :=
    ⟨hwatched.settled, hwatched.clear, Or.inr ⟨x, hx, rfl, hfatal⟩⟩
  have hnative := hdoomed.deliverAll post
  rw [midBatch, ← native_deliverAll_append, ← native_batch] at hnative
  have hok := native_deliverAll_ok cfg (pre ++ post)
    (((runServer cfg opened polls).setErrno (host cfg) 0).log (.polled (pre ++ post)))
  rw [← native_batch] at hok
  rcases hserved : (runServer cfg opened polls).native (host cfg) (some fun _ => pure ())
    (epollWaitEvents cfg (.ok (pre ++ post))) with ⟨r, t⟩
  rw [hserved] at hnative hok
  obtain rfl : r = .ok () := hok
  obtain ⟨hend, hgone⟩ := hnative.served
  rw [← waitEvents_served hserved] at hend hgone
  exact hgone.serve hend.settled hend.clear later

end Watched

end Proxy
end PsqlTcpProxy
