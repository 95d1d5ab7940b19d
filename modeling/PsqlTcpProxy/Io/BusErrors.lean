import PsqlTcpProxy.Io.BusDispatch
import PsqlTcpProxy.Io.Epoll

/-!
# No error callback

`wait_events` and `context::run` have an empty `error_callback` by default, and the
six `catch` clauses call it whether it is empty or not.  So the first error turns
into `std::bad_function_call`, which the loop over the callbacks, the loop over the
events and the outer `try` let through, the outer one because it calls the empty
function again.

The condition under which nobody notices follows these loops: every callback that is
called returns (`CallsReturn`, `EventsReturn`, `Undisturbed`).
-/

namespace PsqlTcpProxy
namespace Io

open Library

variable {κ σ : Type}

namespace Bus

/-- The error callback that does nothing. -/
def ignoring : ErrorCallback κ σ := some fun _ => .pure ()

/-- It throws nothing. -/
theorem silent_ignoring (host : Host κ σ) : Silent host fun _ => .pure () := fun _ _ => rfl

/-- An empty error callback cannot be called. -/
theorem report_none (host : Host κ σ) (err : Error) (s : Bus κ σ) :
    s.report host none err = (.error (.std "bad_function_call"), s) := rfl

/-- Without an error callback `wait_events` throws nothing, and it calls the same callbacks and
leaves the same bus as with one that does nothing. -/
structure LikeIgnoring (host : Host κ σ) (wait : WaitCode κ σ) (s : Bus κ σ) : Prop where
  returns : (s.waitEvents host wait none).1 = .ok ()
  callbackMap : (s.waitEvents host wait none).2.callbackMap =
    (s.waitEvents host wait ignoring).2.callbackMap
  callbacksToRemove : (s.waitEvents host wait none).2.callbacksToRemove =
    (s.waitEvents host wait ignoring).2.callbacksToRemove
  events : (s.waitEvents host wait none).2.events = (s.waitEvents host wait ignoring).2.events
  invoked : invokedIn (s.waitEvents host wait none).2.trace =
    invokedIn (s.waitEvents host wait ignoring).2.trace

/-- Every callback that the loop calls returns. -/
def CallsReturn (host : Host κ σ) (ev : Event) : List κ → Bus κ σ → Prop
  | [], _ => True
  | callback :: callbacks, s =>
    if ev.fd ∈ s.callbacksToRemove then CallsReturn host ev callbacks s
    else (s.invoke host ev callback).1 = none ∧
      CallsReturn host ev callbacks (s.invoke host ev callback).2

/-- The same for the callbacks of one event after the other. -/
def EventsReturn (host : Host κ σ) (note : Event → Entry κ) : List Event → Bus κ σ → Prop
  | [], _ => True
  | ev :: evs, s =>
    CallsReturn host ev (((s.log (note ev)).callbackMap ev.fd).getD []) (s.log (note ev)) ∧
      EventsReturn host note evs ((s.log (note ev)).dispatch host ignoring ev).2

/-- The events of the queue. -/
def QueueReturns (host : Host κ σ) (s : Bus κ σ) : Prop :=
  EventsReturn host .dispatched s.events { s with events := [] }

/-- The condition: `epoll_wait` does not fail but for an interruption, and every callback that is
called, for an event of the batch or of the queue, returns. -/
def Undisturbed (host : Host κ σ) (s : Bus κ σ) : Except ℤ (List Event) → Prop
  | .ok batch =>
    EventsReturn host .delivered batch ((s.setErrno host 0).log (.polled batch)) ∧
    QueueReturns host
      (((s.setErrno host 0).log (.polled batch)).dispatchAll host ignoring .delivered batch).2
  | .error errno => errno = EINTR ∧ QueueReturns host (s.setErrno host errno)

section Loops

variable {host : Host κ σ} {ev : Event} {callbacks : List κ} {note : Event → Entry κ}
  {evs : List Event} {s : Bus κ σ}

/-! ## The loop over the callbacks -/

/-- **Callbacks that return** need no error callback. -/
theorem CallsReturn.congr (h : CallsReturn host ev callbacks s)
    (errorCallback errorCallback' : ErrorCallback κ σ) :
    s.runCallbacks host errorCallback ev callbacks =
      s.runCallbacks host errorCallback' ev callbacks := by
  induction callbacks generalizing s with
  | nil => rfl
  | cons callback callbacks ih =>
    rw [CallsReturn] at h
    rw [runCallbacks, runCallbacks]
    split
    · rw [if_pos ‹_›] at h
      exact ih h
    · rw [if_neg ‹_›] at h
      obtain ⟨hreturned, hrest⟩ := h
      rcases hinvoke : s.invoke host ev callback with ⟨thrown, t⟩
      rw [hinvoke] at hreturned hrest
      obtain rfl : thrown = none := hreturned
      exact ih hrest

/-- **A callback that throws** ends the loop. -/
theorem runCallbacks_escapes (h : ¬ CallsReturn host ev callbacks s) :
    (s.runCallbacks host none ev callbacks).1 = .error (.std "bad_function_call") := by
  induction callbacks generalizing s with
  | nil => exact absurd trivial h
  | cons callback callbacks ih =>
    rw [CallsReturn] at h
    rw [runCallbacks]
    split
    · rw [if_pos ‹_›] at h
      exact ih h
    · rw [if_neg ‹_›] at h
      rcases hinvoke : s.invoke host ev callback with ⟨_ | e, t⟩
      · rw [hinvoke] at h
        exact ih fun hrest => h ⟨rfl, hrest⟩
      · rfl

/-! ## A dispatch -/

theorem CallsReturn.dispatch (h : CallsReturn host ev ((s.callbackMap ev.fd).getD []) s) :
    s.dispatch host none ev = s.dispatch host ignoring ev := by
  rw [Bus.dispatch, Bus.dispatch, h.congr none ignoring]

theorem dispatch_escapes (h : ¬ CallsReturn host ev ((s.callbackMap ev.fd).getD []) s) :
    (s.dispatch host none ev).1 = .error (.std "bad_function_call") := by
  have hescapes := runCallbacks_escapes h
  rw [dispatch]
  rcases hrun : s.runCallbacks host none ev ((s.callbackMap ev.fd).getD []) with ⟨e | ⟨⟩, t⟩
  · rw [hrun] at hescapes
    exact hescapes
  · rw [hrun] at hescapes
    cases hescapes

/-- The error callback that does nothing keeps every dispatch going. -/
theorem dispatch_ignoring (host : Host κ σ) (ev : Event) (s : Bus κ σ) :
    (s.dispatch host ignoring ev).1 = .ok () :=
  (dispatches (silent_ignoring host) ev s).returns

/-! ## The loops over the events -/

theorem dispatchAll_ignoring (host : Host κ σ) (note : Event → Entry κ) (evs : List Event)
    (s : Bus κ σ) : (s.dispatchAll host ignoring note evs).1 = .ok () := by
  induction evs generalizing s with
  | nil => rfl
  | cons ev evs ih =>
    have hok := dispatch_ignoring host ev (s.log (note ev))
    rw [dispatchAll]
    rcases hdispatch : (s.log (note ev)).dispatch host ignoring ev with ⟨e | ⟨⟩, t⟩
    · rw [hdispatch] at hok
      cases hok
    · exact ih t

/-- **Events whose callbacks return** need no error callback. -/
theorem EventsReturn.congr (h : EventsReturn host note evs s) :
    s.dispatchAll host none note evs = s.dispatchAll host ignoring note evs := by
  induction evs generalizing s with
  | nil => rfl
  | cons ev evs ih =>
    obtain ⟨hcalls, hrest⟩ := h
    rw [dispatchAll, dispatchAll, hcalls.dispatch]
    rcases hdispatch : (s.log (note ev)).dispatch host ignoring ev with ⟨e | ⟨⟩, t⟩
    · rfl
    · rw [hdispatch] at hrest
      exact ih hrest

/-- **An event with a callback that throws** ends the loop. -/
theorem dispatchAll_escapes (h : ¬ EventsReturn host note evs s) :
    (s.dispatchAll host none note evs).1 = .error (.std "bad_function_call") := by
  induction evs generalizing s with
  | nil => exact absurd trivial h
  | cons ev evs ih =>
    rw [dispatchAll]
    by_cases hcalls :
      CallsReturn host ev (((s.log (note ev)).callbackMap ev.fd).getD []) (s.log (note ev))
    · have hok := dispatch_ignoring host ev (s.log (note ev))
      rw [hcalls.dispatch]
      rcases hdispatch : (s.log (note ev)).dispatch host ignoring ev with ⟨e | ⟨⟩, t⟩
      · rw [hdispatch] at hok
        cases hok
      · refine ih fun hrest => h ⟨hcalls, ?_⟩
        rw [hdispatch]
        exact hrest
    · have hescapes := dispatch_escapes hcalls
      rcases hdispatch : (s.log (note ev)).dispatch host none ev with ⟨e | ⟨⟩, t⟩
      · rw [hdispatch] at hescapes
        exact hescapes
      · rw [hdispatch] at hescapes
        cases hescapes

/-! ## A call of `wait_events` -/

/-- **The queue phase** after a native phase that returns. -/
theorem QueueReturns.serve {wait : WaitCode κ σ} {t : Bus κ σ} (h : QueueReturns host t)
    (hnone : s.native host none wait = (.ok (), t))
    (hignoring : s.native host ignoring wait = (.ok (), t)) :
    s.waitEvents host wait none = s.waitEvents host wait ignoring := by
  have hqueue : ({ t with events := [] } : Bus κ σ).drain host none t.events =
      ({ t with events := [] } : Bus κ σ).drain host ignoring t.events := by
    rw [drain_eq, drain_eq]
    exact h.congr
  have hok : (({ t with events := [] } : Bus κ σ).drain host ignoring t.events).1 = .ok () := by
    rw [drain_eq]
    exact dispatchAll_ignoring host _ _ _
  simp only [waitEvents, Bus.serve, hnone, hignoring, hqueue]
  rcases hdrain : ({ t with events := [] } : Bus κ σ).drain host ignoring t.events with ⟨e | ⟨⟩, u⟩
  · rw [hdrain] at hok
    cases hok
  · rfl

/-- An error of the native phase. -/
theorem waitEvents_escapes_native {wait : WaitCode κ σ} {e : Exception}
    (h : (s.native host none wait).1 = .error e) :
    (s.waitEvents host wait none).1 = .error (.std "bad_function_call") := by
  rcases hnative : s.native host none wait with ⟨r, t⟩
  rw [hnative] at h
  obtain rfl : r = .error e := h
  simp only [waitEvents, Bus.serve, hnative, report_none]

/-- An error of the queue phase. -/
theorem waitEvents_escapes_queue {wait : WaitCode κ σ} {t : Bus κ σ}
    (hnative : s.native host none wait = (.ok (), t)) (h : ¬ QueueReturns host t) :
    (s.waitEvents host wait none).1 = .error (.std "bad_function_call") := by
  have hescapes := dispatchAll_escapes h
  rw [← drain_eq] at hescapes
  simp only [waitEvents, Bus.serve, hnative]
  rcases hdrain : ({ t with events := [] } : Bus κ σ).drain host none t.events with ⟨e | ⟨⟩, u⟩
  · rfl
  · rw [hdrain] at hescapes
    cases hescapes

/-- The native phase goes through the batch. -/
theorem native_ignoring (host : Host κ σ) (epfd : FileDescriptor) (batch : List Event)
    (s : Bus κ σ) : s.native host ignoring (Epoll.waitEvents host epfd (.ok batch)) =
      (.ok (), (((s.setErrno host 0).log (.polled batch)).dispatchAll host ignoring .delivered batch).2) := by
  rw [native_batch]
  exact Prod.ext (dispatchAll_ignoring host _ _ _) rfl

/-- **Undisturbed**, a call does not need the error callback. -/
theorem Undisturbed.congr {polled : Except ℤ (List Event)} (h : Undisturbed host s polled)
    (epfd : FileDescriptor) :
    s.waitEvents host (Epoll.waitEvents host epfd polled) none =
      s.waitEvents host (Epoll.waitEvents host epfd polled) ignoring := by
  cases polled with
  | ok batch =>
    obtain ⟨hbatch, hqueue⟩ := h
    refine hqueue.serve ?_ (native_ignoring host epfd batch s)
    rw [native_batch, hbatch.congr, ← native_batch host ignoring epfd, native_ignoring]
  | error errno =>
    obtain ⟨rfl, hqueue⟩ := h
    exact hqueue.serve rfl rfl

/-- **Disturbed**, it throws. -/
theorem waitEvents_escapes {polled : Except ℤ (List Event)} (h : ¬ Undisturbed host s polled)
    (epfd : FileDescriptor) :
    (s.waitEvents host (Epoll.waitEvents host epfd polled) none).1 =
      .error (.std "bad_function_call") := by
  cases polled with
  | ok batch =>
    by_cases hbatch : EventsReturn host .delivered batch ((s.setErrno host 0).log (.polled batch))
    · refine waitEvents_escapes_queue ?_ fun hqueue => h ⟨hbatch, hqueue⟩
      rw [native_batch, hbatch.congr, ← native_batch host ignoring epfd, native_ignoring]
    · refine waitEvents_escapes_native (e := .std "bad_function_call") ?_
      rw [native_batch]
      exact dispatchAll_escapes hbatch
  | error errno =>
    by_cases hinterrupted : errno = EINTR
    · subst hinterrupted
      exact waitEvents_escapes_queue rfl fun hqueue => h ⟨rfl, hqueue⟩
    · refine waitEvents_escapes_native (e := .io ⟨"epoll wait error", epfd, errno⟩) ?_
      rw [native_errno, if_neg hinterrupted]

end Loops

/-- **An absent error callback.**  For every bus, every answer of `epoll_wait` and whatever the
callbacks do, `wait_events` without an error callback behaves as with one that does nothing if and
only if `epoll_wait` does not fail but for an interruption and every callback that is called
returns. -/
theorem absent_callback_ignores_iff (host : Host κ σ) (epfd : FileDescriptor)
    (polled : Except ℤ (List Event)) (s : Bus κ σ) :
    LikeIgnoring host (Epoll.waitEvents host epfd polled) s ↔ Undisturbed host s polled := by
  refine ⟨fun hlike => ?_, fun hundisturbed => ?_⟩
  · by_contra hdisturbed
    have hreturns := hlike.returns
    rw [waitEvents_escapes hdisturbed epfd] at hreturns
    cases hreturns
  · have hcongr := hundisturbed.congr epfd
    have hreturns := (serves (silent_ignoring host) (Epoll.waitEvents host epfd polled) s).returns
    refine ⟨?_, ?_, ?_, ?_, ?_⟩
    · rw [hcongr]
      exact hreturns
    all_goals rw [hcongr]

/-- Descriptor 3 has a callback that throws and one that does not. -/
def mixedBus : Bus Bool Unit :=
  ((start ()).exec mixedHost
    (.call (.addFd 3 (some true)) fun _ => .call (.addFd 3 (some false)) .pure)).2

/-- **A callback that throws.**  With no error callback the exception escapes, and the second
callback of the descriptor is not called. -/
theorem absent_callback_escapes :
    ¬ LikeIgnoring mixedHost (Epoll.waitEvents mixedHost 9 (.ok [⟨3, Flags.in'⟩])) mixedBus ∧
      invokedIn (mixedBus.waitEvents mixedHost
        (Epoll.waitEvents mixedHost 9 (.ok [⟨3, Flags.in'⟩])) none).2.trace = [(true, ⟨3, Flags.in'⟩)] ∧
      invokedIn (mixedBus.waitEvents mixedHost
        (Epoll.waitEvents mixedHost 9 (.ok [⟨3, Flags.in'⟩])) ignoring).2.trace =
          [(true, ⟨3, Flags.in'⟩), (false, ⟨3, Flags.in'⟩), (true, ⟨3, Flags.out⟩),
            (false, ⟨3, Flags.out⟩)] := by
  refine ⟨fun hlike => ?_, by decide, by decide⟩
  cases hlike.returns

end Bus

end Io
end PsqlTcpProxy
