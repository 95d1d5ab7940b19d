import PsqlTcpProxy.Io.BusDispatch

/-!
# The moments of a run

`BusDispatch` knows nothing about the callbacks.  A statement about the callbacks
of one program is about the states in which none of them is running: before and
after a callback, between two events, and between the erasing of two descriptors,
when the callbacks of the first are gone and those of the second are not.

`Moment` is these states.  It allows a little more than `wait_events` does (any
callback may be called, any descriptor erased), so an invariant is proved by one
induction with a case for each thing that can happen, and what holds at every
moment holds whatever `wait_events` does (`Moment.dispatch`, `Moment.drain`).
-/

namespace PsqlTcpProxy
namespace Io

open Library

namespace Bus

variable {κ σ : Type}

/-- The states from `s₀` on in which no callback is running. -/
inductive Moment (host : Host κ σ) (errorCallback : Error → Code κ σ Unit) (s₀ : Bus κ σ) :
    Bus κ σ → Prop
  | start : Moment host errorCallback s₀ s₀
  /-- Something is noted that is not an operation of the bus. -/
  | log {s : Bus κ σ} (entry : Entry κ) (hentry : ¬ entry.IsOp)
      (hs : Moment host errorCallback s₀ s) : Moment host errorCallback s₀ (s.log entry)
  /-- A callback has run. -/
  | call {s : Bus κ σ} (callback : κ) (fd : FileDescriptor) (mask : Flags)
      (hs : Moment host errorCallback s₀ s) :
      Moment host errorCallback s₀ (s.exec host (host.callback callback fd mask)).2
  /-- The error callback has run. -/
  | report {s : Bus κ σ} (err : Error) (hs : Moment host errorCallback s₀ s) :
      Moment host errorCallback s₀ (s.exec host (errorCallback err)).2
  /-- The callbacks of a descriptor have been removed and destroyed. -/
  | erase {s : Bus κ σ} (fd : FileDescriptor) (hs : Moment host errorCallback s₀ s) :
      Moment host errorCallback s₀ (s.erase host fd)
  /-- `_callbacks_to_remove.clear()` -/
  | clear {s : Bus κ σ} (hs : Moment host errorCallback s₀ s) :
      Moment host errorCallback s₀ { s with callbacksToRemove := [] }
  /-- `std::swap(_events, events)` -/
  | swap {s : Bus κ σ} (hs : Moment host errorCallback s₀ s) :
      Moment host errorCallback s₀ { s with events := [] }
  /-- `_wait_events` sets `errno`, or `epoll_wait` does. -/
  | setErrno {s : Bus κ σ} (errno : ℤ) (hs : Moment host errorCallback s₀ s) :
      Moment host errorCallback s₀ (s.setErrno host errno)

namespace Moment

variable {host : Host κ σ} {errorCallback : Error → Code κ σ Unit} {s₀ s : Bus κ σ}

theorem invoke (h : Moment host errorCallback s₀ s) (ev : Event) (callback : κ) :
    Moment host errorCallback s₀ (s.invoke host ev callback).2 := by
  have hcall := (h.log (.invoked callback ev) (by rintro ⟨⟩)).call callback ev.fd ev.flags
  unfold Bus.invoke
  rcases hexec : (s.log (.invoked callback ev)).exec host
    (host.callback callback ev.fd ev.flags) with ⟨_ | _, t⟩
  · rw [hexec] at hcall
    exact hcall.log _ (by rintro ⟨⟩)
  · rw [hexec] at hcall
    exact hcall.log _ (by rintro ⟨⟩)

theorem reported (h : Moment host errorCallback s₀ s) (err : Error) :
    Moment host errorCallback s₀ (s.report host (some errorCallback) err).2 :=
  (h.log (.reported err) (by rintro ⟨⟩)).report err

theorem runCallbacks (h : Moment host errorCallback s₀ s) (ev : Event) (callbacks : List κ) :
    Moment host errorCallback s₀ (s.runCallbacks host (some errorCallback) ev callbacks).2 := by
  induction callbacks generalizing s with
  | nil => exact h
  | cons callback callbacks ih =>
    unfold Bus.runCallbacks
    split
    · exact ih h
    · have hinvoked := h.invoke ev callback
      rcases hinvoke : s.invoke host ev callback with ⟨_ | e, t⟩
      · rw [hinvoke] at hinvoked
        exact ih hinvoked
      · rw [hinvoke] at hinvoked
        have hreported := hinvoked.reported (asError ev.fd (host.errno t.world) e)
        simp only
        rcases hreport : t.report host (some errorCallback)
          (asError ev.fd (host.errno t.world) e) with ⟨_ | _, u⟩
        · rw [hreport] at hreported
          exact hreported
        · rw [hreport] at hreported
          exact ih hreported

theorem eraseAll (h : Moment host errorCallback s₀ s) (n : ℕ) (current : Option FileDescriptor) :
    Moment host errorCallback s₀ (s.eraseAll host n current) := by
  induction n generalizing current s with
  | zero => exact h
  | succ n ih =>
    rw [Bus.eraseAll]
    split
    · exact h
    · exact ih (h.erase _) _

/-- Removing the callbacks of closed connections. -/
theorem flush (h : Moment host errorCallback s₀ s) :
    Moment host errorCallback s₀ (s.flush host) := (h.eraseAll s.passes none).clear

/-- **Every dispatch** goes from a moment to a moment. -/
theorem dispatch (h : Moment host errorCallback s₀ s) (ev : Event) :
    Moment host errorCallback s₀ (s.dispatch host (some errorCallback) ev).2 := by
  have hrun := h.runCallbacks ev ((s.callbackMap ev.fd).getD [])
  unfold Bus.dispatch
  rcases hcalls : s.runCallbacks host (some errorCallback) ev
    ((s.callbackMap ev.fd).getD []) with ⟨_ | _, t⟩
  · rw [hcalls] at hrun
    exact hrun
  · rw [hcalls] at hrun
    exact hrun.flush

/-- **The queue phase** goes from a moment to a moment. -/
theorem drain (h : Moment host errorCallback s₀ s) (evs : List Event) :
    Moment host errorCallback s₀ (s.drain host (some errorCallback) evs).2 := by
  induction evs generalizing s with
  | nil => exact h
  | cons ev evs ih =>
    have hev := (h.log (.dispatched ev) (by rintro ⟨⟩)).dispatch ev
    unfold Bus.drain
    rcases hdispatch : (s.log (.dispatched ev)).dispatch host (some errorCallback) ev
      with ⟨_ | _, t⟩
    · rw [hdispatch] at hev
      exact hev
    · rw [hdispatch] at hev
      exact ih hev

end Moment

/-! ## The loop over the callbacks -/

/-- **The loop in two parts.** -/
theorem runCallbacks_append {host : Host κ σ} {errorCallback : Error → Code κ σ Unit}
    (hsilent : Silent host errorCallback) (ev : Event) (callbacks callbacks' : List κ)
    (s : Bus κ σ) :
    s.runCallbacks host (some errorCallback) ev (callbacks ++ callbacks') =
      (s.runCallbacks host (some errorCallback) ev callbacks).2.runCallbacks host
        (some errorCallback) ev callbacks' := by
  induction callbacks generalizing s with
  | nil => rfl
  | cons callback callbacks ih =>
    rw [List.cons_append]
    by_cases hmark : ev.fd ∈ s.callbacksToRemove
    · rw [runCallbacks, if_pos hmark, runCallbacks, if_pos hmark]
      exact ih s
    · rw [runCallbacks, if_neg hmark, runCallbacks, if_neg hmark]
      rcases s.invoke host ev callback with ⟨_ | e, t⟩
      · exact ih t
      · obtain ⟨u, -, hreport, -⟩ :=
          report_spec hsilent (asError ev.fd (host.errno t.world) e) t
        simp only [hreport]
        exact ih u

/-- The call of a callback and the rest of the loop. -/
theorem runCallbacks_called {host : Host κ σ} {errorCallback : Error → Code κ σ Unit}
    (hsilent : Silent host errorCallback) {ev : Event} {s : Bus κ σ}
    (hmark : ev.fd ∉ s.callbacksToRemove) (callback : κ) (callbacks : List κ) :
    ∃ entries, Emits (s.invoke host ev callback).2
      (s.runCallbacks host (some errorCallback) ev (callback :: callbacks)).2 entries := by
  rw [runCallbacks, if_neg hmark]
  rcases s.invoke host ev callback with ⟨_ | e, t⟩
  · obtain ⟨u, entries, hrest, hcalls⟩ := runCallbacks_spec hsilent ev callbacks t
    simp only [hrest]
    exact ⟨entries, hcalls.emits⟩
  · obtain ⟨t', ops, hreport, -, hemits, -⟩ :=
      report_spec hsilent (asError ev.fd (host.errno t.world) e) t
    obtain ⟨u, entries, hrest, hcalls⟩ := runCallbacks_spec hsilent ev callbacks t'
    simp only [hreport, hrest]
    exact ⟨_, hemits.trans hcalls.emits⟩

/-- **The rule of the loop.**  `I` is told the callbacks that are left. -/
theorem runCallbacks_rule {host : Host κ σ} {errorCallback : Error → Code κ σ Unit}
    (hsilent : Silent host errorCallback) {ev : Event} {I : List κ → Bus κ σ → Prop}
    (skip : ∀ callback callbacks s, ev.fd ∈ s.callbacksToRemove → I (callback :: callbacks) s →
      I callbacks s)
    (call : ∀ callback callbacks s, ev.fd ∉ s.callbacksToRemove → I (callback :: callbacks) s →
      I callbacks ((s.log (.invoked callback ev)).exec host
        (host.callback callback ev.fd ev.flags)).2)
    (note : ∀ callbacks s entry, ¬ entry.IsOp → I callbacks s → I callbacks (s.log entry))
    (report : ∀ callbacks s err, I callbacks s →
      I callbacks (s.exec host (errorCallback err)).2) {callbacks : List κ} {s : Bus κ σ}
    (h : I callbacks s) : I [] (s.runCallbacks host (some errorCallback) ev callbacks).2 := by
  induction callbacks generalizing s with
  | nil => exact h
  | cons callback callbacks ih =>
    unfold runCallbacks
    split
    · exact ih (skip _ _ s ‹_› h)
    · have hcalled := call _ _ s ‹_› h
      unfold invoke
      rcases hexec : (s.log (.invoked callback ev)).exec host
        (host.callback callback ev.fd ev.flags) with ⟨e | ⟨⟩, t⟩
      · rw [hexec] at hcalled
        have hreturned := note _ t (.returned callback (some e)) id hcalled
        generalize htold : asError ev.fd (host.errno t.world) e = told
        obtain ⟨u, -, hreport, -⟩ :=
          report_spec hsilent told (t.log (.returned callback (some e)))
        have hreported := report _ _ told (note _ _ (.reported told) id hreturned)
        have hu : ((t.log (.returned callback (some e))).report host (some errorCallback) told).2 =
          u := congrArg Prod.snd hreport
        have hnext : I callbacks u := by
          rw [← hu]
          exact hreported
        have hfrom : asError ev.fd
            (host.errno (t.log (.returned callback (some e))).world) e = told := htold
        simp only [hfrom, hreport]
        exact ih hnext
      · rw [hexec] at hcalled
        exact ih (note _ t (.returned callback none) id hcalled)

/-- **The rule of destruction.**  `P` is told the callbacks that are left. -/
theorem destroyAll_rule {host : Host κ σ} {P : List κ → Bus κ σ → Prop}
    (destroy : ∀ callback callbacks s, P (callback :: callbacks) s →
      P callbacks (s.exec host (host.destroy callback)).2) {callbacks : List κ} {s : Bus κ σ}
    (h : P callbacks s) : P [] (s.destroyAll host callbacks) := by
  induction callbacks generalizing s with
  | nil => exact h
  | cons callback callbacks ih => exact ih (destroy callback callbacks s h)

/-- **The rule of the removal** of one descriptor. -/
theorem erase_rule {host : Host κ σ} {P : List κ → Bus κ σ → Prop} {fd : FileDescriptor}
    {s : Bus κ σ}
    (forget : ∀ callbacks, s.callbackMap fd = some callbacks → P callbacks (s.setCallbacks fd none))
    (destroy : ∀ callback callbacks s, P (callback :: callbacks) s →
      P callbacks (s.exec host (host.destroy callback)).2) (h : P [] s) :
    P [] (s.erase host fd) := by
  unfold erase
  rcases hmap : s.callbackMap fd with _ | callbacks
  · exact h
  · exact destroyAll_rule destroy (forget callbacks hmap)

/-- **The rule of the removal** of what is marked. -/
theorem flush_rule {host : Host κ σ} {P : Bus κ σ → Prop}
    (forget : ∀ s fd, P s → P (s.setCallbacks fd none))
    (destroy : ∀ callback s, P s → P (s.exec host (host.destroy callback)).2)
    (clear : ∀ s : Bus κ σ, P s → P { s with callbacksToRemove := [] }) {s : Bus κ σ} (h : P s) :
    P (s.flush host) := by
  have heraseAll : ∀ n current s, P s → P (eraseAll host n current s) := by
    intro n
    induction n with
    | zero => exact fun _ s hs => hs
    | succ n ih =>
      intro current s hs
      rw [eraseAll]
      split
      · exact hs
      · refine ih _ _ (erase_rule (P := fun _ => P) (fun _ _ => forget s _ hs) ?_ hs)
        exact fun callback _ t ht => destroy callback t ht
  exact clear _ (heraseAll _ _ s h)

/-- **The rule of the removal** where the destructors leave the set as it is: every descriptor
in it is erased once.  `P` is told the descriptors that are left. -/
theorem flush_fixed {host : Host κ σ} {P : List FileDescriptor → Bus κ σ → Prop} {s : Bus κ σ}
    (erase : ∀ fd fds t, fd ∈ s.callbacksToRemove → P (fd :: fds) t →
      t.callbacksToRemove = s.callbacksToRemove → P fds (t.erase host fd) ∧
        (t.erase host fd).callbacksToRemove = s.callbacksToRemove)
    (hs : s.callbacksToRemove.Nodup) (h : P s.callbacksToRemove s) :
    ∃ t, s.flush host = { t with callbacksToRemove := [] } ∧ P [] t := by
  have hloop : ∀ n current t, t.callbacksToRemove = s.callbacksToRemove →
      (ahead current s.callbacksToRemove).length ≤ n →
      P (ahead current s.callbacksToRemove) t → P [] (eraseAll host n current t) := by
    intro n
    induction n with
    | zero =>
      intro current t _ hlength ht
      rw [List.eq_nil_of_length_eq_zero (Nat.le_zero.mp hlength)] at ht
      exact ht
    | succ n ih =>
      intro current t hset hlength ht
      rw [eraseAll, hset]
      rcases hahead : ahead current s.callbacksToRemove with _ | ⟨fd, fds⟩
      · rw [hahead] at ht
        exact ht
      · rw [hahead] at ht hlength
        have hin : fd ∈ ahead current s.callbacksToRemove := hahead ▸ List.mem_cons_self
        have hfd : fd ∈ s.callbacksToRemove := mem_of_mem_ahead hin
        obtain ⟨herased, hset'⟩ := erase fd fds t hfd ht hset
        have hnext : ahead (some fd) s.callbacksToRemove = fds := ahead_of_cons hs hahead
        refine ih (some fd) _ hset' ?_ ?_
        · rw [hnext]
          exact Nat.le_of_succ_le_succ hlength
        · rw [hnext]
          exact herased
  exact ⟨s.eraseAll host s.passes none, rfl, hloop s.passes none s rfl (Nat.le_add_left _ _) h⟩

/-- Where nothing is marked, nothing is removed. -/
theorem flush_of_nil {host : Host κ σ} {s : Bus κ σ} (h : s.callbacksToRemove = []) :
    s.flush host = s := by
  have hfixed : ∃ t, s.flush host = { t with callbacksToRemove := [] } ∧ t = s :=
    flush_fixed (P := fun _ t => t = s)
      (fun fd _ _ hfd => absurd hfd (h ▸ List.not_mem_nil)) (h ▸ List.nodup_nil) rfl
  obtain ⟨t, hflush, rfl⟩ := hfixed
  rw [hflush]
  exact congrArg (fun fds => ({ t with callbacksToRemove := fds } : Bus κ σ)) h.symm

end Bus

end Io
end PsqlTcpProxy
