import Mathlib.Data.Finset.Erase
import Mathlib.Data.Finset.Insert
import PsqlTcpProxy.Io.BusDeletion

/-!
# Registration

`add_fd` tells the native half of a descriptor only when it makes an entry for it.
The entry is made first and stays when `_add_fd` throws; `del_fd` marks the
descriptor first and it stays marked when `_del_fd` throws; and a deleted
descriptor keeps its entry until the end of the next dispatch.  In each case a
later `add_fd` finds an entry and returns without a native call.

To say so, a run is watched: `native` are the descriptors the native half has been
told of, `added` those for which `add_fd` has returned normally and that have not
been deleted since.
-/

namespace PsqlTcpProxy
namespace Io

open Library

variable {κ σ : Type}

namespace Bus

/-! ## A failed call -/

/-- The callback map and the set of pending removals are the same. -/
def Unchanged (s t : Bus κ σ) : Prop :=
  t.callbackMap = s.callbackMap ∧ t.callbacksToRemove = s.callbacksToRemove

/-- An exception, which only the native half throws, leaves the bus unchanged. -/
def FailureKeeps (host : Host κ σ) (s : Bus κ σ) : BusCall κ σ → Prop
  | .addFd fd callback => ∀ e, (s.addFd host fd callback).1 = .error e →
    Unchanged s (s.addFd host fd callback).2
  | .delFd fd => ∀ e, (s.delFd host fd).1 = .error e → Unchanged s (s.delFd host fd).2
  | .delFdCallbacks _ | .enqueueEvent _ | .get | .set _ => True

section Calls

variable (host : Host κ σ) (s : Bus κ σ) (fd : FileDescriptor)

/-- A failed `add_fd` leaves an entry without callbacks behind. -/
theorem addFd_failureKeeps_iff (callback : Option κ) :
    FailureKeeps host s (.addFd fd callback) ↔
      (s.callbackMap fd = none → (host.nativeAddFd fd s.world).1 = .ok ()) := by
  rcases hmap : s.callbackMap fd with _ | callbacks
  · rcases hnative : host.nativeAddFd fd s.world with ⟨e | ⟨⟩, world⟩
    · refine iff_of_false (fun hkeeps => ?_) (fun hok => ?_)
      · rw [FailureKeeps, addFd_of_error host s fd hmap hnative callback] at hkeeps
        have hentry := congrFun (hkeeps e rfl).1 fd
        rw [hmap] at hentry
        exact absurd ((if_pos rfl).symm.trans hentry) (Option.some_ne_none _)
      · cases hok rfl
    · refine iff_of_true ?_ (fun _ => rfl)
      rw [FailureKeeps, addFd_of_ok host s fd hmap hnative callback]
      rintro e ⟨⟩
  · refine iff_of_true ?_ (by rintro ⟨⟩)
    rw [FailureKeeps, addFd_of_some host s fd hmap callback]
    rintro e ⟨⟩

/-- A failed `del_fd` leaves its mark behind. -/
theorem delFd_failureKeeps_iff :
    FailureKeeps host s (.delFd fd) ↔
      ((host.nativeDelFd fd s.world).1 = .ok () ∨ fd ∈ s.callbacksToRemove) := by
  have hunchanged : Unchanged s (s.delFd host fd).2 ↔ fd ∈ s.callbacksToRemove := by
    exact Iff.trans (and_iff_right rfl) (host.layout.insert_eq_iff s.trace)
  rw [FailureKeeps, hunchanged]
  show (∀ e, (host.nativeDelFd fd s.world).1 = .error e → _) ↔ _
  rcases (host.nativeDelFd fd s.world).1 with e | ⟨⟩
  · simp only [Except.error.injEq, forall_eq', reduceCtorEq, false_or]
  · simp only [reduceCtorEq, false_imp_iff, implies_true, true_or]

end Calls

/-! ## Watched runs -/

/-- A place of the bus, and what the native half has been told. -/
structure Watched (κ σ : Type) where
  place : Bus κ σ × Phase κ
  /-- The descriptors that `_add_fd` has registered and `_del_fd` has not removed since. -/
  native : Finset FileDescriptor
  /-- The descriptors for which `add_fd` has returned normally, and that have not been
  deleted since. -/
  added : Finset FileDescriptor

/-- With or without a descriptor, as the call went. -/
def onOk (r : Except Exception Unit) (before after : Finset FileDescriptor) :
    Finset FileDescriptor :=
  match r with
  | .ok () => after
  | .error _ => before

/-- What a move makes of `native`. -/
def nativeAfter (host : Host κ σ) (s : Bus κ σ) (native : Finset FileDescriptor) :
    Move κ σ → Finset FileDescriptor
  | .perform (.addFd fd _) =>
    if s.callbackMap fd = none then
      onOk (host.nativeAddFd fd s.world).1 native (insert fd native)
    else native
  | .perform (.delFd fd) => onOk (host.nativeDelFd fd s.world).1 native (native.erase fd)
  | _ => native

/-- What a move makes of `added`. -/
def addedAfter (host : Host κ σ) (s : Bus κ σ) (added : Finset FileDescriptor) :
    Move κ σ → Finset FileDescriptor
  | .perform (.addFd fd callback) => onOk (s.addFd host fd callback).1 added (insert fd added)
  | .perform (.delFd fd) => onOk (s.delFd host fd).1 added (added.erase fd)
  | .perform (.delFdCallbacks fd) => added.erase fd
  | _ => added

/-- One move. -/
def watch (host : Host κ σ) (w : Watched κ σ) (m : Move κ σ) : Option (Watched κ σ) :=
  (move host w.place m).map fun place =>
    ⟨place, nativeAfter host w.place.1 w.native m, addedAfter host w.place.1 w.added m⟩

/-- Nothing has been added. -/
def watchStart (world : σ) : Watched κ σ := ⟨(start world, .idle), ∅, ∅⟩

/-- Watching a run does not change it. -/
theorem run_watch {host : Host κ σ} {w : Watched κ σ} {moves : List (Move κ σ)}
    {place : Bus κ σ × Phase κ} (h : run (move host) w.place moves = some place) :
    ∃ w', run (watch host) w moves = some w' ∧ w'.place = place := by
  induction moves generalizing w with
  | nil => exact ⟨w, rfl, Option.some.inj h⟩
  | cons m moves ih =>
    obtain ⟨place', hmove, hrest⟩ := Option.bind_eq_some_iff.mp h
    obtain ⟨w', hrun, hplace⟩ := ih (w := ⟨place', _, _⟩) hrest
    refine ⟨w', ?_, hplace⟩
    rw [run_cons, watch, hmove]
    exact hrun

/-- **Every run** of the bus can be watched, move by move; the dispatches in it are those of the
events that arrive. -/
theorem watched_after (host : Host κ σ) (world : σ) (inputs : List (BusInput κ σ)) :
    (∃ w, run (watch host) (watchStart world) (movesAfter host (start world) inputs) = some w ∧
      w.place = ((start world).after host inputs, .idle)) ∧
    arrivedIn ((start world).after host inputs).trace =
      startsIn (movesAfter host (start world) inputs) := by
  refine ⟨?_, starts_movesAfter _ inputs⟩
  exact run_watch (w := watchStart world) (run_movesAfter (start world) inputs)

/-- Every descriptor that was added is registered natively. -/
def Registered (w : Watched κ σ) : Prop := w.added ⊆ w.native

/-- What is asked of a move. -/
def FailsSafely (host : Host κ σ) (w : Watched κ σ) (m : Move κ σ) : Prop :=
  (∀ call, m = .perform call → FailureKeeps host w.place.1 call) ∧
    ∀ w', watch host w m = some w' → Registered w'

/-- The condition.  A native `_add_fd` does not fail, and `add_fd` finds no entry of a
descriptor that is not registered; a native `_del_fd` fails only for a descriptor that is to be
removed anyway. -/
def Safe (host : Host κ σ) (w : Watched κ σ) : Move κ σ → Prop
  | .perform (.addFd fd _) =>
    if w.place.1.callbackMap fd = none then (host.nativeAddFd fd w.place.1.world).1 = .ok ()
    else fd ∈ w.native
  | .perform (.delFd fd) =>
    (host.nativeDelFd fd w.place.1.world).1 = .ok () ∨ fd ∈ w.place.1.callbacksToRemove
  | _ => True

section Steps

variable {host : Host κ σ} {w : Watched κ σ}

/-- A move that adds and removes nothing. -/
theorem failsSafely_of_silent (hw : Registered w) {m : Move κ σ}
    (hcall : ∀ call, m = .perform call → FailureKeeps host w.place.1 call)
    (hnative : nativeAfter host w.place.1 w.native m = w.native)
    (hadded : addedAfter host w.place.1 w.added m ⊆ w.added) : FailsSafely host w m := by
  refine ⟨hcall, fun w' hw' => ?_⟩
  obtain ⟨place, -, rfl⟩ := Option.map_eq_some_iff.mp hw'
  show addedAfter host w.place.1 w.added m ⊆ nativeAfter host w.place.1 w.native m
  rw [hnative]
  exact hadded.trans hw

/-- An operation can be called in every phase. -/
theorem failsSafely_perform (call : BusCall κ σ) :
    FailsSafely host w (.perform call) ↔ FailureKeeps host w.place.1 call ∧
      addedAfter host w.place.1 w.added (.perform call) ⊆
        nativeAfter host w.place.1 w.native (.perform call) := by
  obtain ⟨⟨s, phase⟩, native, added⟩ := w
  refine and_congr ⟨fun h => h call rfl, ?_⟩ ⟨fun h => h _ rfl, ?_⟩
  · rintro h _ ⟨⟩
    exact h
  · intro h w' hw'
    obtain rfl := Option.some.inj hw'
    exact h

theorem addFd_safe_iff (hw : Registered w) (fd : FileDescriptor) (callback : Option κ) :
    FailsSafely host w (.perform (.addFd fd callback)) ↔
      Safe host w (.perform (.addFd fd callback)) := by
  rw [failsSafely_perform, addFd_failureKeeps_iff, addedAfter, nativeAfter, Safe]
  rcases hmap : w.place.1.callbackMap fd with _ | callbacks
  · rw [if_pos rfl, if_pos rfl]
    refine ⟨fun h => h.1 rfl, fun hok => ⟨fun _ => hok, ?_⟩⟩
    rcases hnative : host.nativeAddFd fd w.place.1.world with ⟨e | ⟨⟩, world⟩
    · rw [hnative] at hok
      cases hok
    · rw [addFd_of_ok host w.place.1 fd hmap hnative callback]
      exact Finset.insert_subset_insert fd hw
  · rw [if_neg (Option.some_ne_none _), if_neg (Option.some_ne_none _),
      addFd_of_some host w.place.1 fd hmap callback]
    refine Iff.trans (and_iff_right (by rintro ⟨⟩)) ?_
    show insert fd w.added ⊆ w.native ↔ _
    rw [Finset.insert_subset_iff]
    exact and_iff_left hw

theorem delFd_safe_iff (hw : Registered w) (fd : FileDescriptor) :
    FailsSafely host w (.perform (.delFd fd)) ↔ Safe host w (.perform (.delFd fd)) := by
  rw [failsSafely_perform, delFd_failureKeeps_iff, addedAfter, nativeAfter, Safe]
  refine and_iff_left ?_
  show onOk (host.nativeDelFd fd w.place.1.world).1 w.added (w.added.erase fd) ⊆ _
  rcases (host.nativeDelFd fd w.place.1.world).1 with e | ⟨⟩
  · exact hw
  · exact Finset.erase_subset_erase fd hw

/-- **One move.** -/
theorem failsSafely_iff (hw : Registered w) (m : Move κ σ) :
    FailsSafely host w m ↔ Safe host w m := by
  cases m with
  | perform call =>
    cases call with
    | addFd fd callback => exact addFd_safe_iff hw fd callback
    | delFd fd => exact delFd_safe_iff hw fd
    | delFdCallbacks fd =>
      refine iff_of_true (failsSafely_of_silent hw ?_ rfl (Finset.erase_subset _ _)) trivial
      rintro _ ⟨⟩
      trivial
    | enqueueEvent _ | get | set _ =>
      refine iff_of_true (failsSafely_of_silent hw ?_ rfl (Finset.Subset.refl _)) trivial
      rintro _ ⟨⟩
      trivial
  | note _ | swap | start _ | invoke | skip | finish | abort | erase | clear =>
    refine iff_of_true (failsSafely_of_silent hw ?_ rfl (Finset.Subset.refl _)) trivial
    rintro _ ⟨⟩

end Steps

/-- **Registration failures.**  A call whose native half throws leaves the bus unchanged only in
these cases: never for `add_fd`, and for `del_fd` if the descriptor was to be removed already.
And in every run of the bus, all calls leave it unchanged and all descriptors for which `add_fd`
has returned normally are registered, until they are deleted, if and only if all moves are
`Safe`. -/
theorem registration_fails_safely_iff (host : Host κ σ) :
    (∀ s fd callback, FailureKeeps host s (.addFd fd callback) ↔
      (s.callbackMap fd = none → (host.nativeAddFd fd s.world).1 = .ok ())) ∧
    (∀ s fd, FailureKeeps host s (.delFd fd) ↔
      ((host.nativeDelFd fd s.world).1 = .ok () ∨ fd ∈ s.callbacksToRemove)) ∧
    ∀ world,
      (∀ inputs,
        (∃ w, run (watch host) (watchStart world) (movesAfter host (start world) inputs) = some w ∧
          w.place = ((start world).after host inputs, .idle)) ∧
        arrivedIn ((start world).after host inputs).trace =
          startsIn (movesAfter host (start world) inputs)) ∧
      ∀ moves, Meets (watch host) (FailsSafely host) (watchStart world) moves ↔
        Meets (watch host) (Safe host) (watchStart world) moves := by
  refine ⟨addFd_failureKeeps_iff host, delFd_failureKeeps_iff host, fun world =>
    ⟨watched_after host world, ?_⟩⟩
  exact meets_congr (fun w m hw => failsSafely_iff hw m) (fun w m w' _ hsafe hstep =>
    hsafe.2 w' hstep) (Finset.Subset.refl ∅)

/-- Epoll has no room for the first descriptor it is told of. -/
def fullHost : Host Bool ℕ where
  nativeAddFd fd told :=
    (if told = 0 then .error (.io ⟨"failed to add file descriptor to epoll", fd, 28⟩) else .ok (),
      told + 1)
  nativeDelFd _ told := (.ok (), told)
  callback _ _ _ := .pure ()
  destroy _ := .pure ()
  errno _ := 28

/-- **A failed registration is remembered.**  The second `add_fd` of the descriptor finds the
entry that the first one has left behind, and returns without a native call. -/
theorem failed_add_remembered :
    ¬ FailureKeeps fullHost (start 0) (.addFd 5 (some true)) ∧
      ∃ w, run (watch fullHost) (watchStart 0)
        [.perform (.addFd 5 (some true)), .perform (.addFd 5 (some true))] = some w ∧
          5 ∈ w.added ∧ 5 ∉ w.native := by
  refine ⟨fun hkeeps => ?_, _, rfl, by decide, by decide⟩
  have hok := (addFd_failureKeeps_iff fullHost (start 0) 5 (some true)).mp hkeeps rfl
  cases hok

/-! ## Registration after a deletion -/

/-- The descriptor's entry is going to be erased: it is to be removed, and the loop over the
descriptors has not passed it. -/
def RemovalDue (fd : FileDescriptor) : Bus κ σ × Phase κ → Prop
  | (s, .erasing current _) => fd ∈ ahead current s.callbacksToRemove
  | (s, .idle) | (s, .calling _ _) => fd ∈ s.callbacksToRemove

/-- The condition from then on: as long as the descriptor is in the set and has been passed,
the set is not rearranged. -/
def StaysPassed (fd : FileDescriptor) (w : Watched κ σ) (m : Move κ σ) : Prop :=
  fd ∈ w.place.1.callbacksToRemove → Orderly w.place m

/-- The descriptor is registered, and the callback is in its entry, to stay. -/
structure InForce (fd : FileDescriptor) (callback : κ) (w : Watched κ σ) : Prop where
  native : fd ∈ w.native
  entry : ∃ callbacks, w.place.1.callbackMap fd = some callbacks ∧ callback ∈ callbacks
  stays : ¬ RemovalDue fd w.place
  nodup : w.place.1.callbacksToRemove.Nodup

section InForce

variable {host : Host κ σ} {w w' : Watched κ σ} {fd : FileDescriptor} {callback : κ}

/-- Removal depends on the phase and the set. -/
theorem removalDue_congr {s t : Bus κ σ} (phase : Phase κ)
    (h : t.callbacksToRemove = s.callbacksToRemove) :
    RemovalDue fd (t, phase) ↔ RemovalDue fd (s, phase) := by
  cases phase with
  | idle | calling _ _ | erasing _ _ => rw [RemovalDue, RemovalDue, h]

/-- What is due is in the set. -/
theorem RemovalDue.marked {s : Bus κ σ} {phase : Phase κ} (h : RemovalDue fd (s, phase)) :
    fd ∈ s.callbacksToRemove := by
  cases phase with
  | idle | calling _ _ => exact h
  | erasing current left => exact mem_of_mem_ahead h

/-- The native half forgets a descriptor only when it is deleted. -/
theorem mem_nativeAfter {s : Bus κ σ} {native : Finset FileDescriptor} {m : Move κ σ}
    (hm : ¬ Deletes fd m) (h : fd ∈ native) : fd ∈ nativeAfter host s native m := by
  unfold nativeAfter
  split
  · split
    · rcases (host.nativeAddFd _ s.world).1 with e | ⟨⟩
      · exact h
      · exact Finset.mem_insert_of_mem h
    · exact h
  · rename_i fd'
    rcases (host.nativeDelFd fd' s.world).1 with e | ⟨⟩
    · exact h
    · refine Finset.mem_erase.mpr ⟨?_, h⟩
      rintro rfl
      exact hm (Or.inl rfl)
  · exact h

/-- An operation takes no callback out of an entry. -/
theorem perform_entry (host : Host κ σ) (call : BusCall κ σ) {s : Bus κ σ} {callbacks : List κ}
    (h : s.callbackMap fd = some callbacks) :
    ∃ more, (s.perform host call).2.callbackMap fd = some (callbacks ++ more) := by
  have hsame : s.callbackMap fd = some (callbacks ++ []) := by rw [h, List.append_nil]
  cases call with
  | addFd fd' callback =>
    obtain ⟨more, hmap, -⟩ := addFd_spec host s fd' callback
    by_cases hfd : fd = fd'
    · subst hfd
      refine ⟨more, (hmap fd).trans ?_⟩
      rw [if_pos rfl, h, Option.getD_some]
    · exact ⟨[], (hmap fd).trans ((if_neg hfd).trans hsame)⟩
  | delFdCallbacks _ | delFd _ | enqueueEvent _ | get | set _ => exact ⟨[], hsame⟩

/-- An operation marks the descriptors that it deletes. -/
theorem perform_marks (host : Host κ σ) {call : BusCall κ σ}
    (hcall : ¬ Deletes fd (.perform call : Move κ σ)) (s : Bus κ σ) :
    fd ∈ (s.perform host call).2.callbacksToRemove ↔ fd ∈ s.callbacksToRemove := by
  cases call with
  | addFd fd' callback =>
    obtain ⟨more, -, hmarks, -⟩ := addFd_spec host s fd' callback
    exact hmarks ▸ Iff.rfl
  | delFdCallbacks fd' =>
    refine (mem_mark host s fd' fd).trans (or_iff_left ?_)
    rintro rfl
    exact hcall (Or.inr rfl)
  | delFd fd' =>
    refine (mem_mark host s fd' fd).trans (or_iff_left ?_)
    rintro rfl
    exact hcall (Or.inl rfl)
  | enqueueEvent _ | get | set _ => exact Iff.rfl

/-- **Any move but a deletion.** -/
theorem InForce.watch (h : InForce fd callback w) {m : Move κ σ} (hm : ¬ Deletes fd m)
    (hpassed : StaysPassed fd w m) (hstep : Bus.watch host w m = some w') :
    InForce fd callback w' := by
  obtain ⟨⟨s, phase⟩, native, added⟩ := w
  obtain ⟨⟨t, phase'⟩, hmove, rfl⟩ := Option.map_eq_some_iff.mp hstep
  obtain ⟨hnative, ⟨callbacks, hentry, hmem⟩, hstays, hnodup⟩ := h
  refine ⟨mem_nativeAfter hm hnative, ?_, ?_, (moved_of_move hmove).nodup hnodup⟩
  · cases moved_of_move hmove with
    | perform _ _ call =>
      obtain ⟨more, hmore⟩ := perform_entry host call hentry
      exact ⟨_, hmore, List.mem_append_left more hmem⟩
    | note | swap | start | invoke | skip | finish | abort | clear =>
      exact ⟨callbacks, hentry, hmem⟩
    | erase _ current left fd' fds hahead =>
      refine ⟨callbacks, (if_neg ?_).trans hentry, hmem⟩
      rintro rfl
      refine hstays ?_
      show fd ∈ ahead current s.callbacksToRemove
      rw [hahead]
      exact List.mem_cons_self
  · cases moved_of_move hmove with
    | perform _ _ call =>
      intro hdue
      have hmarked : fd ∈ s.callbacksToRemove := (perform_marks host hm s).mp hdue.marked
      cases phase with
      | idle | calling _ _ => exact hstays hmarked
      | erasing current left =>
        have hsame : (s.perform host call).2.callbacksToRemove = s.callbacksToRemove :=
          Orderly.same (hpassed hmarked)
        exact hstays ((removalDue_congr (.erasing current left) hsame).mp hdue)
    | @note _ _ entry _ =>
      exact fun hdue => hstays ((removalDue_congr (s := s) (t := s.log entry) phase rfl).mp hdue)
    | swap | start | invoke | skip | finish | abort => exact hstays
    | erase _ current left fd' fds hahead =>
      intro hdue
      have hrest : fd ∈ fds := (ahead_of_cons hnodup hahead) ▸ hdue
      refine hstays ?_
      show fd ∈ ahead current s.callbacksToRemove
      rw [hahead]
      exact List.mem_cons_of_mem fd' hrest
    | clear => exact List.not_mem_nil

/-- **Any run without a deletion.** -/
theorem InForce.run {moves : List (Move κ σ)} (h : InForce fd callback w)
    (hmoves : ∀ m ∈ moves, ¬ Deletes fd m) (hpassed : Meets (Bus.watch host) (StaysPassed fd) w moves)
    (hrun : Library.run (Bus.watch host) w moves = some w') : InForce fd callback w' := by
  induction moves generalizing w with
  | nil =>
    obtain rfl := Option.some.inj hrun
    exact h
  | cons m moves ih =>
    obtain ⟨hfirst, hrest⟩ := List.forall_mem_cons.mp hmoves
    obtain ⟨u, hstep, hrun⟩ := Option.bind_eq_some_iff.mp hrun
    exact ih (h.watch hfirst hpassed.1 hstep) hrest (hpassed.2 u hstep) hrun

/-! ## A dispatch -/

/-- In the loop over the callbacks of an event: the callback is still to come, or it has been
called since the trace was `before`. -/
def CalledOrToCome (ev : Event) (callback : κ) (before : List (Entry κ)) (w : Watched κ σ) :
    Prop :=
  ∃ callbacks entries, w.place.2 = .calling ev callbacks ∧ w.place.1.trace = before ++ entries ∧
    (callback ∈ callbacks ∨ .invoked callback ev ∈ entries)

/-- In this loop nothing is being removed. -/
theorem CalledOrToCome.passed {ev : Event} {before : List (Entry κ)}
    (h : CalledOrToCome ev callback before w) (m : Move κ σ) : StaysPassed fd w m := by
  obtain ⟨⟨s, phase⟩, native, added⟩ := w
  obtain ⟨callbacks, -, hphase, -⟩ := h
  obtain rfl : phase = .calling ev callbacks := hphase
  exact fun _ => trivial

/-- **A move of the loop.** -/
theorem CalledOrToCome.watch {ev : Event} {before : List (Entry κ)}
    (hforce : InForce ev.fd callback w) (h : CalledOrToCome ev callback before w) {m : Move κ σ}
    (hm : m ≠ .finish ∧ m ≠ .abort) (hstep : Bus.watch host w m = some w') :
    CalledOrToCome ev callback before w' := by
  obtain ⟨⟨s, phase⟩, native, added⟩ := w
  obtain ⟨⟨t, phase'⟩, hmove, rfl⟩ := Option.map_eq_some_iff.mp hstep
  obtain ⟨callbacks, entries, hphase, htrace, hor⟩ := h
  obtain rfl : phase = .calling ev callbacks := hphase
  have hlater : ∀ more, .invoked callback ev ∈ entries → .invoked callback ev ∈ entries ++ more :=
    fun more => List.mem_append_left more
  cases moved_of_move hmove with
  | perform _ _ call =>
    obtain ⟨ops, hemits, -⟩ := used_perform host call s
    refine ⟨callbacks, entries ++ ops, rfl, ?_, hor.imp_right (hlater ops)⟩
    rw [← List.append_assoc, ← htrace]
    exact hemits.trace
  | @note _ _ entry _ =>
    refine ⟨callbacks, entries ++ [entry], rfl, ?_, hor.imp_right (hlater [entry])⟩
    rw [← List.append_assoc, ← htrace]
    rfl
  | invoke _ callback' rest hmark =>
    refine ⟨rest, entries ++ [.invoked callback' ev], rfl, ?_, ?_⟩
    · rw [← List.append_assoc, ← htrace]
      rfl
    · rcases hor with hcome | hcalled
      · rcases List.mem_cons.mp hcome with rfl | hrest
        · exact Or.inr (List.mem_append_right _ (List.mem_singleton_self _))
        · exact Or.inl hrest
      · exact Or.inr (hlater _ hcalled)
  | skip _ callback' rest hmark => exact absurd hmark hforce.stays
  | finish => exact absurd rfl hm.1
  | abort => exact absurd rfl hm.2

/-- **The loop over the callbacks** of an event, up to its end. -/
theorem InForce.called {ev : Event} (h : InForce ev.fd callback w) {mid : List (Move κ σ)}
    (hmid : ∀ m ∈ mid, ¬ Deletes ev.fd m ∧ m ≠ .finish ∧ m ≠ .abort)
    (hrun : Library.run (Bus.watch host) w (.start ev :: mid) = some w')
    (hend : Bus.watch host w' .finish ≠ none) :
    ∃ entries, w'.place.1.trace = w.place.1.trace ++ entries ∧ .invoked callback ev ∈ entries := by
  obtain ⟨w₁, hstart, hrun⟩ := Option.bind_eq_some_iff.mp hrun
  have hcalls : ∀ m : Move κ σ, m = .start ev → ¬ Deletes ev.fd m := by
    rintro m rfl (heq | heq)
    · cases heq
    · cases heq
  have hforce : InForce ev.fd callback w₁ :=
    h.watch (hcalls _ rfl) (fun _ => orderly_start w.place ev) hstart
  have hfirst : CalledOrToCome ev callback w.place.1.trace w₁ := by
    obtain ⟨callbacks, hentry, hmem⟩ := h.entry
    obtain ⟨⟨s, phase⟩, native, added⟩ := w
    obtain ⟨place, hmove, rfl⟩ := Option.map_eq_some_iff.mp hstart
    cases moved_of_move hmove with
    | start =>
      refine ⟨_, [], rfl, (List.append_nil _).symm, Or.inl ?_⟩
      rw [show s.callbackMap ev.fd = some callbacks from hentry]
      exact hmem
  have hstep : ∀ u m u', InForce ev.fd callback u ∧ CalledOrToCome ev callback w.place.1.trace u →
      (¬ Deletes ev.fd m ∧ m ≠ .finish ∧ m ≠ .abort) → Bus.watch host u m = some u' →
        InForce ev.fd callback u' ∧ CalledOrToCome ev callback w.place.1.trace u' :=
    fun _ m _ hu hm hwatch =>
      ⟨hu.1.watch hm.1 (hu.2.passed m) hwatch, hu.2.watch hu.1 hm.2 hwatch⟩
  obtain ⟨-, callbacks, entries, hphase, htrace, hor⟩ :=
    run_invariant hstep ⟨hforce, hfirst⟩ (meets_of_forall w₁ hmid) hrun
  -- the loop ends when no callback is left
  obtain ⟨⟨t, phase'⟩, native', added'⟩ := w'
  obtain rfl : phase' = .calling ev callbacks := hphase
  rcases callbacks with _ | ⟨callback', rest⟩
  · exact ⟨entries, htrace, hor.resolve_left List.not_mem_nil⟩
  · exact absurd rfl hend

end InForce

end Bus

end Io
end PsqlTcpProxy
