import PsqlTcpProxy.Io.BusDispatch
import PsqlTcpProxy.Library.Run

/-!
# The bus move by move

To follow a descriptor from the call of `del_fd` on, whoever makes it, the bus is taken
apart into moves: an operation, a call of a callback, the erasing of one descriptor.  `move`
says where each is possible.

`movesAfter` lists the moves of a run of the bus, piece by piece as the bus does them, and
`run_movesAfter` says that they lead where the run leads.  The dispatches among them are those
of the events that arrive (`starts_movesAfter`): what holds of the moves of a run holds of
what the bus does with its events, not of some other way to the same state.
-/

namespace PsqlTcpProxy
namespace Io

open Library

variable {κ σ : Type}

/-- What the bus is about. -/
inductive Phase (κ : Type) where
  /-- No event is being dispatched. -/
  | idle
  /-- The loop over the callbacks of an event, and those that are left. -/
  | calling (ev : Event) (callbacks : List κ)
  /-- The loop over the descriptors to remove: the one it stands at, and how many passes it
  can make yet. -/
  | erasing (current : Option FileDescriptor) (left : ℕ)

/-- What may happen next. -/
inductive Move (κ σ : Type) where
  /-- Somebody calls an operation of the bus: code outside `wait_events`, a callback, the
  error callback, or a destructor. -/
  | perform (call : BusCall κ σ)
  /-- Something is noted. -/
  | note (entry : Entry κ)
  /-- `std::swap(_events, events)` -/
  | swap
  /-- The dispatch of an event begins. -/
  | start (ev : Event)
  /-- The next callback is called. -/
  | invoke
  /-- It is not, because its descriptor is marked. -/
  | skip
  /-- The callbacks have been called. -/
  | finish
  /-- The error callback has thrown. -/
  | abort
  /-- The entry of the next descriptor is erased. -/
  | erase
  /-- `_callbacks_to_remove.clear()` -/
  | clear

namespace Bus

/-- The line is about neither an operation nor a call. -/
def Noted : Entry κ → Prop
  | .polled _ | .delivered _ | .dispatched _ | .returned _ _ | .reported _ => True
  | .added _ _ | .marked _ | .enqueued _ | .invoked _ _ => False

instance : DecidablePred (Noted (κ := κ)) := fun entry => by
  cases entry <;> first | exact .isTrue trivial | exact .isFalse id

/-- The entry of the next descriptor is erased, if there is one. -/
def eraseNext (s : Bus κ σ) (left : ℕ) : List FileDescriptor → Option (Bus κ σ × Phase κ)
  | [] => none
  | fd :: _ => some (s.setCallbacks fd none, .erasing (some fd) left)

/-- One move, where it is possible. -/
def move (host : Host κ σ) : Bus κ σ × Phase κ → Move κ σ → Option (Bus κ σ × Phase κ)
  | (s, phase), .perform call => some ((s.perform host call).2, phase)
  | (s, phase), .note entry => if Noted entry then some (s.log entry, phase) else none
  | (s, .idle), .swap => some ({ s with events := [] }, .idle)
  | (s, .idle), .start ev => some (s, .calling ev ((s.callbackMap ev.fd).getD []))
  | (s, .calling ev (callback :: callbacks)), .invoke =>
    if ev.fd ∈ s.callbacksToRemove then none
    else some (s.log (.invoked callback ev), .calling ev callbacks)
  | (s, .calling ev (_ :: callbacks)), .skip =>
    if ev.fd ∈ s.callbacksToRemove then some (s, .calling ev callbacks) else none
  | (s, .calling _ []), .finish => some (s, .erasing none s.passes)
  | (s, .calling _ _), .abort => some (s, .idle)
  | (s, .erasing current (left + 1)), .erase => s.eraseNext left (ahead current s.callbacksToRemove)
  | (s, .erasing current left), .clear =>
    if left = 0 ∨ ahead current s.callbacksToRemove = [] then
      some ({ s with callbacksToRemove := [] }, .idle)
    else none
  | _, _ => none

/-- Everything a move can do. -/
inductive Moved (host : Host κ σ) : Bus κ σ × Phase κ → Move κ σ → Bus κ σ × Phase κ → Prop
  | perform (s : Bus κ σ) (phase : Phase κ) (call : BusCall κ σ) :
    Moved host (s, phase) (.perform call) ((s.perform host call).2, phase)
  | note (s : Bus κ σ) (phase : Phase κ) {entry : Entry κ} (hentry : Noted entry) :
    Moved host (s, phase) (.note entry) (s.log entry, phase)
  | swap (s : Bus κ σ) : Moved host (s, .idle) .swap ({ s with events := [] }, .idle)
  | start (s : Bus κ σ) (ev : Event) :
    Moved host (s, .idle) (.start ev) (s, .calling ev ((s.callbackMap ev.fd).getD []))
  | invoke (s : Bus κ σ) {ev : Event} (callback : κ) (callbacks : List κ)
    (hmark : ev.fd ∉ s.callbacksToRemove) :
    Moved host (s, .calling ev (callback :: callbacks)) .invoke
      (s.log (.invoked callback ev), .calling ev callbacks)
  | skip (s : Bus κ σ) {ev : Event} (callback : κ) (callbacks : List κ)
    (hmark : ev.fd ∈ s.callbacksToRemove) :
    Moved host (s, .calling ev (callback :: callbacks)) .skip (s, .calling ev callbacks)
  | finish (s : Bus κ σ) (ev : Event) :
    Moved host (s, .calling ev []) .finish (s, .erasing none s.passes)
  | abort (s : Bus κ σ) (ev : Event) (callbacks : List κ) :
    Moved host (s, .calling ev callbacks) .abort (s, .idle)
  | erase (s : Bus κ σ) (current : Option FileDescriptor) (left : ℕ) (fd : FileDescriptor)
    (fds : List FileDescriptor) (hahead : ahead current s.callbacksToRemove = fd :: fds) :
    Moved host (s, .erasing current (left + 1)) .erase
      (s.setCallbacks fd none, .erasing (some fd) left)
  | clear (s : Bus κ σ) (current : Option FileDescriptor) (left : ℕ)
    (hend : left = 0 ∨ ahead current s.callbacksToRemove = []) :
    Moved host (s, .erasing current left) .clear ({ s with callbacksToRemove := [] }, .idle)

theorem moved_of_move {host : Host κ σ} {s t : Bus κ σ × Phase κ} {m : Move κ σ}
    (h : move host s m = some t) : Moved host s m t := by
  obtain ⟨s, phase⟩ := s
  cases m with
  | perform call =>
    obtain rfl := Option.some.inj h
    exact .perform s phase call
  | note entry =>
    obtain ⟨hentry, heq⟩ := Option.ite_none_right_eq_some.mp h
    obtain rfl := Option.some.inj heq
    exact .note s phase hentry
  | swap =>
    cases phase with
    | idle =>
      obtain rfl := Option.some.inj h
      exact .swap s
    | calling _ _ | erasing _ _ => cases h
  | start ev =>
    cases phase with
    | idle =>
      obtain rfl := Option.some.inj h
      exact .start s ev
    | calling _ _ | erasing _ _ => cases h
  | invoke =>
    rcases phase with _ | ⟨ev, _ | ⟨callback, callbacks⟩⟩ | _
    · cases h
    · cases h
    · obtain ⟨hmark, heq⟩ := Option.ite_none_left_eq_some.mp h
      obtain rfl := Option.some.inj heq
      exact .invoke s callback callbacks hmark
    · cases h
  | skip =>
    rcases phase with _ | ⟨ev, _ | ⟨callback, callbacks⟩⟩ | _
    · cases h
    · cases h
    · obtain ⟨hmark, heq⟩ := Option.ite_none_right_eq_some.mp h
      obtain rfl := Option.some.inj heq
      exact .skip s callback callbacks hmark
    · cases h
  | finish =>
    rcases phase with _ | ⟨ev, _ | ⟨callback, callbacks⟩⟩ | _
    · cases h
    · obtain rfl := Option.some.inj h
      exact .finish s ev
    · cases h
    · cases h
  | abort =>
    cases phase with
    | calling ev callbacks =>
      obtain rfl := Option.some.inj h
      exact .abort s ev callbacks
    | idle | erasing _ _ => cases h
  | erase =>
    rcases phase with _ | ⟨ev, callbacks⟩ | ⟨current, _ | left⟩
    · cases h
    · cases h
    · cases h
    · have hnext : s.eraseNext left (ahead current s.callbacksToRemove) = some t := h
      rcases hahead : ahead current s.callbacksToRemove with _ | ⟨fd, fds⟩
      · rw [hahead] at hnext
        cases hnext
      · rw [hahead] at hnext
        obtain rfl := Option.some.inj hnext
        exact .erase s current left fd fds hahead
  | clear =>
    rcases phase with _ | ⟨ev, callbacks⟩ | ⟨current, left⟩
    · cases h
    · cases h
    · obtain ⟨hend, heq⟩ := Option.ite_none_right_eq_some.mp (h :
        (if left = 0 ∨ ahead current s.callbacksToRemove = [] then
          some (({ s with callbacksToRemove := [] } : Bus κ σ), Phase.idle) else none) = some t)
      obtain rfl := Option.some.inj heq
      exact .clear s current left hend

/-- While descriptors are being removed, only what is to be removed already is deleted. -/
def Orderly : Bus κ σ × Phase κ → Move κ σ → Prop
  | (s, .erasing _ _), .perform (.delFd fd) => fd ∈ s.callbacksToRemove
  | (s, .erasing _ _), .perform (.delFdCallbacks fd) => fd ∈ s.callbacksToRemove
  | _, _ => True

instance : (place : Bus κ σ × Phase κ) → DecidablePred (Orderly place)
  | (s, .erasing _ _), .perform (.delFd fd) =>
    inferInstanceAs (Decidable (fd ∈ s.callbacksToRemove))
  | (s, .erasing _ _), .perform (.delFdCallbacks fd) =>
    inferInstanceAs (Decidable (fd ∈ s.callbacksToRemove))
  | (_, .erasing _ _), .perform (.addFd _ _) | (_, .erasing _ _), .perform (.enqueueEvent _)
  | (_, .erasing _ _), .perform .get | (_, .erasing _ _), .perform (.set _)
  | (_, .erasing _ _), .note _ | (_, .erasing _ _), .swap | (_, .erasing _ _), .start _
  | (_, .erasing _ _), .invoke | (_, .erasing _ _), .skip | (_, .erasing _ _), .finish
  | (_, .erasing _ _), .abort | (_, .erasing _ _), .erase | (_, .erasing _ _), .clear
  | (_, .idle), _ | (_, .calling _ _), _ => .isTrue trivial

theorem orderly_start (place : Bus κ σ × Phase κ) (ev : Event) :
    Orderly place (.start ev : Move κ σ) := by
  obtain ⟨s, _ | _ | _⟩ := place <;> trivial

/-- An orderly operation leaves the set that is being visited as it is. -/
theorem Orderly.same {host : Host κ σ} {s : Bus κ σ} {current : Option FileDescriptor} {left : ℕ}
    {call : BusCall κ σ} (h : Orderly (s, .erasing current left) (.perform call)) :
    (s.perform host call).2.callbacksToRemove = s.callbacksToRemove := by
  cases call with
  | addFd fd callback =>
    obtain ⟨-, -, hmarks, -⟩ := addFd_spec host s fd callback
    exact hmarks
  | delFdCallbacks fd => exact mark_of_mem host h
  | delFd fd => exact mark_of_mem host h
  | enqueueEvent _ | get | set _ => rfl

/-- The set has every descriptor once. -/
theorem Moved.nodup {host : Host κ σ} {s t : Bus κ σ × Phase κ} {m : Move κ σ}
    (h : Moved host s m t) (hs : s.1.callbacksToRemove.Nodup) : t.1.callbacksToRemove.Nodup := by
  cases h with
  | perform s phase call => exact nodup_perform host call hs
  | note | swap | start | invoke | skip | finish | abort | erase => exact hs
  | clear => exact List.nodup_nil

theorem nodup_run {host : Host κ σ} {s t : Bus κ σ × Phase κ} {moves : List (Move κ σ)}
    (hs : s.1.callbacksToRemove.Nodup) (hrun : run (move host) s moves = some t) :
    t.1.callbacksToRemove.Nodup :=
  run_invariant (P := fun _ _ => True) (fun _ _ _ hu _ hstep => (moved_of_move hstep).nodup hu) hs
    (meets_of_forall s fun _ _ => trivial) hrun

/-! ## The moves of a run -/

/-- The moves of code. -/
def movesExec {α : Type} (host : Host κ σ) (code : Code κ σ α) (s : Bus κ σ) : List (Move κ σ) :=
  (code.trail (perform host) s).flatMap fun call => [.perform call.1]

/-- The moves of `report`. -/
def movesReport (host : Host κ σ) (errorCallback : ErrorCallback κ σ) (err : Error)
    (s : Bus κ σ) : List (Move κ σ) :=
  match errorCallback with
  | none => []
  | some callback =>
    .note (.reported err) :: movesExec host (callback err) (s.log (.reported err))

/-- The moves of `invoke`. -/
def movesInvoke (host : Host κ σ) (ev : Event) (callback : κ) (s : Bus κ σ) : List (Move κ σ) :=
  .invoke :: (movesExec host (host.callback callback ev.fd ev.flags) (s.log (.invoked callback ev)) ++
    [.note (.returned callback (s.invoke host ev callback).1)])

/-- The moves of `runCallbacks`. -/
def movesRunCallbacks (host : Host κ σ) (errorCallback : ErrorCallback κ σ) (ev : Event) :
    List κ → Bus κ σ → List (Move κ σ)
  | [], _ => []
  | callback :: callbacks, s =>
    if ev.fd ∈ s.callbacksToRemove then
      .skip :: movesRunCallbacks host errorCallback ev callbacks s
    else
      movesInvoke host ev callback s ++
        match s.invoke host ev callback with
        | (none, s) => movesRunCallbacks host errorCallback ev callbacks s
        | (some e, s) =>
          movesReport host errorCallback (asError ev.fd (host.errno s.world) e) s ++
            match s.report host errorCallback (asError ev.fd (host.errno s.world) e) with
            | (.ok (), s) => movesRunCallbacks host errorCallback ev callbacks s
            | (.error _, _) => [.abort]

/-- The moves of `destroyAll`. -/
def movesDestroyAll (host : Host κ σ) : List κ → Bus κ σ → List (Move κ σ)
  | [], _ => []
  | callback :: callbacks, s =>
    movesExec host (host.destroy callback) s ++
      movesDestroyAll host callbacks (s.exec host (host.destroy callback)).2

/-- The moves of `erase`. -/
def movesErase (host : Host κ σ) (fd : FileDescriptor) (s : Bus κ σ) : List (Move κ σ) :=
  .erase ::
    match s.callbackMap fd with
    | some callbacks => movesDestroyAll host callbacks (s.setCallbacks fd none)
    | none => []

/-- The moves of `eraseAll`. -/
def movesEraseAll (host : Host κ σ) : ℕ → Option FileDescriptor → Bus κ σ → List (Move κ σ)
  | 0, _, _ => []
  | n + 1, current, s =>
    match ahead current s.callbacksToRemove with
    | [] => []
    | fd :: _ => movesErase host fd s ++ movesEraseAll host n (some fd) (s.erase host fd)

/-- The moves of `flush`. -/
def movesFlush (host : Host κ σ) (s : Bus κ σ) : List (Move κ σ) :=
  .finish :: (movesEraseAll host s.passes none s ++ [.clear])

/-- The moves of `dispatch`. -/
def movesDispatch (host : Host κ σ) (errorCallback : ErrorCallback κ σ) (ev : Event)
    (s : Bus κ σ) : List (Move κ σ) :=
  .start ev :: (movesRunCallbacks host errorCallback ev ((s.callbackMap ev.fd).getD []) s ++
    match s.runCallbacks host errorCallback ev ((s.callbackMap ev.fd).getD []) with
    | (.ok (), s) => movesFlush host s
    | (.error _, _) => [])

/-- The moves of a call in `_wait_events`. -/
def movesWait (host : Host κ σ) (errorCallback : ErrorCallback κ σ) :
    WaitCall κ σ → Bus κ σ → List (Move κ σ)
  | .bus call, _ => [.perform call]
  | .poll batch, _ => [.note (.polled batch)]
  | .deliver ev, s =>
    .note (.delivered ev) :: movesDispatch host errorCallback ev (s.log (.delivered ev))

/-- The moves of `native`. -/
def movesNative (host : Host κ σ) (errorCallback : ErrorCallback κ σ) (wait : WaitCode κ σ)
    (s : Bus κ σ) : List (Move κ σ) :=
  (wait.trail (performWait host errorCallback) s).flatMap fun call =>
    movesWait host errorCallback call.1 call.2

/-- The moves of `drain`. -/
def movesDrain (host : Host κ σ) (errorCallback : ErrorCallback κ σ) :
    List Event → Bus κ σ → List (Move κ σ)
  | [], _ => []
  | ev :: evs, s =>
    .note (.dispatched ev) :: (movesDispatch host errorCallback ev (s.log (.dispatched ev)) ++
      match (s.log (.dispatched ev)).dispatch host errorCallback ev with
      | (.ok (), s) => movesDrain host errorCallback evs s
      | (.error _, _) => [])

/-- The moves of `serve`. -/
def movesServe (host : Host κ σ) (errorCallback : ErrorCallback κ σ) (wait : WaitCode κ σ)
    (s : Bus κ σ) : List (Move κ σ) :=
  movesNative host errorCallback wait s ++
    match s.native host errorCallback wait with
    | (.ok (), s) => .swap :: movesDrain host errorCallback s.events { s with events := [] }
    | (.error _, _) => []

/-- The moves of `wait_events`. -/
def movesWaitEvents (host : Host κ σ) (wait : WaitCode κ σ) (errorCallback : ErrorCallback κ σ)
    (s : Bus κ σ) : List (Move κ σ) :=
  movesServe host errorCallback wait s ++
    match s.serve host errorCallback wait with
    | (.ok (), _) => []
    | (.error e, s) => movesReport host errorCallback (asError (-1) (host.errno s.world) e) s

/-- The moves of one input. -/
def movesStep (host : Host κ σ) (s : Bus κ σ) : BusInput κ σ → List (Move κ σ)
  | .code code => movesExec host code s
  | .waitEvents wait errorCallback => movesWaitEvents host wait errorCallback s

/-- The moves of a run. -/
def movesAfter (host : Host κ σ) (s : Bus κ σ) : List (BusInput κ σ) → List (Move κ σ)
  | [] => []
  | input :: inputs => movesStep host s input ++ movesAfter host (s.step host input) inputs

section Simulation

variable {host : Host κ σ}

/-- **Any code** is moves, in every phase. -/
theorem run_movesExec {α : Type} (code : Code κ σ α) (s : Bus κ σ) (phase : Phase κ) :
    run (move host) (s, phase) (movesExec host code s) = some ((s.exec host code).2, phase) :=
  Program.run_trail (perform host) (fun s => (s, phase)) (fun call _ => [Move.perform call])
    (fun _ _ => rfl) code s

theorem move_note (s : Bus κ σ) (phase : Phase κ) {entry : Entry κ} (hentry : Noted entry) :
    move host (s, phase) (.note entry) = some (s.log entry, phase) := if_pos hentry

theorem move_clear {current : Option FileDescriptor} {n : ℕ} {s : Bus κ σ}
    (h : n = 0 ∨ ahead current s.callbacksToRemove = []) :
    move host (s, .erasing current n) .clear =
      some ({ s with callbacksToRemove := [] }, .idle) := if_pos h

theorem run_movesReport (errorCallback : ErrorCallback κ σ) (err : Error) (s : Bus κ σ)
    (phase : Phase κ) : run (move host) (s, phase) (movesReport host errorCallback err s) =
      some ((s.report host errorCallback err).2, phase) := by
  rcases errorCallback with _ | callback
  · rfl
  · have hreported : Noted (.reported err : Entry κ) := trivial
    exact run_step (move_note s phase hreported) (run_movesExec (callback err) _ phase)

theorem run_movesInvoke {ev : Event} {s : Bus κ σ} (hmark : ev.fd ∉ s.callbacksToRemove)
    (callback : κ) (callbacks : List κ) :
    run (move host) (s, .calling ev (callback :: callbacks)) (movesInvoke host ev callback s) =
      some ((s.invoke host ev callback).2, .calling ev callbacks) := by
  have hcall : move host (s, .calling ev (callback :: callbacks)) .invoke =
      some (s.log (.invoked callback ev), .calling ev callbacks) := if_neg hmark
  refine run_step hcall (run_trans (run_movesExec _ _ _) ?_)
  unfold invoke
  have hreturned : ∀ thrown, Noted (.returned callback thrown) := fun _ => trivial
  rcases (s.log (.invoked callback ev)).exec host (host.callback callback ev.fd ev.flags)
    with ⟨e | ⟨⟩, t⟩
  · exact run_step (move_note t _ (hreturned (some e))) rfl
  · exact run_step (move_note t _ (hreturned none)) rfl

/-- Where the loop over the callbacks is left. -/
def left (ev : Event) : Except Exception Unit → Phase κ
  | .ok () => .calling ev []
  | .error _ => .idle

/-- **The loop over the callbacks** is moves; an exception of the error callback leaves it. -/
theorem run_movesRunCallbacks (errorCallback : ErrorCallback κ σ) (ev : Event)
    (callbacks : List κ) (s : Bus κ σ) :
    run (move host) (s, .calling ev callbacks)
        (movesRunCallbacks host errorCallback ev callbacks s) =
      some ((s.runCallbacks host errorCallback ev callbacks).2,
        left ev (s.runCallbacks host errorCallback ev callbacks).1) := by
  induction callbacks generalizing s with
  | nil => rfl
  | cons callback callbacks ih =>
    rw [runCallbacks, movesRunCallbacks]
    split
    · exact run_step (if_pos ‹ev.fd ∈ s.callbacksToRemove›) (ih s)
    · refine run_trans (run_movesInvoke ‹ev.fd ∉ s.callbacksToRemove› callback callbacks) ?_
      rcases s.invoke host ev callback with ⟨_ | e, t⟩
      · exact ih t
      · refine run_trans (run_movesReport errorCallback _ t _) ?_
        simp only
        rcases t.report host errorCallback (asError ev.fd (host.errno t.world) e)
          with ⟨e' | ⟨⟩, u⟩
        · rfl
        · exact ih u

theorem run_movesDestroyAll (callbacks : List κ) (s : Bus κ σ) (phase : Phase κ) :
    run (move host) (s, phase) (movesDestroyAll host callbacks s) =
      some (s.destroyAll host callbacks, phase) := by
  induction callbacks generalizing s with
  | nil => rfl
  | cons callback callbacks ih =>
    exact run_trans (run_movesExec (host.destroy callback) s phase) (ih _)

/-- Erasing an entry that is not there. -/
theorem setCallbacks_none {s : Bus κ σ} {fd : FileDescriptor} (h : s.callbackMap fd = none) :
    s.setCallbacks fd none = s := by
  have hmap : (fun fd' => if fd' = fd then none else s.callbackMap fd') = s.callbackMap := by
    ext fd' : 1
    split
    · rename_i hfd
      rw [hfd, h]
    · rfl
  rw [setCallbacks, hmap]

theorem run_movesErase {current : Option FileDescriptor} {s : Bus κ σ} {fd : FileDescriptor}
    {fds : List FileDescriptor} (hahead : ahead current s.callbacksToRemove = fd :: fds) (n : ℕ) :
    run (move host) (s, .erasing current (n + 1)) (movesErase host fd s) =
      some (s.erase host fd, .erasing (some fd) n) := by
  have herase : move host (s, .erasing current (n + 1)) .erase =
      some (s.setCallbacks fd none, .erasing (some fd) n) := by
    show s.eraseNext n (ahead current s.callbacksToRemove) = _
    rw [hahead]
    rfl
  refine run_step herase ?_
  unfold erase
  rcases hmap : s.callbackMap fd with _ | callbacks
  · rw [setCallbacks_none hmap]
    rfl
  · exact run_movesDestroyAll callbacks _ _

/-- **The loop over the descriptors** is moves, up to the end. -/
theorem run_movesEraseAll (n : ℕ) (current : Option FileDescriptor) (s : Bus κ σ) :
    run (move host) (s, .erasing current n) (movesEraseAll host n current s ++ [.clear]) =
      some ({ s.eraseAll host n current with callbacksToRemove := [] }, .idle) := by
  induction n generalizing current s with
  | zero => exact run_step (move_clear (Or.inl rfl)) rfl
  | succ n ih =>
    rw [eraseAll, movesEraseAll]
    rcases hahead : ahead current s.callbacksToRemove with _ | ⟨fd, fds⟩
    · exact run_step (move_clear (Or.inr hahead)) rfl
    · rw [List.append_assoc]
      exact run_trans (run_movesErase hahead n) (ih (some fd) _)

/-- **A dispatch** is moves. -/
theorem run_movesDispatch (errorCallback : ErrorCallback κ σ) (ev : Event) (s : Bus κ σ) :
    run (move host) (s, .idle) (movesDispatch host errorCallback ev s) =
      some ((s.dispatch host errorCallback ev).2, .idle) := by
  refine run_step (t := (s, .calling ev ((s.callbackMap ev.fd).getD []))) rfl ?_
  refine run_trans (run_movesRunCallbacks errorCallback ev _ s) ?_
  unfold dispatch
  rcases s.runCallbacks host errorCallback ev ((s.callbackMap ev.fd).getD [])
    with ⟨e | ⟨⟩, t⟩
  · rfl
  · exact run_step (t := (t, .erasing none t.passes)) rfl (run_movesEraseAll t.passes none t)

theorem run_movesDrain (errorCallback : ErrorCallback κ σ) (evs : List Event) (s : Bus κ σ) :
    run (move host) (s, .idle) (movesDrain host errorCallback evs s) =
      some ((s.drain host errorCallback evs).2, .idle) := by
  induction evs generalizing s with
  | nil => rfl
  | cons ev evs ih =>
    refine run_step (t := (s.log (.dispatched ev), .idle)) rfl ?_
    refine run_trans (run_movesDispatch errorCallback ev _) ?_
    unfold drain
    rcases (s.log (.dispatched ev)).dispatch host errorCallback ev with ⟨e | ⟨⟩, t⟩
    · rfl
    · exact ih t

theorem run_movesNative (errorCallback : ErrorCallback κ σ) (wait : WaitCode κ σ) (s : Bus κ σ) :
    run (move host) (s, .idle) (movesNative host errorCallback wait s) =
      some ((s.native host errorCallback wait).2, .idle) := by
  refine Program.run_trail (performWait host errorCallback) (fun s => (s, Phase.idle))
    (movesWait host errorCallback) ?_ wait s
  intro call s
  cases call with
  | bus call => rfl
  | poll batch => rfl
  | deliver ev =>
    exact run_step (t := (s.log (.delivered ev), .idle)) rfl
      (run_movesDispatch errorCallback ev _)

theorem run_movesServe (errorCallback : ErrorCallback κ σ) (wait : WaitCode κ σ) (s : Bus κ σ) :
    run (move host) (s, .idle) (movesServe host errorCallback wait s) =
      some ((s.serve host errorCallback wait).2, .idle) := by
  refine run_trans (run_movesNative errorCallback wait s) ?_
  unfold serve
  rcases s.native host errorCallback wait with ⟨e | ⟨⟩, t⟩
  · rfl
  · exact run_step (t := ({ t with events := [] }, .idle)) rfl
      (run_movesDrain errorCallback t.events _)

theorem run_movesStep (s : Bus κ σ) (input : BusInput κ σ) :
    run (move host) (s, .idle) (movesStep host s input) = some (s.step host input, .idle) := by
  cases input with
  | code code => exact run_movesExec code s .idle
  | waitEvents wait errorCallback =>
    refine run_trans (run_movesServe errorCallback wait s) ?_
    show _ = some ((s.waitEvents host wait errorCallback).2, Phase.idle)
    unfold waitEvents
    rcases s.serve host errorCallback wait with ⟨e | ⟨⟩, t⟩
    · exact run_movesReport errorCallback _ t .idle
    · rfl

/-- **Every run of the bus is a run of its moves.** -/
theorem run_movesAfter (s : Bus κ σ) (inputs : List (BusInput κ σ)) :
    run (move host) (s, .idle) (movesAfter host s inputs) = some (s.after host inputs, .idle) := by
  induction inputs generalizing s with
  | nil => rfl
  | cons input inputs ih => exact run_trans (run_movesStep s input) (ih _)

/-- **In every run** the set has every descriptor once. -/
theorem nodup_after {s : Bus κ σ} (hs : s.callbacksToRemove.Nodup)
    (inputs : List (BusInput κ σ)) : (s.after host inputs).callbacksToRemove.Nodup :=
  nodup_run (s := (s, .idle)) hs (run_movesAfter s inputs)

end Simulation

end Bus

/-! ## The events of a run -/

/-- The event that has arrived: it was delivered by `_wait_events`, or taken from the queue. -/
def Entry.arrived? : Entry κ → Option Event
  | .delivered ev | .dispatched ev => some ev
  | _ => none

/-- The event that the line noted is about. -/
def Move.arrived? : Move κ σ → Option Event
  | .note entry => entry.arrived?
  | _ => none

/-- The event whose dispatch begins. -/
def Move.start? : Move κ σ → Option Event
  | .start ev => some ev
  | _ => none

/-- The events that have arrived, in order. -/
def arrivedIn (entries : List (Entry κ)) : List Event := entries.filterMap Entry.arrived?
/-- The events whose dispatch begins, in order. -/
def startsIn (moves : List (Move κ σ)) : List Event := moves.filterMap Move.start?

namespace Bus

/-- The moves belong to a dispatch that has begun, or to code. -/
structure Inner (moves : List (Move κ σ)) : Prop where
  starts : startsIn moves = []
  arrivals : moves.filterMap Move.arrived? = []

/-- The dispatches that begin are those of the events that arrive. -/
def Aligned (moves : List (Move κ σ)) : Prop := startsIn moves = moves.filterMap Move.arrived?

section Aligned

variable {host : Host κ σ} {l l' : List (Move κ σ)}

theorem Inner.nil : Inner ([] : List (Move κ σ)) := ⟨rfl, rfl⟩

theorem Inner.append (h : Inner l) (h' : Inner l') : Inner (l ++ l') := by
  refine ⟨?_, ?_⟩
  · rw [startsIn, List.filterMap_append]
    exact congrArg₂ (· ++ ·) h.starts h'.starts
  · rw [List.filterMap_append, h.arrivals, h'.arrivals, List.append_nil]

theorem Inner.cons (m : Move κ σ) (hstart : m.start? = none) (harrived : m.arrived? = none)
    (h : Inner l) : Inner (m :: l) :=
  ⟨(List.filterMap_cons_none hstart).trans h.starts,
    (List.filterMap_cons_none harrived).trans h.arrivals⟩

theorem Inner.aligned (h : Inner l) : Aligned l := h.starts.trans h.arrivals.symm

theorem Aligned.append (h : Aligned l) (h' : Aligned l') : Aligned (l ++ l') := by
  rw [Aligned, startsIn, List.filterMap_append, List.filterMap_append]
  exact congrArg₂ (· ++ ·) h h'

theorem inner_exec {α : Type} (code : Code κ σ α) (s : Bus κ σ) :
    Inner (movesExec host code s) := by
  rw [movesExec]
  induction code.trail (perform host) s with
  | nil => exact .nil
  | cons call calls ih => exact .cons (.perform call.1) rfl rfl ih

theorem inner_report (errorCallback : ErrorCallback κ σ) (err : Error) (s : Bus κ σ) :
    Inner (movesReport host errorCallback err s) := by
  rcases errorCallback with _ | callback
  · exact .nil
  · exact .cons (.note (.reported err)) rfl rfl (inner_exec (callback err) _)

theorem inner_invoke (ev : Event) (callback : κ) (s : Bus κ σ) :
    Inner (movesInvoke host ev callback s) :=
  .cons .invoke rfl rfl ((inner_exec _ _).append (.cons (.note (.returned _ _)) rfl rfl .nil))

theorem inner_runCallbacks (errorCallback : ErrorCallback κ σ) (ev : Event) (callbacks : List κ)
    (s : Bus κ σ) : Inner (movesRunCallbacks host errorCallback ev callbacks s) := by
  induction callbacks generalizing s with
  | nil => exact .nil
  | cons callback callbacks ih =>
    rw [movesRunCallbacks]
    split
    · exact .cons .skip rfl rfl (ih s)
    · refine (inner_invoke ev callback s).append ?_
      rcases s.invoke host ev callback with ⟨_ | e, t⟩
      · exact ih t
      · refine (inner_report errorCallback _ t).append ?_
        rcases t.report host errorCallback (asError ev.fd (host.errno t.world) e)
          with ⟨e' | ⟨⟩, u⟩
        · exact .cons .abort rfl rfl .nil
        · exact ih u

theorem inner_destroyAll (callbacks : List κ) (s : Bus κ σ) :
    Inner (movesDestroyAll host callbacks s) := by
  induction callbacks generalizing s with
  | nil => exact .nil
  | cons callback callbacks ih => exact (inner_exec _ s).append (ih _)

theorem inner_erase (fd : FileDescriptor) (s : Bus κ σ) : Inner (movesErase host fd s) := by
  refine .cons .erase rfl rfl ?_
  rcases s.callbackMap fd with _ | callbacks
  · exact .nil
  · exact inner_destroyAll callbacks _

theorem inner_eraseAll (n : ℕ) (current : Option FileDescriptor) (s : Bus κ σ) :
    Inner (movesEraseAll host n current s) := by
  induction n generalizing current s with
  | zero => exact .nil
  | succ n ih =>
    rw [movesEraseAll]
    split
    · exact .nil
    · exact (inner_erase _ s).append (ih _ _)

theorem inner_flush (s : Bus κ σ) : Inner (movesFlush host s) :=
  .cons .finish rfl rfl ((inner_eraseAll _ none s).append (.cons .clear rfl rfl .nil))

/-- **One event**, and its dispatch. -/
theorem aligned_dispatch {entry : Entry κ} {ev : Event} (hentry : entry.arrived? = some ev)
    (errorCallback : ErrorCallback κ σ) (s : Bus κ σ) :
    Aligned (.note entry :: movesDispatch host errorCallback ev s) := by
  have hrest : Inner (movesRunCallbacks host errorCallback ev ((s.callbackMap ev.fd).getD []) s ++
      match s.runCallbacks host errorCallback ev ((s.callbackMap ev.fd).getD []) with
      | (.ok (), s) => movesFlush host s
      | (.error _, _) => []) := by
    refine (inner_runCallbacks errorCallback ev _ s).append ?_
    rcases s.runCallbacks host errorCallback ev ((s.callbackMap ev.fd).getD [])
      with ⟨e | ⟨⟩, t⟩
    · exact .nil
    · exact inner_flush t
  have hnote : (Move.note entry : Move κ σ).arrived? = some ev := hentry
  rw [Aligned, List.filterMap_cons_some hnote]
  exact congrArg (ev :: ·) hrest.aligned

theorem aligned_drain (errorCallback : ErrorCallback κ σ) (evs : List Event) (s : Bus κ σ) :
    Aligned (movesDrain host errorCallback evs s) := by
  induction evs generalizing s with
  | nil => rfl
  | cons ev evs ih =>
    rw [movesDrain, ← List.cons_append]
    refine (aligned_dispatch rfl errorCallback _).append ?_
    rcases (s.log (.dispatched ev)).dispatch host errorCallback ev with ⟨e | ⟨⟩, t⟩
    · rfl
    · exact ih t

theorem aligned_wait (errorCallback : ErrorCallback κ σ) (call : WaitCall κ σ) (s : Bus κ σ) :
    Aligned (movesWait host errorCallback call s) := by
  cases call with
  | bus call => rfl
  | poll batch => rfl
  | deliver ev => exact aligned_dispatch rfl errorCallback _

theorem aligned_native (errorCallback : ErrorCallback κ σ) (wait : WaitCode κ σ) (s : Bus κ σ) :
    Aligned (movesNative host errorCallback wait s) := by
  rw [movesNative]
  induction wait.trail (performWait host errorCallback) s with
  | nil => rfl
  | cons call calls ih => exact (aligned_wait errorCallback call.1 call.2).append ih

theorem aligned_step (s : Bus κ σ) (input : BusInput κ σ) : Aligned (movesStep host s input) := by
  cases input with
  | code code => exact (inner_exec code s).aligned
  | waitEvents wait errorCallback =>
    refine Aligned.append ((aligned_native errorCallback wait s).append ?_) ?_
    · rcases s.native host errorCallback wait with ⟨e | ⟨⟩, t⟩
      · rfl
      · exact (Inner.nil.cons .swap rfl rfl).aligned.append (aligned_drain errorCallback t.events _)
    · rcases s.serve host errorCallback wait with ⟨e | ⟨⟩, t⟩
      · exact (inner_report errorCallback _ t).aligned
      · rfl

theorem aligned_after (s : Bus κ σ) (inputs : List (BusInput κ σ)) :
    Aligned (movesAfter host s inputs) := by
  induction inputs generalizing s with
  | nil => rfl
  | cons input inputs ih => exact (aligned_step s input).append (ih _)

/-- A move says of the events that arrive what the trace says. -/
theorem arrivedIn_moved {s t : Bus κ σ} {phase phase' : Phase κ} {m : Move κ σ}
    (h : Moved host (s, phase) m (t, phase')) :
    arrivedIn t.trace = arrivedIn s.trace ++ m.arrived?.toList := by
  cases h with
  | perform _ _ call =>
    obtain ⟨ops, hemits, -, hops⟩ := used_perform host call s
    have hnone : arrivedIn ops = [] := by
      refine filterMap_ops ?_ hops
      rintro (_ | _ | _ | _ | _ | _ | _ | _ | _) he <;> first | rfl | exact he.elim
    rw [hemits.trace, arrivedIn, List.filterMap_append]
    exact congrArg (_ ++ ·) hnone
  | @note _ _ entry _ =>
    show arrivedIn (s.trace ++ [entry]) = _ ++ entry.arrived?.toList
    rw [arrivedIn, List.filterMap_append, List.filterMap_cons]
    rcases entry.arrived? with _ | ev <;> rfl
  | invoke => exact List.filterMap_append
  | swap | start | skip | finish | abort | erase | clear => exact (List.append_nil _).symm

theorem arrivedIn_run {x y : Bus κ σ × Phase κ} {moves : List (Move κ σ)}
    (h : run (move host) x moves = some y) :
    arrivedIn y.1.trace = arrivedIn x.1.trace ++ moves.filterMap Move.arrived? := by
  induction moves generalizing x with
  | nil =>
    obtain rfl := Option.some.inj h
    exact (List.append_nil _).symm
  | cons m moves ih =>
    obtain ⟨z, hstep, hrest⟩ := Option.bind_eq_some_iff.mp h
    rw [ih hrest, arrivedIn_moved (moved_of_move hstep), List.append_assoc, List.filterMap_cons]
    rcases m.arrived? with _ | ev <;> rfl

/-- **The dispatches among the moves of a run** are those of the events that arrive in it. -/
theorem starts_movesAfter (s : Bus κ σ) (inputs : List (BusInput κ σ)) :
    arrivedIn (s.after host inputs).trace =
      arrivedIn s.trace ++ startsIn (movesAfter host s inputs) := by
  rw [show startsIn _ = _ from aligned_after s inputs]
  exact arrivedIn_run (run_movesAfter s inputs)

end Aligned

end Bus

end Io
end PsqlTcpProxy
