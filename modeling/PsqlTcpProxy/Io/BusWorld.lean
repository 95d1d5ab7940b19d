import PsqlTcpProxy.Io.BusMoments
import PsqlTcpProxy.Io.Epoll

/-!
# What the callbacks of a bus keep

A statement about the world alone, which the bus does not look into, holds at every moment
of a run if every piece of code that the host runs keeps it (`Moment.world`).  Code keeps it
if its operations do: one of them replaces the world (`WorldStable.set`), `add_fd` and `del_fd`
are the host's, and the others leave it alone.

With `epoll` for `_wait_events`, every run of `wait_events` consists of moments
(`Moment.after`).  The loops over a batch and over the queue are one (`dispatchAll`); with an
error callback that does not throw nothing ends it (`dispatchAll_cons`).
-/

namespace PsqlTcpProxy
namespace Io

open Library

variable {κ σ α : Type}

namespace Bus

/-- The code keeps a statement about the world. -/
abbrev WorldStable (host : Host κ σ) (P : σ → Prop) (code : Code κ σ α) : Prop :=
  Program.Keeps (perform host) (fun s : Bus κ σ => P s.world) code

namespace WorldStable

variable {host : Host κ σ} {P : σ → Prop}

theorem delFdCallbacks (fd : FileDescriptor) :
    WorldStable host P (Program.lift (.delFdCallbacks fd : BusCall κ σ)) :=
  Program.Triple.lift fun _ hs => hs

theorem enqueueEvent (ev : Event) :
    WorldStable host P (Program.lift (.enqueueEvent ev : BusCall κ σ)) :=
  Program.Triple.lift fun _ hs => hs

/-- **The rule of looking at the world.** -/
theorem get {k : σ → Code κ σ α}
    (h : ∀ w, Program.Triple (perform host) (fun s : Bus κ σ => P s.world ∧ s.world = w) (k w)
      fun _ s => P s.world) :
    WorldStable host P (Program.lift (.get : BusCall κ σ) >>= k) :=
  fun s hs => h s.world s ⟨hs, rfl⟩

/-- Replacing the world that was looked at. -/
theorem set {w w' : σ} (h : P w → P w') :
    Program.Triple (perform host) (fun s : Bus κ σ => P s.world ∧ s.world = w)
      (Program.lift (.set w' : BusCall κ σ) : Code κ σ Unit) fun _ s => P s.world := by
  refine Program.Triple.lift ?_
  rintro s ⟨hs, rfl⟩
  exact h hs

end WorldStable

section SilentLoops

variable {host : Host κ σ} {errorCallback : Error → Code κ σ Unit} {note : Event → Entry κ}

/-- **The next event**, if the error callback does not throw. -/
theorem dispatchAll_cons (hsilent : Silent host errorCallback) (ev : Event) (evs : List Event)
    (s : Bus κ σ) :
    s.dispatchAll host (some errorCallback) note (ev :: evs) =
      ((s.log (note ev)).dispatch host (some errorCallback) ev).2.dispatchAll host
        (some errorCallback) note evs := by
  have hok := (dispatches hsilent ev (s.log (note ev))).returns
  rw [dispatchAll]
  rcases hdispatch : (s.log (note ev)).dispatch host (some errorCallback) ev with ⟨r, t⟩
  rw [hdispatch] at hok
  obtain rfl : r = .ok () := hok
  rfl

theorem dispatchAll_ok (hsilent : Silent host errorCallback) (evs : List Event) (s : Bus κ σ) :
    (s.dispatchAll host (some errorCallback) note evs).1 = .ok () := by
  induction evs generalizing s with
  | nil => rfl
  | cons ev evs ih =>
    rw [dispatchAll_cons hsilent]
    exact ih _

theorem dispatchAll_append (hsilent : Silent host errorCallback) (evs evs' : List Event)
    (s : Bus κ σ) :
    s.dispatchAll host (some errorCallback) note (evs ++ evs') =
      (s.dispatchAll host (some errorCallback) note evs).2.dispatchAll host (some errorCallback)
        note evs' := by
  induction evs generalizing s with
  | nil => rfl
  | cons ev evs ih =>
    rw [List.cons_append, dispatchAll_cons hsilent, dispatchAll_cons hsilent]
    exact ih _

end SilentLoops

namespace Moment

variable {host : Host κ σ} {errorCallback : Error → Code κ σ Unit} {s₀ s : Bus κ σ}

/-- **The invariant of the world.** -/
theorem world {P : σ → Prop} (h : Moment host errorCallback s₀ s)
    (hcall : ∀ callback fd mask, WorldStable host P (host.callback callback fd mask))
    (hreport : ∀ err, WorldStable host P (errorCallback err))
    (hdestroy : ∀ callback, WorldStable host P (host.destroy callback))
    (herrno : ∀ errno w, P w → P (host.setErrno errno w)) (hstart : P s₀.world) : P s.world := by
  induction h with
  | start => exact hstart
  | log entry hentry hs ih => exact ih
  | call callback fd mask hs ih => exact hcall callback fd mask _ ih
  | report err hs ih => exact hreport err _ ih
  | erase fd hs ih =>
    refine erase_rule (P := fun _ s => P s.world) (fun _ _ => ih) ?_ ih
    exact fun callback _ s hs => hdestroy callback s hs
  | clear hs ih => exact ih
  | swap hs ih => exact ih
  | setErrno errno hs ih => exact herrno errno _ ih

theorem dispatchAll (h : Moment host errorCallback s₀ s) {note : Event → Entry κ}
    (hnote : ∀ ev, ¬ (note ev).IsOp) (evs : List Event) :
    Moment host errorCallback s₀ (s.dispatchAll host (some errorCallback) note evs).2 := by
  induction evs generalizing s with
  | nil => exact h
  | cons ev evs ih =>
    have hev := (h.log (note ev) (hnote ev)).dispatch ev
    rw [Bus.dispatchAll]
    rcases hdispatch : (s.log (note ev)).dispatch host (some errorCallback) ev with ⟨e | ⟨⟩, t⟩
    · rw [hdispatch] at hev
      exact hev
    · rw [hdispatch] at hev
      exact ih hev

/-- **One call of `wait_events`** goes from a moment to a moment. -/
theorem waitEvents (h : Moment host errorCallback s₀ s) (epfd : FileDescriptor)
    (polled : Except ℤ (List Event)) :
    Moment host errorCallback s₀
      (s.waitEvents host (Epoll.waitEvents host epfd polled) (some errorCallback)).2 := by
  have hnative : Moment host errorCallback s₀
      (s.native host (some errorCallback) (Epoll.waitEvents host epfd polled)).2 := by
    rcases polled with errno | batch
    · rw [native_errno]
      exact h.setErrno errno
    · rw [native_batch]
      exact ((h.setErrno 0).log (.polled batch) (by rintro ⟨⟩)).dispatchAll
        (fun _ => by rintro ⟨⟩) batch
  have hserved : Moment host errorCallback s₀
      (s.serve host (some errorCallback) (Epoll.waitEvents host epfd polled)).2 := by
    unfold serve
    rcases hphase : s.native host (some errorCallback) (Epoll.waitEvents host epfd polled)
      with ⟨e | ⟨⟩, t⟩
    · rw [hphase] at hnative
      exact hnative
    · rw [hphase] at hnative
      exact hnative.swap.drain t.events
  unfold Bus.waitEvents
  rcases hphases : s.serve host (some errorCallback) (Epoll.waitEvents host epfd polled)
    with ⟨e | ⟨⟩, t⟩
  · rw [hphases] at hserved
    exact hserved.reported _
  · rw [hphases] at hserved
    exact hserved

/-- **Every run consists of moments.** -/
theorem after (h : Moment host errorCallback s₀ s) (epfd : FileDescriptor)
    (polls : List (Except ℤ (List Event))) :
    Moment host errorCallback s₀ (s.after host (polls.map fun poll =>
      .waitEvents (Epoll.waitEvents host epfd poll) (some errorCallback))) := by
  induction polls generalizing s with
  | nil => exact h
  | cons poll polls ih => exact ih (h.waitEvents epfd poll)

end Moment

end Bus

end Io
end PsqlTcpProxy
