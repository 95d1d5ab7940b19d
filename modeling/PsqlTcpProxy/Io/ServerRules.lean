import PsqlTcpProxy.Io.BusDispatch
import PsqlTcpProxy.Io.Server

/-!
# Rules for the code of a server

The proofs about a server follow its code.  For the part that the servers share they need one
rule a function, which says what has to survive what: to close a socket is to mark its
descriptor and then to change the world, but no session; to let go of a session is to count one
holder less and then, perhaps, to end it.

`Ends` and `Stable` are the triples of `Program` at a bus.  The rules of the operations hold on
any host, those of functions that register or delete a descriptor on `host`, whose native half
is `epoll_ctl`.
-/

namespace PsqlTcpProxy
namespace Io
namespace Server

open Library
open Held (references setReferences)

variable {ξ α : Type}

/-- Run from a bus with `P`, the code of a server ends with `Q`. -/
abbrev Ends (h : Host Callback (World ξ)) (P : Bus Callback (World ξ) → Prop)
    (code : ServerCode ξ α) (Q : Except Exception α → Bus Callback (World ξ) → Prop) : Prop :=
  Program.Triple (Bus.perform h) P code Q

/-- The code of a server keeps `P`. -/
abbrev Stable (h : Host Callback (World ξ)) (P : Bus Callback (World ξ) → Prop)
    (code : ServerCode ξ α) : Prop :=
  Program.Keeps (Bus.perform h) P code

/-! ## Operations -/

section Operations

variable {h : Host Callback (World ξ)} {P : Bus Callback (World ξ) → Prop}
  {Q : Except Exception α → Bus Callback (World ξ) → Prop}

theorem Ends.world {f : World ξ → ServerCode ξ α}
    (hf : ∀ w, Ends h (fun s => P s ∧ s.world = w) (f w) Q) : Ends h P (world >>= f) Q :=
  fun s hs => hf s.world s ⟨hs, rfl⟩

theorem Ends.setWorld {w : World ξ} {Q : Except Exception Unit → Bus Callback (World ξ) → Prop}
    (hw : ∀ s, P s → Q (.ok ()) { s with world := w }) : Ends h P (setWorld w) Q :=
  fun s hs => hw s hs

theorem Ends.modify {f : World ξ → World ξ}
    {Q : Except Exception Unit → Bus Callback (World ξ) → Prop}
    (hf : ∀ s, P s → Q (.ok ()) { s with world := f s.world }) : Ends h P (modify f) Q :=
  fun s hs => hf s hs

/-- Asking the kernel changes the moment only. -/
theorem Ends.ask {cfg : ServerConfig} {f : Answer → ServerCode ξ α}
    (htick : ∀ s, P s → P { s with world := { s.world with tick := s.world.tick + 1 } })
    (hf : ∀ answer, (∃ tick, answer = cfg.kernel tick) → Ends h P (f answer) Q) :
    Ends h P (ask cfg >>= f) Q :=
  fun s hs => hf (cfg.kernel s.world.tick) ⟨_, rfl⟩ _ (htick s hs)

theorem Stable.rethrow (r : Except Exception Unit) : Stable h P (rethrow r) := by
  cases r with
  | ok a => exact Program.Keeps.pure a
  | error e => exact Program.Keeps.throw e

/-- What each of several lines in the queue keeps, all of them keep. -/
theorem Stable.enqueueAll {evs : List Event} (hev : ∀ ev ∈ evs, Stable h P (enqueueEvent ev)) :
    Stable h P (enqueueAll evs) := by
  induction evs with
  | nil => exact Program.Keeps.pure ()
  | cons ev evs ih =>
    obtain ⟨hfirst, hrest⟩ := List.forall_mem_cons.mp hev
    exact hfirst.bind fun _ => ih hrest

/-- **The rule of `accept`.**  The world changes, but not the sessions, and the acceptor may be
called again. -/
theorem Stable.acceptNewClient {cfg : ServerConfig} {fd : FileDescriptor}
    (hworld : ∀ s w, P s → w.sessions = s.world.sessions → w.nextSession = s.world.nextSession →
      P { s with world := w })
    (hqueue : Stable h P (enqueueEvent ⟨fd, Flags.in'⟩)) (mask : Flags) :
    Stable h P (acceptNewClient cfg fd mask) := by
  refine Ends.ask (fun s hs => hworld s _ hs rfl rfl) fun answer _ => Ends.world fun w => ?_
  refine Program.Triple.mono (P := P) ?_ (fun s hs => hs.1) fun _ _ hs => hs
  split
  · exact Program.Keeps.throw _
  rcases answer.accept w.opened with errno | conn
  · refine Program.Keeps.bind (Ends.modify fun s hs => hworld s _ hs rfl rfl) fun _ => ?_
    split
    · exact hqueue.bind fun _ => Program.Keeps.pure _
    · exact Program.Keeps.throw _
  · refine Program.Keeps.bind (Ends.modify fun s hs => hworld s _ hs rfl rfl) fun _ => ?_
    exact hqueue.bind fun _ => Program.Keeps.pure _

/-! ## Runs -/

/-- **The rule of `context::run`**: what every call of `wait_events` keeps. -/
theorem runs_rule {cfg : ServerConfig} {s : Bus Callback (World ξ)}
    (hwait : ∀ s polled, P s →
      P (s.waitEvents h (Epoll.waitEvents h cfg.epfd polled) (some fun _ => pure ())).2)
    (hs : P s) (polls : List (Except ℤ (List Event))) : P (s.after h (runs h cfg polls)) := by
  induction polls generalizing s with
  | nil => exact hs
  | cons polled polls ih => exact ih (hwait s polled hs)

end Operations

/-! ## `epoll_ctl` -/

/-- `epoll_ctl` changes the moment and `errno`, and may be noted. -/
theorem epollCtl_keeps (cfg : ServerConfig) (what : String) (fd : FileDescriptor) (w : World ξ) :
    (epollCtl cfg what fd w).2.opened = w.opened ∧
    (epollCtl cfg what fd w).2.sessions = w.sessions ∧
    (epollCtl cfg what fd w).2.nextSession = w.nextSession := by
  unfold epollCtl
  split
  · exact ⟨rfl, rfl, rfl⟩
  · exact ⟨rfl, rfl, rfl⟩

theorem epollCtl_calls (cfg : ServerConfig) (what : String) (fd : FileDescriptor) (w : World ξ) :
    w.calls <+: (epollCtl cfg what fd w).2.calls := by
  unfold epollCtl
  split
  · exact List.prefix_refl _
  · exact List.prefix_append _ _

/-! ## On a host -/

section Host

variable [Held ξ] {cfg : ServerConfig} {ending : ξ → ServerCode ξ Unit}
  {callback : Callback → FileDescriptor → Flags → ServerCode ξ Unit}
  {P : Bus Callback (World ξ) → Prop} {sid : SessionId} {fd : FileDescriptor}

/-- **The rule of `add_fd`.**  A new entry has no callbacks yet; there `epoll_ctl` may fail. -/
theorem Ends.addFd {A E : Bus Callback (World ξ) → Prop} {name : Callback}
    (hnew : ∀ s w, P s → s.callbackMap fd = none → w.opened = s.world.opened →
      w.sessions = s.world.sessions → w.nextSession = s.world.nextSession →
      P { s.setCallbacks fd (some []) with world := w } ∧
        E { s.setCallbacks fd (some []) with world := w })
    (hpush : ∀ s, P s → A (s.pushBack fd ((s.callbackMap fd).getD []) (some name))) :
    Ends (host cfg ending callback) P (addFd fd name) fun r s =>
      (r = .ok () ∧ A s) ∨ ∃ e, r = .error e ∧ E s := by
  refine Program.Triple.bind (R := fun r s =>
    (r = .ok (.ok ()) ∧ A s) ∨ ∃ e, r = .ok (.error e) ∧ E s) ?_ ?_ ?_
  · refine Program.Triple.lift fun s hs => ?_
    simp only [Bus.perform]
    rcases hmap : s.callbackMap fd with _ | callbacks
    · obtain ⟨hopened, hsessions, hnext⟩ :=
        epollCtl_keeps cfg "failed to add file descriptor to epoll" fd s.world
      rcases hctl : epollCtl cfg "failed to add file descriptor to epoll" fd s.world
        with ⟨e | ⟨⟩, world⟩
      · rw [hctl] at hopened hsessions hnext
        rw [Bus.addFd_of_error _ s fd hmap hctl]
        exact Or.inr ⟨e, rfl, (hnew s world hs hmap hopened hsessions hnext).2⟩
      · rw [hctl] at hopened hsessions hnext
        have hat : (({ s.setCallbacks fd (some []) with world } :
            Bus Callback (World ξ)).callbackMap fd).getD [] = [] := by
          simp [Bus.setCallbacks]
        have hadded := hpush _ (hnew s world hs hmap hopened hsessions hnext).1
        rw [hat] at hadded
        rw [Bus.addFd_of_ok _ s fd hmap hctl]
        exact Or.inl ⟨rfl, hadded⟩
    · have hadded := hpush s hs
      rw [hmap, Option.getD_some] at hadded
      rw [Bus.addFd_of_some _ s fd hmap]
      exact Or.inl ⟨rfl, hadded⟩
  · rintro (e | ⟨⟩)
    · refine Program.Triple.throw fun s hs => Or.inr ?_
      rcases hs with ⟨⟨⟩, -⟩ | ⟨e', he, hs⟩
      obtain rfl := Except.error.inj (Except.ok.inj he)
      exact ⟨e, rfl, hs⟩
    · refine Program.Triple.pure fun s hs => Or.inl ?_
      rcases hs with ⟨-, hs⟩ | ⟨e', ⟨⟩, -⟩
      exact ⟨rfl, hs⟩
  · rintro e s (⟨⟨⟩, -⟩ | ⟨e', ⟨⟩, -⟩)

/-- **The rule of `del_fd`.**  The descriptor is marked, and then `epoll_ctl` may fail. -/
theorem Stable.delFd
    (hmark : ∀ s, P s → P ((s.mark (host cfg ending callback) fd).log (.marked fd)))
    (hworld : ∀ s w, P s → w.opened = s.world.opened → w.sessions = s.world.sessions →
      w.nextSession = s.world.nextSession → s.world.calls <+: w.calls →
      P { s with world := w }) :
    Stable (host cfg ending callback) P (delFd fd) := by
  refine Program.Keeps.bind (Program.Triple.lift fun s hs => ?_) Stable.rethrow
  obtain ⟨hopened, hsessions, hnext⟩ :=
    epollCtl_keeps cfg "failed to delete file descriptor from epoll" fd s.world
  exact hworld _ _ (hmark s hs) hopened hsessions hnext
    (epollCtl_calls cfg "failed to delete file descriptor from epoll" fd s.world)

/-- **The rule of closing.**  The descriptor is marked, and the world changes, but not the
sessions. -/
theorem Stable.closeConnectionNoexcept
    (hmark : ∀ s, P s → P ((s.mark (host cfg ending callback) fd).log (.marked fd)))
    (hworld : ∀ s w, P s → w.sessions = s.world.sessions → w.nextSession = s.world.nextSession →
      s.world.calls <+: w.calls → P { s with world := w }) :
    Stable (host cfg ending callback) P (closeConnectionNoexcept cfg fd) := by
  have hfail : ∀ call errno, Stable (host cfg ending callback) P (fail call errno) :=
    fun call errno => Ends.modify fun s hs => hworld s _ hs rfl rfl (List.prefix_append _ _)
  refine Program.Keeps.bind (Program.Keeps.attempt ?_) fun _ => Program.Keeps.pure ()
  refine Program.Keeps.bind (Stable.delFd hmark fun s w hs _ => hworld s w hs) fun _ =>
    Ends.ask (fun s hs => hworld s _ hs rfl rfl (List.prefix_refl _)) fun _ _ => ?_
  split
  · exact (hfail _ _).bind fun _ => Program.Keeps.throw _
  · split
    · exact (hfail _ _).bind fun _ => Program.Keeps.throw _
    · exact Ends.modify fun s hs => hworld s _ hs rfl rfl (List.prefix_append _ _)

/-- **The rule of letting go.**  The session has a holder less, and may be ended. -/
theorem Ends.release {h : Host Callback (World ξ)} {Q : Bus Callback (World ξ) → Prop}
    (hnone : ∀ s, P s → s.world.sessions sid = none → Q s)
    (hless : ∀ s x, P s → s.world.sessions sid = some x →
      Q { s with world := s.world.setSession sid (setReferences (references x - 1) x) })
    (hending : ∀ s x, P s → s.world.sessions sid = some x → Stable h Q (ending x)) :
    Ends h P (release ending sid) fun _ => Q := by
  refine Ends.world fun w => ?_
  rcases hx : w.sessions sid with _ | x
  · refine Program.Triple.pure ?_
    rintro s ⟨hs, rfl⟩
    exact hnone s hs hx
  · rintro s ⟨hs, rfl⟩
    have hend := hending s x hs hx
    have hrest : Ends h (fun t => P t ∧ t.world = s.world) (do
        Server.setWorld (s.world.setSession sid (setReferences (references x - 1) x))
        if references x = 1 then ending x else pure ()) fun _ => Q := by
      refine Program.Triple.bind (R := fun _ => Q) (Ends.setWorld ?_) (fun _ => ?_)
        fun _ _ hs => hs
      · rintro t ⟨ht, hworld⟩
        rw [← hworld] at hx ⊢
        exact hless t x ht hx
      · split
        · exact hend
        · exact Program.Keeps.pure ()
    exact hrest s ⟨hs, rfl⟩

/-- What is kept when any session is let go of is kept when any callback is destroyed. -/
theorem Stable.destroy {h : Host Callback (World ξ)}
    (hrelease : ∀ sid, Stable h P (release ending sid)) (name : Callback) :
    Stable h P (destroy ending name) := by
  unfold Server.destroy
  rcases name.session? with _ | sid
  · exact Program.Keeps.pure ()
  · exact hrelease sid

/-- **The rule of `register`.**  When `add_fd` throws, the hold is given back. -/
theorem Ends.register {h : Host Callback (World ξ)} {P' A B E : Bus Callback (World ξ) → Prop}
    {name : Callback} (hretain : ∀ s, P s → P' { s with world := s.world.retain sid })
    (hadd : Ends h P' (Server.addFd fd name) fun r s =>
      (r = .ok () ∧ A s) ∨ ∃ e, r = .error e ∧ B s)
    (hrelease : Ends h B (Server.release ending sid) fun _ => E) :
    Ends h P (register ending sid fd name) fun r s =>
      (r = .ok () ∧ A s) ∨ ∃ e, r = .error e ∧ E s := by
  refine Program.Triple.bind (R := fun r s => r = .ok () ∧ P' s)
    (Ends.modify fun s hs => ⟨rfl, hretain s hs⟩) (fun _ => ?_) (by rintro e s ⟨⟨⟩, -⟩)
  refine Program.Triple.mono (P := P') ?_ (fun s hs => hs.2) fun _ _ hs => hs
  refine Program.Triple.bind (R := fun r s =>
    (r = .ok (.ok ()) ∧ A s) ∨ ∃ e, r = .ok (.error e) ∧ B s) ?_ ?_ ?_
  · refine Program.Triple.attempt (hadd.mono (fun _ hs => hs) ?_)
    rintro r s (⟨rfl, hs⟩ | ⟨e, rfl, hs⟩)
    · exact Or.inl ⟨rfl, hs⟩
    · exact Or.inr ⟨e, rfl, hs⟩
  · rintro (e | ⟨⟩)
    · refine Program.Triple.bind (R := fun _ => E) ?_ ?_ fun e s hs => Or.inr ⟨e, rfl, hs⟩
      · refine hrelease.mono ?_ fun _ _ hs => hs
        rintro s (⟨⟨⟩, -⟩ | ⟨e', -, hs⟩)
        exact hs
      · exact fun _ => Program.Triple.throw fun s hs => Or.inr ⟨e, rfl, hs⟩
    · refine Program.Triple.pure fun s hs => Or.inl ?_
      rcases hs with ⟨-, hs⟩ | ⟨e', ⟨⟩, -⟩
      exact ⟨rfl, hs⟩
  · rintro e s (⟨⟨⟩, -⟩ | ⟨e', ⟨⟩, -⟩)

end Host

end Server
end Io
end PsqlTcpProxy
