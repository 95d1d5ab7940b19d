import PsqlTcpProxy.Proxy.Teardown

/-!
# The descriptors of the proxy

Every descriptor that `::accept` or `::socket` returns is to be passed to `::close` once,
or to be owned by a session.  `World.calls` records both, so the books can be kept: at
every moment of a run a descriptor has been handed out as often as it has been passed to
`::close`, and once more while a session has it (`World.Accounted`).

That is so as long as no call of `epoll_ctl` or `::shutdown` has failed
(`World.Spotless`).  `socket::_close_connection` makes both before `::close`, and leaves
with an exception when one fails; and a session whose start fails at the target's
descriptor is left behind with one callback.

* `Issues` says which system calls a piece of code makes, unless one of them fails.
* A descriptor is in hand while code is running that must pass it on: `Moves` says how the
  calls change what is in hand, `Balanced` ties it to the sessions.
-/

namespace PsqlTcpProxy

namespace Io

/-- The call has not failed, and has not made a descriptor that the acceptor overlooks. -/
def SysCall.Harmless : SysCall → Prop
  | .accepted fd => fd ≠ 0
  | .opened _ | .closed _ => True
  | .failed _ => False

instance : DecidablePred SysCall.Harmless
  | .accepted fd => inferInstanceAs (Decidable (fd ≠ 0))
  | .opened _ | .closed _ => inferInstanceAs (Decidable True)
  | .failed _ => inferInstanceAs (Decidable False)

end Io

namespace Proxy

open Library Io Server

variable {η : Type} {cfg : Config η}

/-! ## Counting -/

/-- No call has failed. -/
def Harmless (calls : List SysCall) : Prop := ∀ call ∈ calls, call.Harmless

instance : DecidablePred Harmless := fun calls =>
  inferInstanceAs (Decidable (∀ call ∈ calls, call.Harmless))

/-- How often a descriptor was handed out. -/
def handedOut (calls : List SysCall) (fd : FileDescriptor) : ℕ :=
  calls.count (.accepted fd) + calls.count (.opened fd)

/-- How often it was passed to `::close`. -/
def passedToClose (calls : List SysCall) (fd : FileDescriptor) : ℕ := calls.count (.closed fd)

/-- What is handed out comes into hand, and what is passed to `::close` leaves it. -/
def Moves (inHand inHand' : List FileDescriptor) (calls : List SysCall) : Prop :=
  ∀ fd, handedOut calls fd + inHand.count fd = passedToClose calls fd + inHand'.count fd

section Counting

variable {calls calls' : List SysCall} {inHand inHand' inHand'' : List FileDescriptor}

theorem harmless_append : Harmless (calls ++ calls') ↔ Harmless calls ∧ Harmless calls' :=
  List.forall_mem_append

theorem handedOut_append (calls calls' : List SysCall) (fd : FileDescriptor) :
    handedOut (calls ++ calls') fd = handedOut calls fd + handedOut calls' fd := by
  simp only [handedOut, List.count_append]
  omega

theorem passedToClose_append (calls calls' : List SysCall) (fd : FileDescriptor) :
    passedToClose (calls ++ calls') fd = passedToClose calls fd + passedToClose calls' fd :=
  List.count_append

theorem Moves.nil (inHand : List FileDescriptor) : Moves inHand inHand [] := fun _ => rfl

theorem Moves.trans (h : Moves inHand inHand' calls) (h' : Moves inHand' inHand'' calls') :
    Moves inHand inHand'' (calls ++ calls') := by
  intro fd
  have hfirst := h fd
  have hsecond := h' fd
  rw [handedOut_append, passedToClose_append]
  omega

/-- What else is in hand does not matter. -/
theorem Moves.append (h : Moves inHand inHand' calls) (others : List FileDescriptor) :
    Moves (inHand ++ others) (inHand' ++ others) calls := by
  intro fd
  have hmove := h fd
  rw [List.count_append, List.count_append]
  omega

theorem Moves.accepted (inHand : List FileDescriptor) (fd : FileDescriptor) :
    Moves inHand (fd :: inHand) [.accepted fd] := by
  intro fd'
  simp [handedOut, passedToClose, List.count_cons, List.count_nil]
  omega

theorem Moves.opened (inHand : List FileDescriptor) (fd : FileDescriptor) :
    Moves inHand (fd :: inHand) [.opened fd] := by
  intro fd'
  simp [handedOut, passedToClose, List.count_cons, List.count_nil]
  omega

theorem Moves.closed (inHand : List FileDescriptor) (fd : FileDescriptor) :
    Moves (fd :: inHand) inHand [.closed fd] := by
  intro fd'
  simp [handedOut, passedToClose, List.count_cons, List.count_nil]
  omega

end Counting

namespace World

/-- No call has failed. -/
def Spotless (w : World η) : Prop := Harmless w.calls

/-- The descriptor is one of a session that has holders. -/
def Owned (w : World η) (fd : FileDescriptor) : Prop := ∃ sid x, w.Live sid x ∧ fd ∈ x.fds

/-- Every descriptor that was handed out is owned by a session, or in `inHand`, or has been
passed to `::close`, each time once. -/
structure Accounted (w : World η) (inHand : List FileDescriptor) : Prop where
  owned : ∀ fd, w.Owned fd →
    handedOut w.calls fd = passedToClose w.calls fd + inHand.count fd + 1
  unowned : ∀ fd, ¬ w.Owned fd →
    handedOut w.calls fd = passedToClose w.calls fd + inHand.count fd

/-- As long as no call has failed, all descriptors are accounted for. -/
def Balanced (inHand : List FileDescriptor) (w : World η) : Prop := w.Spotless → w.Accounted inHand

variable {w w' : World η} {inHand inHand' : List FileDescriptor}

/-- **System calls** change what is in hand. -/
theorem Balanced.calls (h : Balanced inHand w) {l : List SysCall}
    (hsessions : w'.sessions = w.sessions) (hcalls : w'.calls = w.calls ++ l)
    (hmoves : Harmless l → Moves inHand inHand' l) : Balanced inHand' w' := by
  intro hspotless
  rw [Spotless, hcalls, harmless_append] at hspotless
  obtain ⟨howned, hunowned⟩ := h hspotless.1
  have hmove := hmoves hspotless.2
  have hsame : ∀ fd, w'.Owned fd ↔ w.Owned fd := by
    intro fd
    simp only [Owned, Live, hsessions]
  constructor
  · intro fd hfd
    have hbefore := howned fd ((hsame fd).mp hfd)
    have hfd' := hmove fd
    rw [hcalls, handedOut_append, passedToClose_append]
    omega
  · intro fd hfd
    have hbefore := hunowned fd fun hold => hfd ((hsame fd).mpr hold)
    have hfd' := hmove fd
    rw [hcalls, handedOut_append, passedToClose_append]
    omega

/-- **Sessions.**  A descriptor leaves the hand for a session, or the other way round. -/
theorem Balanced.sessions (h : Balanced inHand w) (hcalls : w'.calls = w.calls)
    (hgains : ∀ fd, w'.Owned fd → ¬ w.Owned fd → inHand.count fd = inHand'.count fd + 1)
    (hloses : ∀ fd, ¬ w'.Owned fd → w.Owned fd → inHand'.count fd = inHand.count fd + 1)
    (hstays : ∀ fd, (w'.Owned fd ↔ w.Owned fd) → inHand'.count fd = inHand.count fd) :
    Balanced inHand' w' := by
  intro hspotless
  rw [Spotless, hcalls] at hspotless
  obtain ⟨howned, hunowned⟩ := h hspotless
  constructor
  · intro fd hfd
    rw [hcalls]
    by_cases hold : w.Owned fd
    · rw [howned fd hold, hstays fd (iff_of_true hfd hold)]
    · rw [hunowned fd hold, hgains fd hfd hold, Nat.add_assoc]
  · intro fd hfd
    rw [hcalls]
    by_cases hold : w.Owned fd
    · rw [howned fd hold, hloses fd hfd hold, Nat.add_assoc]
    · rw [hunowned fd hold, hstays fd (iff_of_false hfd hold)]

/-- Nothing changes hands. -/
theorem Balanced.of_owned (h : Balanced inHand w) (hcalls : w'.calls = w.calls)
    (howned : ∀ fd, w'.Owned fd ↔ w.Owned fd) : Balanced inHand w' :=
  h.sessions hcalls (fun fd hnew hold => absurd ((howned fd).mp hnew) hold)
    (fun fd hnew hold => absurd ((howned fd).mpr hold) hnew) fun _ _ => rfl

end World

/-! ## The system calls of a piece of code -/

/-- Since `before`, system calls have been made of which `Q` holds, unless one of them has
failed. -/
def Issued (before : List SysCall) (Q : List SysCall → Prop) (t : ProxyBus η) : Prop :=
  ∃ l, t.world.calls = before ++ l ∧ (Harmless l → Q l)

/-- Run from `s`, the code makes system calls of which `Q` holds, unless one of them
fails. -/
def IssuesFrom {α : Type} (cfg : Config η) (s : ProxyBus η) (code : ProxyCode η α)
    (Q : Except Exception α → List SysCall → Prop) : Prop :=
  Issued s.world.calls (Q (s.exec (host cfg) code).1) (s.exec (host cfg) code).2

/-- The same, run from anywhere. -/
def Issues {α : Type} (cfg : Config η) (code : ProxyCode η α)
    (Q : Except Exception α → List SysCall → Prop) : Prop := ∀ s, IssuesFrom cfg s code Q

/-- The code returns, and makes no system call that is recorded, unless one fails. -/
abbrev Quiet (cfg : Config η) (code : ProxyCode η Unit) : Prop :=
  Issues cfg code fun r l => r = .ok () ∧ l = []

namespace Issues

variable {α β : Type} {code : ProxyCode η α} {f : α → ProxyCode η β}
  {Q : Except Exception β → List SysCall → Prop} {R R' : Except Exception α → List SysCall → Prop}

theorem mono (h : Issues cfg code R) (hR : ∀ r l, R r l → R' r l) : Issues cfg code R' := by
  intro s
  obtain ⟨l, hcalls, hl⟩ := h s
  exact ⟨l, hcalls, fun hharmless => hR _ _ (hl hharmless)⟩

theorem pure {a : α} (h : R (.ok a) []) : Issues cfg (Pure.pure a) R :=
  fun _ => ⟨[], (List.append_nil _).symm, fun _ => h⟩

theorem throw {e : Exception} (h : R (.error e) []) : Issues cfg (MonadExcept.throw e) R :=
  fun _ => ⟨[], (List.append_nil _).symm, fun _ => h⟩

/-- Sequential composition. -/
theorem bind {S : α → Except Exception β → List SysCall → Prop} (hcode : Issues cfg code R)
    (hf : ∀ a, Issues cfg (f a) (S a))
    (hok : ∀ a r l l', R (.ok a) l → S a r l' → Q r (l ++ l'))
    (herror : ∀ e l, R (.error e) l → Q (.error e) l) : Issues cfg (code >>= f) Q := by
  intro s
  obtain ⟨l, hcalls, hl⟩ := hcode s
  rw [IssuesFrom, Issued, Bus.exec, Program.exec_bind]
  rcases hexec : s.exec (host cfg) code with ⟨e | a, t⟩
  · rw [hexec] at hcalls hl
    rw [Bus.exec] at hexec
    rw [hexec]
    exact ⟨l, hcalls, fun hharmless => herror e l (hl hharmless)⟩
  · rw [hexec] at hcalls hl
    rw [Bus.exec] at hexec
    rw [hexec]
    obtain ⟨l', hcalls', hl'⟩ := hf a t
    refine ⟨l ++ l', ?_, fun hharmless => ?_⟩
    · rw [← List.append_assoc, ← hcalls]
      exact hcalls'
    · obtain ⟨hfirst, hsecond⟩ := harmless_append.mp hharmless
      exact hok a _ l l' (hl hfirst) (hl' hsecond)

theorem attempt {R : Except Exception (Except Exception α) → List SysCall → Prop}
    (h : Issues cfg code fun r l => R (.ok r) l) : Issues cfg code.attempt R := by
  intro s
  rw [IssuesFrom, Issued, Bus.exec, Program.exec_attempt]
  exact h s

/-- As a postcondition. -/
theorem ends (h : Issues cfg code R) (before : List SysCall) :
    Ends cfg (fun s => s.world.calls = before) code fun r s => Issued before (R r) s := by
  rintro s rfl
  exact h s

theorem world {f : World η → ProxyCode η β}
    (h : ∀ s : ProxyBus η, IssuesFrom cfg s (f s.world) Q) : Issues cfg (world >>= f) Q := h

theorem setWorld {s : ProxyBus η} {w : World η} {f : Unit → ProxyCode η β}
    (hw : w.calls = s.world.calls) (h : Issues cfg (f ()) Q) :
    IssuesFrom cfg s (setWorld w >>= f) Q := by
  obtain ⟨l, hcalls, hl⟩ := h { s with world := w }
  refine ⟨l, ?_, hl⟩
  rw [← hw]
  exact hcalls

theorem ask {f : Answer → ProxyCode η β} (h : ∀ answer, Issues cfg (f answer) Q) :
    Issues cfg (ask cfg >>= f) Q :=
  fun s => h (cfg.kernel s.world.tick)
    { s with world := { s.world with tick := s.world.tick + 1 } }

theorem modify {g : World η → World η} {Q : Except Exception Unit → List SysCall → Prop}
    {l : List SysCall} (hg : ∀ w, (g w).calls = w.calls ++ l) (h : Q (.ok ()) l) :
    Issues cfg (modify g) Q :=
  fun s => ⟨l, hg s.world, fun _ => h⟩

/-- A system call, and what follows. -/
theorem modify_bind {g : World η → World η} {f : Unit → ProxyCode η β} {l : List SysCall}
    (hg : ∀ w, (g w).calls = w.calls ++ l)
    (h : Issues cfg (f ()) fun r l' => Q r (l ++ l')) : Issues cfg (Server.modify g >>= f) Q := by
  refine bind (R := fun r l' => r = .ok () ∧ l' = l) (modify hg ⟨rfl, rfl⟩) (fun _ => h) ?_ ?_
  · rintro _ r _ l' ⟨-, rfl⟩ hQ
    exact hQ
  · rintro e _ ⟨⟨⟩, -⟩

/-- A quiet step, and what follows. -/
theorem quiet_bind {code : ProxyCode η Unit} {f : Unit → ProxyCode η β} (hcode : Quiet cfg code)
    (h : Issues cfg (f ()) Q) : Issues cfg (code >>= f) Q := by
  refine bind hcode (fun _ => h) ?_ ?_
  · rintro _ r _ l' ⟨-, rfl⟩ hQ
    exact hQ
  · rintro e _ ⟨⟨⟩, -⟩

end Issues

/-! ### Operations -/

/-- `epoll_ctl` fails, and that is recorded, or makes nothing. -/
theorem epollCtl_issued (cfg : Config η) (what : String) (fd : FileDescriptor) (w : World η) :
    ∃ l, (epollCtl cfg what fd w).2.calls = w.calls ++ l ∧
      (Harmless l → (epollCtl cfg what fd w).1 = .ok () ∧ l = []) := by
  unfold epollCtl
  split
  · exact ⟨[], (List.append_nil _).symm, fun _ => ⟨rfl, rfl⟩⟩
  · exact ⟨_, rfl, fun hharmless => (hharmless _ (List.mem_singleton.mpr rfl)).elim⟩

theorem rethrow_issues (r : Except Exception Unit) :
    Issues cfg (rethrow r) fun r' l => r' = r ∧ l = [] := by
  cases r with
  | ok a => exact Issues.pure ⟨rfl, rfl⟩
  | error e => exact Issues.throw ⟨rfl, rfl⟩

/-- An operation of the bus whose exception is passed on. -/
theorem rethrow_quiet {code : ProxyCode η (Except Exception Unit)}
    (h : Issues cfg code fun r l => r = .ok (.ok ()) ∧ l = []) : Quiet cfg (code >>= rethrow) := by
  refine Issues.bind h rethrow_issues ?_ ?_
  · rintro a r _ _ ⟨ha, rfl⟩ ⟨rfl, rfl⟩
    exact ⟨Except.ok.inj ha, rfl⟩
  · rintro e l ⟨⟨⟩, -⟩

theorem delFd_quiet (fd : FileDescriptor) : Quiet cfg (delFd fd) := by
  refine rethrow_quiet fun s => ?_
  obtain ⟨l, hcalls, hl⟩ :=
    epollCtl_issued cfg "failed to delete file descriptor from epoll" fd s.world
  exact ⟨l, hcalls, fun hharmless => ⟨congrArg Except.ok (hl hharmless).1, (hl hharmless).2⟩⟩

theorem addFd_quiet (fd : FileDescriptor) (callback : Callback) :
    Quiet cfg (addFd fd callback) := by
  refine rethrow_quiet fun s => ?_
  have hexec : s.exec (host cfg) (perform (.addFd fd (some callback))) =
      (.ok (s.addFd (host cfg) fd (some callback)).1,
        (s.addFd (host cfg) fd (some callback)).2) := rfl
  rw [IssuesFrom, Issued, hexec]
  rcases hmap : s.callbackMap fd with _ | callbacks
  · obtain ⟨l, hcalls, hl⟩ :=
      epollCtl_issued cfg "failed to add file descriptor to epoll" fd s.world
    rcases hctl : epollCtl cfg "failed to add file descriptor to epoll" fd s.world
      with ⟨e | ⟨⟩, world⟩
    · rw [hctl] at hcalls hl
      rw [Bus.addFd_of_error (host cfg) s fd hmap hctl]
      exact ⟨l, hcalls, fun hharmless => ⟨congrArg Except.ok (hl hharmless).1, (hl hharmless).2⟩⟩
    · rw [hctl] at hcalls hl
      rw [Bus.addFd_of_ok (host cfg) s fd hmap hctl]
      exact ⟨l, hcalls, fun hharmless => ⟨rfl, (hl hharmless).2⟩⟩
  · rw [Bus.addFd_of_some (host cfg) s fd hmap]
    exact ⟨[], (List.append_nil _).symm, fun _ => ⟨rfl, rfl⟩⟩

theorem setErrno_quiet (errno : ℤ) : Quiet cfg (setErrno errno) :=
  Issues.modify (fun _ => (List.append_nil _).symm) ⟨rfl, rfl⟩

theorem enqueueEvent_quiet (ev : Event) : Quiet cfg (enqueueEvent ev) :=
  fun _ => ⟨[], (List.append_nil _).symm, fun _ => ⟨rfl, rfl⟩⟩

theorem enqueueAll_quiet (evs : List Event) : Quiet cfg (enqueueAll evs) := by
  induction evs with
  | nil => exact Issues.pure ⟨rfl, rfl⟩
  | cons ev evs ih => exact (enqueueEvent_quiet ev).quiet_bind ih

theorem delFdCallbacks_quiet (fd : FileDescriptor) : Quiet cfg (delFdCallbacks fd) :=
  fun _ => ⟨[], (List.append_nil _).symm, fun _ => ⟨rfl, rfl⟩⟩

/-! ### Closing -/

theorem closeConnection_issues (fd : FileDescriptor) :
    Issues cfg (closeConnection cfg fd) fun _ l => l = [.closed fd] := by
  refine (delFd_quiet fd).quiet_bind (Issues.ask fun answer => ?_)
  split
  · -- `::shutdown` has failed
    intro s
    exact ⟨[.failed fd], rfl, fun hharmless => (hharmless _ (List.mem_singleton.mpr rfl)).elim⟩
  · split
    · exact Issues.modify_bind (fun _ => rfl) (Issues.throw rfl)
    · exact Issues.modify (fun _ => rfl) rfl

/-- **`~socket`** passes its descriptor to `::close`. -/
theorem closeConnectionNoexcept_issues (cfg : Config η) (fd : FileDescriptor) :
    Issues cfg (closeConnectionNoexcept cfg fd) fun _ l => l = [.closed fd] := by
  refine Issues.bind (S := fun _ _ l => l = []) ?_ (fun _ => Issues.pure rfl) ?_ ?_
    (R := fun _ l => l = [.closed fd])
  · exact Issues.attempt (closeConnection_issues fd)
  · rintro _ r _ _ rfl rfl
    rfl
  · rintro e l rfl
    rfl

/-- Letting go of a session makes some calls. -/
theorem release_issues (cfg : Config η) (sid : SessionId) :
    Issues cfg (release cfg sid) fun _ _ => True := by
  refine Issues.world fun s => ?_
  rcases s.world.sessions sid with _ | x
  · exact Issues.pure trivial s
  · refine Issues.setWorld rfl ?_
    split
    · exact Issues.bind (closeConnectionNoexcept_issues cfg x.target)
        (fun _ => closeConnectionNoexcept_issues cfg x.client) (fun _ _ _ _ _ _ => trivial)
        fun _ _ _ => trivial
    · exact Issues.pure trivial

/-- Letting go of a session that has other holders makes none. -/
theorem release_calls {s : ProxyBus η} {sid : SessionId} {x : Session η}
    (hx : s.world.sessions sid = some x) (hmore : x.references ≠ 1) :
    (s.exec (host cfg) (release cfg sid)).2.world.calls = s.world.calls := by
  have hends : Ends cfg (fun t => t = s) (release cfg sid)
      fun _ t => t.world.calls = s.world.calls := by
    refine Ends.world fun w => ?_
    rintro t ⟨rfl, rfl⟩
    simp only [hx, held_references, if_neg hmore]
    rfl
  exact hends s rfl

/-! ### Events of a session -/

/-- **An event of a channel** makes no call about a descriptor. -/
theorem channelEvent_issues (handle : Channel η → Answer → ℤ → Option (Outcome η))
    (sid : SessionId) (dir : Direction) :
    Issues cfg (channelEvent cfg sid dir handle) fun _ l => l = [] := by
  refine Issues.ask fun answer => Issues.world fun s => ?_
  rcases s.world.sessions sid with _ | x
  · exact Issues.pure rfl s
  · simp only
    rcases handle (x.flow dir).channel answer s.world.errno with _ | o
    · exact Issues.pure rfl s
    · refine Issues.setWorld rfl ((enqueueAll_quiet o.events).quiet_bind ?_)
      split
      · exact Issues.throw rfl
      · exact Issues.pure rfl

theorem sessionEvent_issues (sid : SessionId) (mask : Flags) :
    Issues cfg (sessionEvent sid mask) fun _ l => l = [] := by
  refine Issues.world fun s => ?_
  rcases s.world.sessions sid with _ | x
  · exact Issues.pure rfl s
  · simp only
    split
    · exact ((delFdCallbacks_quiet x.client).quiet_bind
        ((delFdCallbacks_quiet x.target).mono fun _ _ hl => hl.2)) s
    · exact Issues.pure rfl s

/-! ### Making a session -/

/-- What opening a socket leaves in hand. -/
def Opens (r : Except Exception FileDescriptor) (l : List SysCall) : Prop :=
  (∀ target, r = .ok target → Moves [] [target] l) ∧ ∀ e, r = .error e → Moves [] [] l

theorem Opens.ok {target : FileDescriptor} {l : List SysCall} (h : Moves [] [target] l) :
    Opens (.ok target) l :=
  ⟨by rintro _ ⟨⟩; exact h, by rintro _ ⟨⟩⟩

theorem Opens.error {e : Exception} {l : List SysCall} (h : Moves [] [] l) :
    Opens (.error e) l :=
  ⟨by rintro _ ⟨⟩, fun _ _ => h⟩

/-- What was opened and closed before does not matter. -/
theorem Opens.append {r : Except Exception FileDescriptor} {l l' : List SysCall}
    (h : Moves [] [] l) (h' : Opens r l') : Opens r (l ++ l') :=
  ⟨fun target hr => h.trans (h'.1 target hr), fun e hr => h.trans (h'.2 e hr)⟩

/-- **The loop over the addresses** closes every socket but the one it returns. -/
theorem openSocket_issues (n : ℕ) : Issues cfg (openSocket cfg n) Opens := by
  induction n with
  | zero => exact Issues.world fun s => Issues.throw (.error (.nil [])) s
  | succ n ih =>
    refine Issues.ask fun answer => Issues.world fun s => ?_
    rcases answer.socket s.world.opened with errno | sockfd
    · exact (setErrno_quiet errno).quiet_bind ih s
    · have hopened : ∀ errno : World η → ℤ, Issues cfg (do
          modify fun w : World η =>
            { w with
              opened := sockfd.1 :: w.opened
              errno := errno w
              calls := w.calls ++ [.opened sockfd.1] }
          pure sockfd.1) Opens :=
        fun _ => Issues.modify_bind (fun _ => rfl) (Issues.pure (.ok (.opened [] sockfd.1)))
      simp only
      rcases answer.connect with _ | errno
      · exact hopened (fun w => w.errno) s
      · simp only
        split
        · exact hopened (fun _ => errno) s
        · exact Issues.modify_bind (fun _ => rfl) (ih.mono fun r l hl =>
            hl.append ((Moves.opened [] sockfd.1).trans (.closed [] sockfd.1))) s

theorem newSession_issues (client target : FileDescriptor) :
    Issues cfg (newSession cfg client target) fun _ l => l = [] :=
  Issues.world fun _ => Issues.setWorld rfl (Issues.pure rfl)

theorem retain_quiet (sid : SessionId) : Quiet cfg (retain sid) := by
  refine Issues.modify (fun w => ?_) ⟨rfl, rfl⟩
  rw [List.append_nil]
  rcases hx : w.sessions sid with _ | x
  · rw [World.retain_of_none hx]
  · rw [World.retain_of_some hx]
    rfl

/-- **A callback is registered**, unless `epoll_ctl` fails. -/
theorem register_quiet (sid : SessionId) (fd : FileDescriptor) (callback : Callback) :
    Quiet cfg (register cfg sid fd callback) := by
  refine (retain_quiet sid).quiet_bind ?_
  refine Issues.bind (R := fun r l => r = .ok (.ok ()) ∧ l = [])
    (S := fun r r' l => r = .ok () → r' = .ok () ∧ l = []) ?_ ?_ ?_ ?_
  · exact Issues.attempt ((addFd_quiet fd callback).mono fun r l hl =>
      ⟨congrArg Except.ok hl.1, hl.2⟩)
  · rintro (e | ⟨⟩)
    · exact Issues.bind (S := fun _ _ _ => True) (release_issues cfg sid)
        (fun _ => Issues.throw trivial) (by rintro _ _ _ _ _ _ ⟨⟩) (by rintro _ _ _ ⟨⟩)
    · exact Issues.pure fun _ => ⟨rfl, rfl⟩
  · rintro r r' _ l' ⟨hr, rfl⟩ hl'
    exact hl' (Except.ok.inj hr)
  · rintro e l ⟨⟨⟩, -⟩

theorem addHandlers_quiet (sid : SessionId) : Quiet cfg (addHandlers cfg sid) := by
  refine Issues.modify (fun w => ?_) ⟨rfl, rfl⟩
  rw [List.append_nil]
  split
  · rfl
  · rfl

/-- **A session starts**, unless `epoll_ctl` fails. -/
theorem startSession_quiet (sid : SessionId) (client target : FileDescriptor) :
    Quiet cfg (startSession cfg sid client target) := by
  unfold startSession
  refine (register_quiet sid client _).quiet_bind ?_
  refine (register_quiet sid target _).quiet_bind ?_
  refine (register_quiet sid target _).quiet_bind ?_
  refine (register_quiet sid client _).quiet_bind ?_
  refine (addHandlers_quiet sid).quiet_bind ?_
  refine (register_quiet sid client _).quiet_bind ?_
  exact register_quiet sid target _

/-! ### The acceptor -/

/-- What is in hand when `_accept_new_client` has returned. -/
def Takes (r : Except Exception FileDescriptor) (l : List SysCall) : Prop :=
  (∀ conn, r = .ok conn → 0 < conn → Moves [] [conn] l) ∧
    ((∀ conn, r = .ok conn → ¬ 0 < conn) → Moves [] [] l)

/-- **The acceptor** takes what `::accept` returns, unless that is the descriptor 0. -/
theorem acceptNewClient_issues (fd : FileDescriptor) (mask : Flags) :
    Issues cfg (acceptNewClient cfg fd mask) Takes := by
  have herror : ∀ e, Takes (.error e) [] := fun e => ⟨by rintro _ ⟨⟩, fun _ => .nil []⟩
  refine Issues.ask fun answer => Issues.world fun s => ?_
  split
  · exact Issues.throw (herror _) s
  rcases answer.accept s.world.opened with errno | ⟨conn, hconn, hnew⟩
  · refine (setErrno_quiet errno).quiet_bind ?_ s
    split
    · refine (enqueueEvent_quiet _).quiet_bind (Issues.pure ⟨?_, fun _ => .nil []⟩)
      rintro _ ⟨⟩ hpos
      exact absurd hpos (by decide)
    · exact Issues.throw (herror _)
  · have hrest : Issues cfg (do
        modify fun w : World η =>
          { w with opened := conn :: w.opened, calls := w.calls ++ [.accepted conn] }
        enqueueEvent ⟨fd, Flags.in'⟩
        pure conn) fun r l => r = .ok conn ∧ l = [.accepted conn] :=
      Issues.modify_bind (fun _ => rfl) ((enqueueEvent_quiet _).quiet_bind
        (Issues.pure ⟨rfl, rfl⟩))
    obtain ⟨l, hcalls, hl⟩ := hrest s
    refine ⟨l, hcalls, fun hharmless => ?_⟩
    obtain ⟨hr, rfl⟩ := hl hharmless
    have hne : conn ≠ 0 := hharmless _ (List.mem_singleton.mpr rfl)
    constructor
    · intro conn' hconn' _
      obtain rfl := Except.ok.inj (hr.symm.trans hconn')
      exact .accepted [] conn
    · intro hnone
      exact absurd (Int.lt_iff_le_and_ne.mpr ⟨hconn, Ne.symm hne⟩) (hnone conn hr)

/-! ## What the acceptor leaves behind -/

section Acceptor

variable {base : ProxyBus η} {client target : FileDescriptor}

/-- Unless a call has failed: a session has started, and its two descriptors are all that is in
hand; or no session has been made, and nothing is in hand. -/
def Booked (cfg : Config η) (base : ProxyBus η) (inHand : List FileDescriptor)
    (before : List SysCall) (r : Except Exception Unit) (t : ProxyBus η) : Prop :=
  Issued before (fun l =>
    (∃ client target, r = .ok () ∧ Made cfg base client target r t ∧
      Moves inHand [target, client] l) ∨ (Idle cfg base t ∧ Moves inHand [] l)) t

theorem Booked.prepend {inHand inHand' : List FileDescriptor} {before l : List SysCall}
    {r : Except Exception Unit} {t : ProxyBus η} (h : Booked cfg base inHand' (before ++ l) r t)
    (hl : Harmless l → Moves inHand inHand' l) : Booked cfg base inHand before r t := by
  obtain ⟨l', hcalls, hl'⟩ := h
  refine ⟨l ++ l', by rw [hcalls, List.append_assoc], fun hharmless => ?_⟩
  obtain ⟨hfirst, hsecond⟩ := harmless_append.mp hharmless
  rcases hl' hsecond with ⟨client, target, hr, hmade, hmoves⟩ | ⟨hidle, hmoves⟩
  · exact Or.inl ⟨client, target, hr, hmade, (hl hfirst).trans hmoves⟩
  · exact Or.inr ⟨hidle, (hl hfirst).trans hmoves⟩

/-- The stack lets go of a session: of one that has started without a call, of another after a
call that has failed. -/
theorem release_issued {before : List SysCall} (started : Except Exception Unit) :
    Ends cfg (fun s => (started = .ok () → Making cfg base client target
        (registrations base.world.nextSession client target) 1 s) ∧
        Issued before (fun l => started = .ok () ∧ l = []) s)
      (release cfg base.world.nextSession)
      fun r s => r = .ok () ∧ Issued before (fun l => started = .ok () ∧ l = []) s := by
  rintro s ⟨hmaking, l, hcalls, hl⟩
  refine ⟨release_ok _ s, ?_⟩
  rcases started with e | ⟨⟩
  · obtain ⟨l', hcalls', -⟩ := release_issues cfg base.world.nextSession s
    refine ⟨l ++ l', ?_, fun hharmless => ?_⟩
    · rw [← List.append_assoc, ← hcalls]
      exact hcalls'
    · exact absurd (hl (harmless_append.mp hharmless).1).1 (by rintro ⟨⟩)
  · obtain ⟨x, hx⟩ := (hmaking rfl).exists_session
    have hmore : x.references ≠ 1 := by
      have hthree : (onClient base.world.nextSession).length = 3 := rfl
      rw [((hmaking rfl).references hx).2.2, registrations_client]
      omega
    exact ⟨l, (release_calls hx hmore).trans hcalls, hl⟩

/-- **A session is made and started** without a call, unless one fails. -/
theorem startNew_issued {before : List SysCall}
    (hbase : own base base.world.nextSession = fun _ => []) (hne : client ≠ target)
    (hclient : World.Unused cfg base.world client) (htarget : World.Unused cfg base.world target) :
    Ends cfg (fun s => Same base s ∧ s.world.calls = before) (do
      let sid ← newSession cfg client target
      let started ← (startSession cfg sid client target).attempt
      release cfg sid
      rethrow started) fun r s => Issued before (fun l => r = .ok () ∧ l = []) s := by
  refine Program.Triple.bind (R := fun r s => r = .ok base.world.nextSession ∧
    Making cfg base client target (fun _ => []) 1 s ∧ s.world.calls = before) ?_ ?_ ?_
  · rintro s ⟨hs, hcalls⟩
    obtain ⟨hr, hmaking⟩ := newSession_making hbase s hs
    exact ⟨hr, hmaking, hcalls⟩
  · rintro sid s ⟨hsid, hs⟩
    obtain rfl := Except.ok.inj hsid
    refine Program.Triple.bind (P := fun s => Making cfg base client target (fun _ => []) 1 s ∧
      s.world.calls = before) (R := fun r s => ∃ r' : Except Exception Unit, r = .ok r' ∧
      (r' = .ok () → Making cfg base client target
        (registrations base.world.nextSession client target) 1 s) ∧
      Issued before (fun l => r' = .ok () ∧ l = []) s)
      (Q := fun r s => Issued before (fun l => r = .ok () ∧ l = []) s) ?_ ?_ ?_ s hs
    · refine Program.Triple.attempt (((startSession_making hne hclient.1 htarget.1).and
        ((startSession_quiet _ client target).ends before)).mono (fun _ hs => hs) ?_)
      rintro r s ⟨hmade, hissued⟩
      refine ⟨r, rfl, ?_, hissued⟩
      rintro rfl
      rcases hmade with ⟨-, hs⟩ | ⟨e, ⟨⟩, -⟩
      exact hs
    · rintro started s ⟨r', hr', hs⟩
      obtain rfl := Except.ok.inj hr'
      refine Program.Triple.bind (Q := fun r s => Issued before (fun l => r = .ok () ∧ l = []) s)
        (release_issued started) (fun _ => ?_) ?_ s hs
      · rintro t ⟨-, hissued⟩
        cases started with
        | ok a => exact hissued
        | error e => exact hissued
      · rintro e t ⟨⟨⟩, -⟩
    · rintro e s ⟨r', ⟨⟩, -⟩
  · rintro e s ⟨⟨⟩, -⟩

/-- **A new session** takes the client's descriptor, or it is closed. -/
theorem makeNewSession_booked {before : List SysCall} (held : List SessionId)
    (hbase : own base base.world.nextSession = fun _ => []) (fd : FileDescriptor) :
    Ends cfg (fun s => (Lives cfg held [fd] s ∧ Same base s) ∧ s.world.calls = before)
      (makeNewSession cfg fd) (Booked cfg base [fd] before) := by
  refine Program.Triple.bind (R := fun r s => ∃ r', r = .ok r' ∧
    (Connected cfg held [fd] r' s ∧ Same base s) ∧ Issued before (Opens r') s) ?_ ?_ ?_
  · exact Program.Triple.attempt ((((openSocket_ends cfg.addresses).and
      (openSocket_same cfg.addresses)).and ((openSocket_issues cfg.addresses).ends before)).mono
        (fun _ hs => hs) fun r s hs => ⟨r, rfl, hs⟩)
  · rintro (e | target) s ⟨r', hr', ⟨⟨hlives, htarget⟩, hsame⟩, l, hcalls, hl⟩
    · obtain rfl := Except.ok.inj hr'
      have hunused := hsame.unused (hlives.world.reserved fd List.mem_cons_self).2.2
      refine Program.Triple.bind (P := fun t => t = s) (R := fun r t => r = .ok () ∧
        Booked cfg base [fd] before (.error e) t) ?_ (fun _ => ?_) ?_ s rfl
      · rintro s rfl
        have hidle : Idle cfg base (s.exec (host cfg) (closeConnectionNoexcept cfg fd)).2 :=
          closeConnectionNoexcept_stable (P := Idle cfg base) (fun _ _ h h' => h.same h')
          (fun _ h => ⟨h.frame.mark hunused, h.core, h.own, h.nextSession⟩) s hsame.idle
        obtain ⟨l', hcalls', hl'⟩ := closeConnectionNoexcept_issues cfg fd s
        refine ⟨closeConnectionNoexcept_ok fd s, l ++ l', ?_, fun hharmless => Or.inr ⟨hidle, ?_⟩⟩
        · rw [← List.append_assoc, ← hcalls]
          exact hcalls'
        · obtain ⟨hfirst, hsecond⟩ := harmless_append.mp hharmless
          rw [hl' hsecond]
          exact (((hl hfirst).2 e rfl).append [fd]).trans (.closed [] fd)
      · exact Program.Triple.throw fun t ht => ht.2
      · rintro e' t ⟨⟨⟩, -⟩
    · obtain rfl := Except.ok.inj hr'
      obtain ⟨hlives', hnew⟩ := htarget target rfl
      have hne : fd ≠ target := fun heq => hnew (List.mem_singleton.mpr heq.symm)
      have hclient := hsame.unused (hlives'.world.reserved fd (by simp)).2.2
      have htarget' := hsame.unused (hlives'.world.reserved target (by simp)).2.2
      have hmade := startNew_made hbase hne hclient htarget' s hsame
      obtain ⟨l', hcalls', hl'⟩ := startNew_issued hbase hne hclient htarget' s ⟨hsame, hcalls⟩
      refine ⟨l ++ l', by rw [← List.append_assoc]; exact hcalls', fun hharmless => ?_⟩
      obtain ⟨hfirst, hsecond⟩ := harmless_append.mp hharmless
      obtain ⟨hr, rfl⟩ := hl' hsecond
      refine Or.inl ⟨fd, target, hr, hmade, ?_⟩
      rw [List.append_nil]
      exact ((hl hfirst).1 target rfl).append [fd]
  · rintro e s ⟨r', ⟨⟩, -⟩

/-- **An event of the acceptor** makes at most one session, and leaves nothing in hand. -/
theorem acceptEvent_booked {held : List SessionId} (hbase : Lives cfg held [] base)
    (fd : FileDescriptor) (mask : Flags) :
    Ends cfg (fun s => s = base) (acceptEvent cfg (makeNewSession cfg) fd mask)
      (Booked cfg base [] base.world.calls) := by
  refine Program.Triple.bind (R := fun r s => ((Lives cfg held [] s ∧
      ∀ conn, r = .ok conn → 0 < conn → Lives cfg held [conn] s) ∧ Same base s) ∧
    Issued base.world.calls (Takes r) s) ?_ (fun conn => ?_) ?_
  · rintro s rfl
    exact ⟨⟨acceptNewClient_ends fd mask s hbase, acceptNewClient_same fd mask s (Same.refl s)⟩,
      acceptNewClient_issues fd mask s⟩
  · rintro s ⟨⟨⟨-, hlives⟩, hsame⟩, l, hcalls, hl⟩
    split
    · rename_i hpos
      refine Booked.prepend (makeNewSession_booked held hbase.own_unborn conn s
        ⟨⟨hlives conn rfl hpos, hsame⟩, hcalls⟩) fun hharmless => ?_
      exact (hl hharmless).1 conn rfl hpos
    · rename_i hnot
      refine ⟨l, hcalls, fun hharmless => Or.inr ⟨hsame.idle, (hl hharmless).2 ?_⟩⟩
      rintro _ ⟨⟩
      exact hnot
  · rintro e s ⟨⟨-, hsame⟩, l, hcalls, hl⟩
    refine ⟨l, hcalls, fun hharmless => Or.inr ⟨hsame.idle, (hl hharmless).2 ?_⟩⟩
    rintro _ ⟨⟩

end Acceptor

/-! ## Who owns a descriptor -/

section Owned

variable {s t : ProxyBus η} {fd : FileDescriptor} {inHand : List FileDescriptor}

theorem owned_congr {w w' : World η} (h : ∀ sid,
    (w'.sessions sid).map Session.core = (w.sessions sid).map Session.core) :
    w'.Owned fd ↔ w.Owned fd := by
  constructor
  · rintro ⟨sid, x, hx, hfd⟩
    obtain ⟨y, hy, hfds⟩ := hx.congr (h sid).symm
    exact ⟨sid, y, hy, hfds ▸ hfd⟩
  · rintro ⟨sid, x, hx, hfd⟩
    obtain ⟨y, hy, hfds⟩ := hx.congr (h sid)
    exact ⟨sid, y, hy, hfds ▸ hfd⟩

/-- Two descriptors change hands. -/
theorem count_pair {client target : FileDescriptor} (hne : client ≠ target)
    (inHand : List FileDescriptor) (fd : FileDescriptor) :
    ((fd = client ∨ fd = target) →
      (target :: client :: inHand).count fd = inHand.count fd + 1) ∧
    (¬ (fd = client ∨ fd = target) → (target :: client :: inHand).count fd = inHand.count fd) := by
  constructor
  · rintro (rfl | rfl)
    · rw [List.count_cons_of_ne (Ne.symm hne), List.count_cons_self]
    · rw [List.count_cons_self, List.count_cons_of_ne hne]
  · intro hnot
    rw [not_or] at hnot
    rw [List.count_cons_of_ne (Ne.symm hnot.2), List.count_cons_of_ne (Ne.symm hnot.1)]

/-- The session that has started owns its two descriptors, and nobody owned them before. -/
theorem Made.owned {client target : FileDescriptor} (h : Made cfg s client target (.ok ()) t)
    (hs : Lives cfg [] [] s) (ht : Lives cfg [] [] t) :
    client ≠ target ∧ (∀ fd, fd = client ∨ fd = target → ¬ s.world.Owned fd) ∧
      ∀ fd, t.world.Owned fd ↔ s.world.Owned fd ∨ fd = client ∨ fd = target := by
  cases h with
  | started hmade =>
    obtain ⟨x, hx⟩ := hmade.exists_session
    obtain ⟨rfl, rfl, hreferences⟩ := hmade.references hx
    have hlive : t.world.Live s.world.nextSession x := by
      have hthree : (onClient s.world.nextSession).length = 3 := rfl
      refine ⟨hx, ?_⟩
      rw [hreferences, registrations_client]
      omega
    have hborn : ∀ sid y, s.world.Live sid y → sid ≠ s.world.nextSession := by
      rintro sid y ⟨hy, -⟩ rfl
      rw [hs.world.unborn _ (Nat.le_refl _)] at hy
      cases hy
    refine ⟨(ht.world.alive _ x hlive).1, ?_, fun fd => ⟨?_, ?_⟩⟩
    · rintro fd hfd ⟨sid, y, hy, hfdy⟩
      have hne := hborn sid y hy
      obtain ⟨z, hz, hfds⟩ := hy.congr (hmade.frame.core sid hne)
      rw [← hfds] at hfdy
      exact hne (ht.world.apart sid _ z x hz hlive fd hfdy (Session.mem_fds.mpr hfd))
    · rintro ⟨sid, y, hy, hfd⟩
      by_cases hsid : sid = s.world.nextSession
      · subst hsid
        obtain rfl := Option.some.inj (hx.symm.trans hy.1)
        exact Or.inr (Session.mem_fds.mp hfd)
      · obtain ⟨z, hz, hfds⟩ := hy.congr (hmade.frame.core sid hsid).symm
        exact Or.inl ⟨sid, z, hz, hfds ▸ hfd⟩
    · rintro (⟨sid, y, hy, hfd⟩ | hfd)
      · obtain ⟨z, hz, hfds⟩ := hy.congr (hmade.frame.core sid (hborn sid y hy))
        exact ⟨sid, z, hz, hfds ▸ hfd⟩
      · exact ⟨_, x, hlive, Session.mem_fds.mpr hfd⟩

/-- **The acceptor** keeps the balance. -/
theorem Booked.balanced {r : Except Exception Unit} (h : Booked cfg s [] s.world.calls r t)
    (hs : Lives cfg [] [] s) (ht : Lives cfg [] [] t) (hbalanced : s.world.Balanced []) :
    t.world.Balanced [] := by
  obtain ⟨l, hcalls, hl⟩ := h
  intro hspotless
  have hharmless : Harmless l := by
    rw [World.Spotless, hcalls, harmless_append] at hspotless
    exact hspotless.2
  -- the calls first, then the sessions
  have hcalled : ∀ inHand, Moves [] inHand l →
      World.Balanced inHand { s.world with calls := t.world.calls } :=
    fun inHand hmoves => hbalanced.calls rfl hcalls fun _ => hmoves
  rcases hl hharmless with ⟨client, target, rfl, hmade, hmoves⟩ | ⟨hidle, hmoves⟩
  · obtain ⟨hne, hnew, howned⟩ := hmade.owned hs ht
    have hkept : t.world.Balanced [] := by
      refine (hcalled _ hmoves).sessions rfl (fun fd hfd hold => ?_) (fun fd hfd hold => ?_)
        fun fd hsame => ?_
      · exact (count_pair hne [] fd).1 (((howned fd).mp hfd).resolve_left hold)
      · exact absurd ((howned fd).mpr (Or.inl hold)) hfd
      · refine ((count_pair hne [] fd).2 fun hfd => ?_).symm
        exact hnew fd hfd (hsame.mp ((howned fd).mpr (Or.inr hfd)))
    exact hkept hspotless
  · have hkept : t.world.Balanced [] := by
      refine (hcalled _ hmoves).of_owned rfl fun fd => owned_congr fun sid => ?_
      by_cases hsid : sid = s.world.nextSession
      · rw [hsid]
        exact hidle.core
      · exact hidle.frame.core sid hsid
    exact hkept hspotless

/-- **`~socket`** puts a descriptor out of hand. -/
theorem closeConnectionNoexcept_balanced (fd : FileDescriptor) (inHand : List FileDescriptor) :
    Ends cfg (fun s => s.world.Balanced (fd :: inHand)) (closeConnectionNoexcept cfg fd)
      fun r s => r = .ok () ∧ s.world.Balanced inHand := by
  intro s hs
  refine ⟨closeConnectionNoexcept_ok fd s, ?_⟩
  obtain ⟨l, hcalls, hl⟩ := closeConnectionNoexcept_issues cfg fd s
  have hsessions : Stable cfg (fun t : ProxyBus η => t.world.sessions = s.world.sessions)
      (closeConnectionNoexcept cfg fd) :=
    Stable.closeConnectionNoexcept (fun _ ht => ht) fun _ _ ht hw _ _ => hw.trans ht
  refine hs.calls (hsessions s rfl) hcalls fun hharmless => ?_
  rw [hl hharmless]
  exact .closed inHand fd

/-- The last holder lets go: the descriptors of the session come into hand. -/
theorem World.Orderly.last_balanced {w : World η} {reserved : List FileDescriptor}
    (h : w.Orderly cfg reserved) {sid : SessionId} {x : Session η} (hlive : w.Live sid x)
    (hlast : x.references = 1) (hbalanced : w.Balanced inHand) :
    World.Balanced (x.target :: x.client :: inHand)
      (w.setSession sid { x with references := x.references - 1 }) := by
  have hne := (h.alive sid x hlive).1
  have hmine : ∀ fd, fd = x.client ∨ fd = x.target → w.Owned fd :=
    fun fd hfd => ⟨sid, x, hlive, Session.mem_fds.mpr hfd⟩
  have howned : ∀ fd,
      World.Owned (w.setSession sid { x with references := x.references - 1 }) fd ↔
        w.Owned fd ∧ ¬ (fd = x.client ∨ fd = x.target) := by
    intro fd
    constructor
    · rintro ⟨sid', y, hy, hfd⟩
      have hother : ¬ (fd = x.client ∨ fd = x.target) := fun hmem =>
        (h.last_released hlive hlast (Session.mem_fds.mpr hmem)).1.2 sid' y hy hfd
      rcases World.live_setSession hy with ⟨-, -, hpos⟩ | ⟨-, hold⟩
      · rw [hlast] at hpos
        exact absurd hpos (Nat.lt_irrefl 0)
      · exact ⟨⟨sid', y, hold, hfd⟩, hother⟩
    · rintro ⟨⟨sid', y, hy, hfd⟩, hother⟩
      refine ⟨sid', y, ⟨(if_neg ?_).trans hy.1, hy.2⟩, hfd⟩
      rintro rfl
      obtain rfl := Option.some.inj (hlive.1.symm.trans hy.1)
      exact hother (Session.mem_fds.mp hfd)
  refine hbalanced.sessions rfl (fun fd hfd hold => ?_) (fun fd hfd hold => ?_) fun fd hsame => ?_
  · exact absurd ((howned fd).mp hfd).1 hold
  · refine (count_pair hne inHand fd).1 ?_
    by_contra hother
    exact hfd ((howned fd).mpr ⟨hold, hother⟩)
  · refine (count_pair hne inHand fd).2 fun hmem => ?_
    exact ((howned fd).mp (hsame.mpr (hmine fd hmem))).2 hmem

/-- A holder lets go that is not the last. -/
theorem World.Balanced.less {w : World η} {sid : SessionId} {x : Session η} (hlive : w.Live sid x)
    (hmore : x.references ≠ 1) (hbalanced : w.Balanced inHand) :
    World.Balanced inHand (w.setSession sid { x with references := x.references - 1 }) := by
  have hpos : 0 < x.references - 1 := by
    have := hlive.2
    omega
  refine hbalanced.of_owned rfl fun fd => ⟨?_, ?_⟩
  · rintro ⟨sid', y, hy, hfd⟩
    rcases World.live_setSession hy with ⟨rfl, rfl, -⟩ | ⟨-, hold⟩
    · exact ⟨sid', x, hlive, hfd⟩
    · exact ⟨sid', y, hold, hfd⟩
  · rintro ⟨sid', y, hy, hfd⟩
    by_cases hsid : sid' = sid
    · subst hsid
      obtain rfl := Option.some.inj (hlive.1.symm.trans hy.1)
      exact ⟨sid', _, ⟨if_pos rfl, hpos⟩, hfd⟩
    · exact ⟨sid', y, ⟨(if_neg hsid).trans hy.1, hy.2⟩, hfd⟩

/-- **Letting go of a session.**  With the last holder its descriptors come into hand, and are
closed. -/
theorem release_balanced {held : List SessionId} {reserved : List FileDescriptor}
    (sid : SessionId) :
    Ends cfg (fun s => Lives cfg (sid :: held) reserved s ∧ s.world.Balanced inHand)
      (release cfg sid) fun _ s => s.world.Balanced inHand := by
  refine Ends.world fun w => ?_
  rcases hx : w.sessions sid with _ | x
  · exact Program.Triple.pure fun s hs => hs.1.2
  by_cases hlast : x.references = 1
  · simp only [held_references, held_setReferences, if_pos hlast]
    refine Program.Triple.bind (R := fun r s => r = .ok () ∧
      World.Balanced (x.target :: x.client :: inHand) s.world) ?_ (fun _ => ?_) (by rintro _ _ ⟨⟨⟩, -⟩)
    · refine Ends.setWorld ?_
      rintro s ⟨⟨hlives, hbalanced⟩, rfl⟩
      have hlive := hlives.live_of_held List.mem_cons_self hx
      exact ⟨rfl, hlives.world.last_balanced hlive hlast hbalanced⟩
    · refine Program.Triple.bind ((closeConnectionNoexcept_balanced x.target _).mono
        (fun s hs => hs.2) fun _ _ hs => hs) (fun _ => ?_) (by rintro _ _ ⟨⟨⟩, -⟩)
      exact (closeConnectionNoexcept_balanced x.client inHand).mono (fun s hs => hs.2)
        fun _ _ hs => hs.2
  · simp only [held_references, held_setReferences, if_neg hlast]
    refine Program.Triple.bind (R := fun _ s => World.Balanced inHand s.world) ?_
      (fun _ => Program.Triple.pure fun _ hs => hs) fun _ _ hs => hs
    refine Ends.setWorld ?_
    rintro s ⟨⟨hlives, hbalanced⟩, rfl⟩
    exact hbalanced.less (hlives.live_of_held List.mem_cons_self hx) hlast

end Owned

/-! ## Every moment -/

section Moments

variable {s : ProxyBus η} {held : List SessionId} {inHand : List FileDescriptor}

theorem balanced_destroyAll (callbacks : List Callback)
    (hlives : Lives cfg (callbacks.filterMap Callback.session? ++ held) [] s)
    (h : s.world.Balanced inHand) :
    (s.destroyAll (host cfg) callbacks).world.Balanced inHand := by
  refine (Bus.destroyAll_rule (P := fun callbacks t =>
    Lives cfg (callbacks.filterMap Callback.session? ++ held) [] t ∧ t.world.Balanced inHand)
    ?_ ⟨hlives, h⟩).2
  rintro callback callbacks s ⟨hlives, h⟩
  show Lives cfg _ [] (s.exec (host cfg) (destroy cfg callback)).2 ∧
    (s.exec (host cfg) (destroy cfg callback)).2.world.Balanced inHand
  unfold destroy Server.destroy
  rcases hsession : callback.session? with _ | sid
  · rw [List.filterMap_cons_none hsession] at hlives
    exact ⟨hlives, h⟩
  · rw [List.filterMap_cons_some hsession] at hlives
    exact ⟨release_ends sid s hlives, release_balanced sid s ⟨hlives, h⟩⟩

theorem balanced_erase (fd : FileDescriptor) (hlives : Lives cfg [] [] s)
    (h : s.world.Balanced inHand) : (s.erase (host cfg) fd).world.Balanced inHand := by
  unfold Bus.erase
  rcases hmap : s.callbackMap fd with _ | callbacks
  · exact h
  · have hremoved := hlives.remove fd none rfl
    rw [holders, callbacksAt, hmap] at hremoved
    exact balanced_destroyAll callbacks hremoved h

/-- A callback of a session makes no call and no session. -/
theorem callback_issues (cfg : Config η) {callback : Callback} (hne : callback ≠ .accept)
    (fd : FileDescriptor) (mask : Flags) :
    Issues cfg ((host cfg).callback callback fd mask) fun _ l => l = [] := by
  cases callback with
  | accept => exact absurd rfl hne
  | left sid dir =>
    show Issues cfg (leftEvent cfg sid dir fd mask) _
    exact channelEvent_issues _ sid dir
  | right sid dir =>
    show Issues cfg (rightEvent cfg sid dir fd mask) _
    exact channelEvent_issues _ sid dir
  | session sid => exact sessionEvent_issues sid mask

/-- **Every callback** keeps the balance. -/
theorem callback_balanced (callback : Callback) (fd : FileDescriptor) (mask : Flags)
    (hlives : Lives cfg [] [] s) (h : s.world.Balanced []) :
    (s.exec (host cfg) ((host cfg).callback callback fd mask)).2.world.Balanced [] := by
  by_cases hne : callback = .accept
  · subst hne
    have hbooked : Booked cfg s [] s.world.calls _
        (s.exec (host cfg) ((host cfg).callback .accept fd mask)).2 :=
      acceptEvent_booked hlives fd mask s rfl
    exact hbooked.balanced hlives (callback_keeps .accept fd mask s hlives) h
  · obtain ⟨l, hcalls, hl⟩ := callback_issues cfg hne fd mask s
    have hcore := (callback_marks cfg s hne fd mask).1.core
    have hcalled : World.Balanced [] { s.world with
        calls := (s.exec (host cfg) ((host cfg).callback callback fd mask)).2.world.calls } := by
      refine h.calls rfl hcalls fun hharmless => ?_
      rw [hl hharmless]
      exact .nil []
    exact hcalled.of_owned rfl fun fd => owned_congr hcore

/-- **At every moment of a run** all descriptors are accounted for, as long as no call has
failed. -/
theorem ServerMoment.balanced {opened : List FileDescriptor} (h : ServerMoment cfg opened s) :
    s.world.Balanced [] := by
  induction h with
  | start =>
    intro _
    constructor
    · rintro fd ⟨sid, x, ⟨⟨⟩, -⟩, -⟩
    · exact fun _ _ => rfl
  | log entry hentry hs ih => exact ih
  | call callback fd mask hs ih =>
    exact callback_balanced callback fd mask (ServerMoment.lives hs) ih
  | report err hs ih => exact ih
  | erase fd hs ih => exact balanced_erase fd (ServerMoment.lives hs) ih
  | clear hs ih => exact ih
  | swap hs ih => exact ih
  | setErrno errno hs ih => exact ih.of_owned rfl fun _ => Iff.rfl

end Moments

/-! ## Failures stay on record -/

section Record

variable {s t : ProxyBus η}

/-- Code in sequence makes some calls. -/
theorem Issues.any_bind {α β : Type} {code : ProxyCode η α} {f : α → ProxyCode η β}
    {R : Except Exception α → List SysCall → Prop} (hcode : Issues cfg code R)
    (hf : ∀ a, Issues cfg (f a) fun _ _ => True) : Issues cfg (code >>= f) fun _ _ => True :=
  hcode.bind hf (fun _ _ _ _ _ _ => trivial) fun _ _ _ => trivial

theorem acceptEvent_issues (cfg : Config η) (fd : FileDescriptor) (mask : Flags) :
    Issues cfg (acceptEvent cfg (makeNewSession cfg) fd mask) fun _ _ => True := by
  refine (acceptNewClient_issues fd mask).any_bind fun conn => ?_
  split
  · refine Issues.any_bind (Issues.attempt (R := fun _ _ => True)
      ((openSocket_issues cfg.addresses).mono fun _ _ _ => trivial)) ?_
    rintro (e | target)
    · exact (closeConnectionNoexcept_issues cfg conn).any_bind fun _ => Issues.throw trivial
    · refine (newSession_issues conn target).any_bind fun sid => ?_
      refine Issues.any_bind (Issues.attempt (R := fun _ _ => True)
        ((startSession_quiet sid conn target).mono fun _ _ _ => trivial)) fun started => ?_
      exact (release_issues cfg sid).any_bind fun _ =>
        (rethrow_issues started).mono fun _ _ _ => trivial
  · exact Issues.pure trivial

theorem callback_calls (callback : Callback) (fd : FileDescriptor) (mask : Flags) :
    s.world.calls <+:
      (s.exec (host cfg) ((host cfg).callback callback fd mask)).2.world.calls := by
  by_cases hne : callback = .accept
  · subst hne
    obtain ⟨l, hcalls, -⟩ := acceptEvent_issues cfg fd mask s
    exact ⟨l, hcalls.symm⟩
  · obtain ⟨l, hcalls, -⟩ := callback_issues cfg hne fd mask s
    exact ⟨l, hcalls.symm⟩

theorem erase_calls (fd : FileDescriptor) :
    s.world.calls <+: (s.erase (host cfg) fd).world.calls := by
  have hdestroy : ∀ (callbacks : List Callback) (s : ProxyBus η),
      s.world.calls <+: (s.destroyAll (host cfg) callbacks).world.calls := by
    intro callbacks
    induction callbacks with
    | nil => exact fun s => List.prefix_refl _
    | cons callback callbacks ih =>
      intro s
      have hdestroyed : Issues cfg (destroy cfg callback) fun _ _ => True := by
        unfold destroy Server.destroy
        split
        · exact release_issues cfg _
        · exact Issues.pure trivial
      obtain ⟨l, hcalls, -⟩ := hdestroyed s
      exact List.IsPrefix.trans ⟨l, hcalls.symm⟩ (ih _)
  unfold Bus.erase
  split
  · exact hdestroy _ (s.setCallbacks fd none)
  · exact List.prefix_refl _

/-- **A call that has failed** stays on record. -/
theorem moment_calls (h : Bus.Moment (host cfg) (fun _ => pure ()) s t) :
    s.world.calls <+: t.world.calls := by
  induction h with
  | start => exact List.prefix_refl _
  | log entry hentry hs ih => exact ih
  | call callback fd mask hs ih => exact ih.trans (callback_calls callback fd mask)
  | report err hs ih => exact ih
  | erase fd hs ih => exact ih.trans (erase_calls fd)
  | clear hs ih => exact ih
  | swap hs ih => exact ih
  | setErrno errno hs ih => exact ih

theorem spotless_of_moment (h : Bus.Moment (host cfg) (fun _ => pure ()) s t)
    (hspotless : t.world.Spotless) : s.world.Spotless :=
  fun call hmem => hspotless call ((moment_calls h).subset hmem)

end Record

/-! ## Between two dispatches -/

section Dispatch

variable {s t : ProxyBus η} {ev : Event} {sid : SessionId} {x : Session η}

/-- Every session is registered or gone. -/
def Whole (s : ProxyBus η) : Prop :=
  ∀ sid x, s.world.sessions sid = some x → Registered s sid x ∨ Gone s sid

/-- A session that is new after a dispatch for the acceptor has started, unless a call has
failed. -/
theorem returned_of_new (hs : Settled cfg s) (hclear : s.callbacksToRemove = [])
    (hev : ev.fd = cfg.listener)
    (hspotless : (s.dispatch (host cfg) (some fun _ => pure ()) ev).2.world.Spotless)
    (hx : (s.dispatch (host cfg) (some fun _ => pure ()) ev).2.world.sessions sid = some x)
    (hnew : s.world.sessions sid = none) :
    sid = s.world.nextSession ∧ .returned .accept none ∈
      (s.dispatch (host cfg) (some fun _ => pure ()) ev).2.trace.drop s.trace.length := by
  have hat : callbacksAt s ev.fd = [.accept] := by
    rw [hev, callbacksAt, hs.listening]
    rfl
  rw [dispatch_eq, hat] at hspotless hx ⊢
  have hlogged : Settled cfg (s.log (.invoked .accept ev)) :=
    Running.toSettled ((hs.running hclear).log id)
  have haccepted := hlogged.accepted hclear ev.fd ev.flags
  have hbooked : Booked cfg (s.log (.invoked .accept ev)) [] s.world.calls
      ((s.log (.invoked .accept ev)).exec (host cfg)
        ((host cfg).callback .accept ev.fd ev.flags)).1
      ((s.log (.invoked .accept ev)).exec (host cfg)
        ((host cfg).callback .accept ev.fd ev.flags)).2 :=
    acceptEvent_booked hlogged.lives ev.fd ev.flags _ rfl
  have hused := Bus.used_exec (host cfg) ((host cfg).callback .accept ev.fd ev.flags)
    (s.log (.invoked .accept ev))
  rcases hexec : (s.log (.invoked .accept ev)).exec (host cfg)
    ((host cfg).callback .accept ev.fd ev.flags) with ⟨r, t⟩
  rw [hexec] at haccepted hused hbooked
  obtain ⟨ops, hemits, -⟩ := hused
  obtain ⟨l, hcalls, hl⟩ := hbooked
  have hloop := runCallbacks_accept cfg s ev hclear hexec
  generalize (s.runCallbacks (host cfg) (some fun _ => pure ()) ev [.accept]).2 = v
    at hloop hspotless hx ⊢
  have hrunning : Running cfg v := by
    rcases hloop with ⟨-, rfl⟩ | ⟨e, err, -, rfl⟩
    · exact haccepted.running.log id
    · exact (haccepted.running.log id).log id
  have hworld : v.world = t.world := by
    rcases hloop with ⟨-, rfl⟩ | ⟨e, err, -, rfl⟩
    · rfl
    · rfl
  -- nothing has failed, and the session is there already
  have hharmless : Harmless l := by
    have hbefore := spotless_of_moment Bus.Moment.start.flush hspotless
    rw [World.Spotless, hworld, hcalls, harmless_append] at hbefore
    exact hbefore.2
  obtain ⟨-, -, hsockets, -⟩ := hrunning.flush
  obtain ⟨y, hy, -⟩ : ∃ y, t.world.sessions sid = some y ∧ y.sockets = x.sockets := by
    have hpair := hsockets sid
    rw [hx, Option.map_some, hworld] at hpair
    exact Option.map_eq_some_iff.mp hpair.symm
  have hnone : ∀ core : Option (FileDescriptor × FileDescriptor × ℕ),
      core = (s.world.sessions sid).map Session.core →
      (t.world.sessions sid).map Session.core ≠ core := by
    rintro core rfl heq
    rw [hnew, hy] at heq
    cases heq
  rcases hl hharmless with ⟨client, target, rfl, hmade, -⟩ | ⟨hidle, -⟩
  · constructor
    · by_contra hne
      exact hnone _ rfl (haccepted.frame.core sid hne)
    · obtain ⟨-, rfl⟩ | ⟨e, err, ⟨⟩, -⟩ := hloop
      obtain ⟨ops', hemits', -⟩ := Bus.flush_spec (host cfg) (t.log (.returned .accept none))
      have htrace : ((t.log (.returned .accept none)).flush (host cfg)).trace =
          s.trace ++ ([.invoked .accept ev] ++ ops ++ [.returned .accept none] ++ ops') := by
        have hbefore : t.trace = s.trace ++ [.invoked .accept ev] ++ ops := hemits.trace
        rw [hemits'.trace]
        show (t.trace ++ [_]) ++ ops' = _
        rw [hbefore]
        simp only [List.append_assoc, List.cons_append, List.nil_append]
      rw [htrace, List.drop_left]
      simp
  · exfalso
    by_cases hsid : sid = s.world.nextSession
    · subst hsid
      exact hnone _ rfl hidle.core
    · exact hnone _ rfl (hidle.frame.core sid hsid)

/-- A dispatch for a descriptor of a session makes no session. -/
theorem not_new_of_session (hs : Settled cfg s) (hclear : s.callbacksToRemove = [])
    (hev : ev.fd ≠ cfg.listener) (hnew : s.world.sessions sid = none) :
    (s.dispatch (host cfg) (some fun _ => pure ()) ev).2.world.sessions sid = none := by
  obtain ⟨hrunning, hkept, -⟩ := (hs.running hclear).runCallbacks hev
  obtain ⟨-, -, hsockets, -⟩ := hrunning.flush
  rw [dispatch_eq]
  have hpair := hsockets sid
  have hcore := hkept.core sid
  rw [hnew, Option.map_none, Option.map_eq_none_iff] at hcore
  rw [hcore, Option.map_none, Option.map_eq_none_iff] at hpair
  exact hpair

/-- **A dispatch** leaves no session in between, unless a call fails. -/
theorem Whole.dispatch (h : Whole s) (hs : Settled cfg s) (hclear : s.callbacksToRemove = [])
    (ev : Event)
    (hspotless : (s.dispatch (host cfg) (some fun _ => pure ()) ev).2.world.Spotless) :
    Whole (s.dispatch (host cfg) (some fun _ => pure ()) ev).2 := by
  intro sid x hx
  rcases hold : s.world.sessions sid with _ | y
  · by_cases hev : ev.fd = cfg.listener
    · obtain ⟨rfl, hreturned⟩ := returned_of_new hs hclear hev hspotless hx hold
      exact Or.inl (registered_of_returned hs hclear hreturned hx)
    · rw [not_new_of_session hs hclear hev hold] at hx
      cases hx
  · rcases h sid y hold with hregistered | hgone
    · have hstep := hregistered.dispatch hs hclear ev
      split at hstep
      · exact Or.inr hstep
      · obtain ⟨z, hz, -⟩ := hstep
        obtain rfl := Option.some.inj (hz.session.symm.trans hx)
        exact Or.inl hz
    · exact Or.inr (hgone.dispatch hs hclear ev).1

end Dispatch

section Runs

variable {s t : ProxyBus η} {opened : List FileDescriptor} {evs : List Event}

theorem Passes.moment (h : Passes cfg s evs t) :
    Bus.Moment (host cfg) (fun _ => pure ()) s t := by
  induction h with
  | start => exact .start
  | noted entry hentry _ ih => exact ih.log entry hentry.not_isOp
  | swapped _ ih => exact ih.swap
  | errnoSet errno _ ih => exact ih.setErrno errno
  | dispatched ev _ ih => exact ih.dispatch ev

theorem Passes.whole (h : Passes cfg s evs t) (hwhole : Whole s) (hs : Settled cfg s)
    (hclear : s.callbacksToRemove = []) (hspotless : t.world.Spotless) : Whole t := by
  induction h with
  | start => exact hwhole
  | noted _ _ _ ih | swapped _ ih | errnoSet _ _ ih =>
    intro sid x hx
    exact (ih hspotless sid x hx).imp (fun h => ⟨h.session, h.own⟩) fun h => ⟨h.own, h.destroyed⟩
  | dispatched ev ht ih =>
    obtain ⟨hsettled, hclear'⟩ := ht.settled hs hclear
    have hbefore := spotless_of_moment (Bus.Moment.start.dispatch ev) hspotless
    exact (ih hbefore).dispatch hsettled hclear' ev hspotless

/-- The descriptor is one of a session that is registered. -/
def InUse (s : ProxyBus η) (fd : FileDescriptor) : Prop :=
  ∃ sid x, Registered s sid x ∧ fd ∈ x.fds

/-- A descriptor is owned by a session that is registered, or it has been passed to `::close` as
often as it was handed out; while it is owned, once less. -/
structure NoLeak (s : ProxyBus η) : Prop where
  inUse : ∀ fd, InUse s fd →
    handedOut s.world.calls fd = passedToClose s.world.calls fd + 1
  closed : ∀ fd, ¬ InUse s fd → handedOut s.world.calls fd = passedToClose s.world.calls fd

/-- **A session that is whole** owns its descriptors exactly while it is registered. -/
theorem Whole.inUse_iff (h : Whole s) (hs : Settled cfg s) (fd : FileDescriptor) :
    InUse s fd ↔ s.world.Owned fd := by
  constructor
  · rintro ⟨sid, x, hx, hfd⟩
    refine ⟨sid, x, ⟨hx.session, ?_⟩, hfd⟩
    have hthree : (onClient sid).length = 3 := rfl
    rw [hs.exact hx.session, hx.own, registrations_client]
    omega
  · rintro ⟨sid, x, ⟨hx, hpos⟩, hfd⟩
    rcases h sid x hx with hregistered | ⟨-, y, hy, hzero⟩
    · exact ⟨sid, x, hregistered, hfd⟩
    · obtain rfl := Option.some.inj (hx.symm.trans hy)
      rw [hzero] at hpos
      exact absurd hpos (Nat.lt_irrefl 0)

/-- **No descriptor leaks** as long as no call of `epoll_ctl` or `::shutdown` has failed and
`::accept` has not returned 0.  At every moment at which no callback is running, every
descriptor that was handed out is owned by a session that has holders, or it has been passed to
`::close`, each time once; and between any two dispatches the sessions that own one are
registered. -/
theorem no_descriptor_leaks (cfg : Config η) (opened : List FileDescriptor) :
    (∀ polls, ∃ evs, Handles cfg (startServer cfg opened) evs (runServer cfg opened polls)) ∧
    (∀ evs s, Passes cfg (startServer cfg opened) evs s → s.world.Spotless → NoLeak s) ∧
    ∀ s, ServerMoment cfg opened s → s.world.Spotless → s.world.Accounted [] := by
  refine ⟨handles_runServer cfg opened, fun evs s hrun hspotless => ?_, fun s hs => hs.balanced⟩
  have hstart := settled_startServer cfg opened
  have hwhole := hrun.whole (by rintro sid x ⟨⟩) hstart rfl hspotless
  have hiff := hwhole.inUse_iff (hrun.settled hstart rfl).1
  obtain ⟨howned, hunowned⟩ := ServerMoment.balanced hrun.moment hspotless
  constructor
  · exact fun fd hfd => howned fd ((hiff fd).mp hfd)
  · exact fun fd hfd => hunowned fd fun hold => hfd ((hiff fd).mpr hold)

end Runs

set_option maxRecDepth 4000 in
/-- A client connects and its session fails; all its descriptors are closed, and the next client
gets the same two. -/
theorem no_descriptor_leaks_reusing :
    let s := runServer reusingServer [0, 1, 2, 4]
      [.ok [⟨3, Flags.in'⟩], .ok [⟨5, Flags.error⟩, ⟨3, Flags.in'⟩]]
    s.world.calls = [.accepted 5, .opened 6, .closed 6, .closed 5, .accepted 5, .opened 6] ∧
      NoLeak s := by
  obtain ⟨hruns, hclean, -⟩ := no_descriptor_leaks reusingServer [0, 1, 2, 4]
  obtain ⟨evs, hrun⟩ := hruns [.ok [⟨3, Flags.in'⟩], .ok [⟨5, Flags.error⟩, ⟨3, Flags.in'⟩]]
  have hspotless : Harmless (runServer reusingServer [0, 1, 2, 4]
      [.ok [⟨3, Flags.in'⟩], .ok [⟨5, Flags.error⟩, ⟨3, Flags.in'⟩]]).world.calls := by decide
  exact ⟨by decide, hclean evs _ hrun.passes hspotless⟩

/-- One client connects.  The target refuses the connection, and `epoll_ctl` refuses to delete a
descriptor that it does not know. -/
def refusedTarget : Config Unit where
  kernel tick :=
    { recv := .failed EAGAIN
      send := fun _ => .failed EAGAIN
      accept := fun opened => if tick = 0 then lowestFree opened else .error EAGAIN
      socket := lowestFree
      connect := some 111
      epollCtl := some 2
      shutdown := none
      close := none }
  listener := 3
  epfd := 4
  addresses := 1
  handlers _ := []
  handlerState _ := ()
  memory _ := 0

set_option maxRecDepth 4000 in
/-- **A client leaks when the target cannot be reached.**  Its descriptor was never registered, so
`del_fd` throws in `~socket`, and `::close` is not called. -/
theorem refused_target_leaks :
    let s := runServer refusedTarget [0, 1, 2, 4] [.ok [⟨3, Flags.in'⟩]]
    (∃ evs, Passes refusedTarget (startServer refusedTarget [0, 1, 2, 4]) evs s) ∧
      s.world.calls = [.accepted 5, .opened 6, .closed 6, .failed 5] ∧ 5 ∈ s.world.opened ∧
      ¬ NoLeak s := by
  intro s
  obtain ⟨evs, hrun⟩ := handles_runServer refusedTarget [0, 1, 2, 4] [.ok [⟨3, Flags.in'⟩]]
  have hcalls : s.world.calls = [.accepted 5, .opened 6, .closed 6, .failed 5] := by decide
  refine ⟨⟨evs, hrun.passes⟩, hcalls, by decide, fun hclean => ?_⟩
  have hunused : ¬ InUse s 5 := by
    rintro ⟨sid, x, hx, -⟩
    have hnext : s.world.nextSession = 0 := by decide
    have hnone := (moment_runServer refusedTarget [0, 1, 2, 4]
      [.ok [⟨3, Flags.in'⟩]]).lives.world.unborn sid (hnext ▸ Nat.zero_le sid)
    exact absurd (hx.session.symm.trans hnone) (Option.some_ne_none x)
  have hcount := hclean.closed 5 hunused
  rw [hcalls] at hcount
  exact absurd hcount (by decide)

end Proxy
end PsqlTcpProxy
