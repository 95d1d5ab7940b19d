import PsqlTcpProxy.Proxy.Lifetime
import Mathlib.Logic.Function.Basic

/-!
# What a callback does to the registrations

`Lives` counts at most the holders a session has.  For the end of a session more is
needed: which callbacks it has on the bus, in which order, and that it has no other
holders.  `own` is the first, and `Session.core` what else matters: the two
descriptors and the number of holders.

* An event of a channel changes none of it (`Same`).
* The acceptor changes it for the session that it makes and for no other (`Frame`).
  That session has all of its callbacks, or its start has failed and it has none, or one
  on the client's descriptor (`Made`).
-/

namespace PsqlTcpProxy
namespace Proxy

open Library Io Server

variable {η : Type} {cfg : Config η}

/-! ## A session's own callbacks -/

/-- The callbacks of a descriptor that belong to a session. -/
def own (s : ProxyBus η) (sid : SessionId) (fd : FileDescriptor) : List Callback :=
  (callbacksAt s fd).filter fun callback => callback.session? = some sid

/-- What a session registers for the client's descriptor. -/
def onClient (sid : SessionId) : List Callback := [.left sid .lr, .right sid .rl, .session sid]

/-- What a session registers for the target's descriptor. -/
def onTarget (sid : SessionId) : List Callback := [.right sid .lr, .left sid .rl, .session sid]

/-- What an event of a channel does not change. -/
def Session.core (x : Session η) : FileDescriptor × FileDescriptor × ℕ :=
  (x.client, x.target, x.references)

theorem own_of_callbackMap {s t : ProxyBus η} (h : t.callbackMap = s.callbackMap) :
    own t = own s := by
  ext sid fd : 2
  simp only [own, callbacksAt, h]

theorem own_pushBack (s : ProxyBus η) (fd : FileDescriptor) {callback : Callback}
    {sid : SessionId} (hcallback : callback.session? = some sid) :
    own (s.pushBack fd (callbacksAt s fd) (some callback)) sid =
      Function.update (own s sid) fd (own s sid fd ++ [callback]) ∧
    ∀ sid', sid' ≠ sid →
      own (s.pushBack fd (callbacksAt s fd) (some callback)) sid' = own s sid' := by
  constructor
  · ext fd' : 1
    rw [own, callbacksAt_pushBack]
    by_cases hfd : fd' = fd
    · subst hfd
      rw [if_pos rfl, Function.update_self, List.filter_append, List.filter_singleton,
        decide_eq_true hcallback]
      rfl
    · rw [if_neg hfd, Function.update_of_ne hfd]
      rfl
  · intro sid' hne
    ext fd' : 1
    have hother : ¬ callback.session? = some sid' := by
      rw [hcallback]
      exact fun heq => hne (Option.some.inj heq).symm
    rw [own, callbacksAt_pushBack]
    split
    · rw [List.filter_append, List.filter_singleton, decide_eq_false hother]
      exact List.append_nil _
    · rfl

theorem own_emplace {s : ProxyBus η} {fd : FileDescriptor} (h : s.callbackMap fd = none) :
    own (s.setCallbacks fd (some [])) = own s := by
  ext sid fd' : 2
  rw [own, own, callbacksAt_setCallbacks]
  split
  · rename_i hfd
    rw [hfd, callbacksAt, h]
    rfl
  · rfl

/-- A session that does not exist has registered nothing. -/
theorem Lives.own_unborn {held : List SessionId} {reserved : List FileDescriptor}
    {s : ProxyBus η} (h : Lives cfg held reserved s) :
    own s s.world.nextSession = fun _ => [] := by
  ext fd : 1
  refine List.filter_eq_nil_iff.mpr fun callback hcallback hsession => ?_
  have hholder : s.world.nextSession ∈ holders s fd :=
    List.mem_filterMap.mpr ⟨callback, hcallback, of_decide_eq_true hsession⟩
  obtain ⟨x, hx, -⟩ := h.owned fd _ hholder
  rw [h.world.unborn _ (Nat.le_refl _)] at hx
  cases hx

/-! ## Code that changes no registration -/

/-- From `s` to `t` nothing is registered or removed, and no session gets other
descriptors or holders. -/
structure Same (s t : ProxyBus η) : Prop where
  callbackMap : t.callbackMap = s.callbackMap
  core : ∀ sid, (t.world.sessions sid).map Session.core = (s.world.sessions sid).map Session.core
  nextSession : t.world.nextSession = s.world.nextSession
  marks : t.callbacksToRemove = s.callbacksToRemove

namespace Same

variable {base s t : ProxyBus η}

theorem refl (s : ProxyBus η) : Same s s := ⟨rfl, fun _ => rfl, rfl, rfl⟩

theorem trans (h : Same base s) (h' : Same s t) : Same base t :=
  ⟨h'.callbackMap.trans h.callbackMap, fun sid => (h'.core sid).trans (h.core sid),
    h'.nextSession.trans h.nextSession, h'.marks.trans h.marks⟩

/-- The queue and the trace do not matter, and of the world only the sessions do. -/
theorem of_eq (hmap : t.callbackMap = s.callbackMap)
    (hsessions : t.world.sessions = s.world.sessions)
    (hnext : t.world.nextSession = s.world.nextSession)
    (hmarks : t.callbacksToRemove = s.callbacksToRemove) : Same s t :=
  ⟨hmap, fun sid => by rw [hsessions], hnext, hmarks⟩

end Same

section Same

variable {base : ProxyBus η}

theorem tick_same {s : ProxyBus η} (h : Same base s) :
    Same base { s with world := { s.world with tick := s.world.tick + 1 } } :=
  h.trans (.of_eq rfl rfl rfl rfl)

theorem enqueueEvent_same (ev : Event) : Stable cfg (Same base) (enqueueEvent ev) :=
  Program.Triple.lift fun _ hs => hs.trans (.of_eq rfl rfl rfl rfl)

/-- **An event of a channel** changes the channel only. -/
theorem channelEvent_same (handle : Channel η → Answer → ℤ → Option (Outcome η))
    (sid : SessionId) (dir : Direction) :
    Stable cfg (Same base) (channelEvent cfg sid dir handle) := by
  refine Stable.channelEvent (fun _ => True) (fun s hs => tick_same hs)
    (fun ev _ => enqueueEvent_same ev) fun s x o tick errno hs hx _ =>
      ⟨hs.trans ⟨rfl, fun sid' => ?_, rfl, rfl⟩, fun _ _ => trivial⟩
  show (if sid' = sid then some _ else s.world.sessions sid').map Session.core = _
  split
  · rename_i heq
    rw [heq, hx]
    simp only [Option.map_some, Session.core, Session.setFlow_client, Session.setFlow_target,
      Session.setFlow_references]
  · rfl

/-- **The rule of `_open_socket`.**  The world changes, but not the sessions. -/
theorem openSocket_rule {P : ProxyBus η → Prop}
    (hworld : ∀ s w, P s → w.sessions = s.world.sessions → w.nextSession = s.world.nextSession →
      P { s with world := w }) (n : ℕ) : Stable cfg P (openSocket cfg n) := by
  have herrno : ∀ errno, Stable cfg P (setErrno errno) :=
    fun errno => Ends.modify fun s hs => hworld s _ hs rfl rfl
  have hopened : ∀ (f : World η → List FileDescriptor) (g : World η → ℤ) (calls : List SysCall),
      Stable cfg P
        (modify fun w => { w with opened := f w, errno := g w, calls := w.calls ++ calls }) :=
    fun f g calls => Ends.modify fun s hs => hworld s _ hs rfl rfl
  induction n with
  | zero => exact Ends.world fun w => Program.Triple.throw fun s hs => hs.1
  | succ n ih =>
    refine Ends.ask (fun s hs => hworld s _ hs rfl rfl) fun answer _ => Ends.world fun w => ?_
    refine Program.Triple.mono (P := P) ?_ (fun s hs => hs.1) fun _ _ hs => hs
    rcases answer.socket w.opened with errno | sockfd
    · exact (herrno errno).bind fun _ => ih
    · simp only
      rcases answer.connect with _ | errno
      · exact (hopened _ _ _).bind fun _ => Program.Keeps.pure _
      · simp only
        split
        · exact (hopened _ _ _).bind fun _ => Program.Keeps.pure _
        · exact (hopened _ _ _).bind fun _ => ih

theorem openSocket_same (n : ℕ) : Stable cfg (Same base) (openSocket cfg n) :=
  openSocket_rule (fun _ _ hs hsessions hnext => hs.trans (.of_eq rfl hsessions hnext rfl)) n

theorem acceptNewClient_same (fd : FileDescriptor) (mask : Flags) :
    Stable cfg (Same base) (acceptNewClient cfg fd mask) :=
  Stable.acceptNewClient (fun _ _ hs hsessions hnext => hs.trans (.of_eq rfl hsessions hnext rfl))
    (enqueueEvent_same _) mask

end Same

/-! ## Code that is about one session -/

/-- From `base` on, only the next session of `base` is touched, and only descriptors that
no session has are marked. -/
structure Frame (cfg : Config η) (base s : ProxyBus η) : Prop where
  own : ∀ sid, sid ≠ base.world.nextSession → own s sid = own base sid
  core : ∀ sid, sid ≠ base.world.nextSession →
    (s.world.sessions sid).map Session.core = (base.world.sessions sid).map Session.core
  listening : s.callbackMap cfg.listener = base.callbackMap cfg.listener
  marks : ∀ fd ∈ s.callbacksToRemove, fd ∈ base.callbacksToRemove ∨
    World.Unused cfg base.world fd

theorem Frame.same {base s t : ProxyBus η} (h : Frame cfg base s) (h' : Same s t) :
    Frame cfg base t := by
  have hown := own_of_callbackMap h'.callbackMap
  refine ⟨fun sid hne => ?_, fun sid hne => (h'.core sid).trans (h.core sid hne), ?_, ?_⟩
  · rw [hown]
    exact h.own sid hne
  · rw [h'.callbackMap]
    exact h.listening
  · rw [h'.marks]
    exact h.marks

theorem Same.frame {base s : ProxyBus η} (h : Same base s) : Frame cfg base s :=
  Frame.same ⟨fun _ _ => rfl, fun _ _ => rfl, rfl, fun _ hfd => Or.inl hfd⟩ h

section Closing

variable {P : ProxyBus η → Prop} {fd : FileDescriptor}

/-- **Closing** marks the descriptor and changes no registration. -/
theorem closeConnectionNoexcept_stable (hsame : ∀ s t, P s → Same s t → P t)
    (hmark : ∀ s, P s → P (s.mark (host cfg) fd)) : Stable cfg P (closeConnectionNoexcept cfg fd) := by
  refine Stable.closeConnectionNoexcept (fun s hs => ?_) fun s w hs hsessions hnext _ => ?_
  · exact hsame _ _ (hmark s hs) (.of_eq rfl rfl rfl rfl)
  · exact hsame _ _ hs (.of_eq rfl hsessions hnext rfl)

end Closing

theorem Frame.mark {base s : ProxyBus η} (h : Frame cfg base s) {fd : FileDescriptor}
    (hfd : World.Unused cfg base.world fd) : Frame cfg base (s.mark (host cfg) fd) := by
  refine ⟨h.own, h.core, h.listening, fun fd' hfd' => ?_⟩
  rcases (Bus.mem_mark (host cfg) s fd fd').mp hfd' with hold | rfl
  · exact h.marks fd' hold
  · exact Or.inr hfd

/-! ## Making a session -/

/-- The next session of `base` is there, has registered `o`, and has `k` holders
besides. -/
structure Holding (cfg : Config η) (base : ProxyBus η) (client target : FileDescriptor)
    (o : FileDescriptor → List Callback) (k : ℕ) (s : ProxyBus η) : Prop where
  frame : Frame cfg base s
  core : (s.world.sessions base.world.nextSession).map Session.core =
    some (client, target, (o client).length + (o target).length + k)
  own : own s base.world.nextSession = o
  nextSession : s.world.nextSession = base.world.nextSession + 1

/-- The same, and nothing is marked that was not. -/
structure Making (cfg : Config η) (base : ProxyBus η) (client target : FileDescriptor)
    (o : FileDescriptor → List Callback) (k : ℕ) (s : ProxyBus η) : Prop
    extends Holding cfg base client target o k s where
  marks : s.callbacksToRemove = base.callbacksToRemove

/-- One callback more. -/
def push (o : FileDescriptor → List Callback) (fd : FileDescriptor) (callback : Callback) :
    FileDescriptor → List Callback :=
  Function.update o fd (o fd ++ [callback])

section Making

variable {base s t : ProxyBus η} {client target fd : FileDescriptor}
  {o : FileDescriptor → List Callback} {k : ℕ}

theorem Holding.same (h : Holding cfg base client target o k s) (h' : Same s t) :
    Holding cfg base client target o k t := by
  refine ⟨h.frame.same h', (h'.core _).trans h.core, ?_, h'.nextSession.trans h.nextSession⟩
  rw [own_of_callbackMap h'.callbackMap]
  exact h.own

theorem Making.same (h : Making cfg base client target o k s) (h' : Same s t) :
    Making cfg base client target o k t :=
  ⟨h.toHolding.same h', h'.marks.trans h.marks⟩

/-- The number of holders changes. -/
theorem Making.setReferences {x : Session η} (h : Making cfg base client target o k s)
    (hx : s.world.sessions base.world.nextSession = some x) (k' : ℕ) :
    Making cfg base client target o k' { s with
      world := s.world.setSession base.world.nextSession
        { x with references := (o client).length + (o target).length + k' } } := by
  have hcore := h.core
  rw [hx, Option.map_some, Option.some.injEq, Session.core, Prod.mk.injEq, Prod.mk.injEq] at hcore
  obtain ⟨hclient, htarget, -⟩ := hcore
  refine ⟨⟨⟨h.frame.own, fun sid hne => ?_, h.frame.listening, h.frame.marks⟩, ?_, h.own,
    h.nextSession⟩, h.marks⟩
  · show (if sid = base.world.nextSession then some _ else s.world.sessions sid).map _ = _
    rw [if_neg hne]
    exact h.frame.core sid hne
  · show (if base.world.nextSession = base.world.nextSession then some _ else _).map _ = _
    rw [if_pos rfl, Option.map_some, Session.core, hclient, htarget]

theorem Making.references {x : Session η} (h : Making cfg base client target o k s)
    (hx : s.world.sessions base.world.nextSession = some x) :
    x.client = client ∧ x.target = target ∧
      x.references = (o client).length + (o target).length + k := by
  have hcore := h.core
  rw [hx, Option.map_some, Option.some.injEq, Session.core, Prod.mk.injEq, Prod.mk.injEq] at hcore
  exact hcore

theorem Making.exists_session (h : Making cfg base client target o k s) :
    ∃ x, s.world.sessions base.world.nextSession = some x := by
  obtain ⟨x, hx, -⟩ := Option.map_eq_some_iff.mp h.core
  exact ⟨x, hx⟩

theorem retain_making :
    Ends cfg (Making cfg base client target o k) (retain base.world.nextSession)
      fun _ => Making cfg base client target o (k + 1) := by
  refine Ends.modify fun s hs => ?_
  obtain ⟨x, hx⟩ := hs.exists_session
  have hmore := hs.setReferences hx (k + 1)
  rw [World.retain_of_some hx, (hs.references hx).2.2]
  exact hmore

/-- A holder that is not the last. -/
theorem release_making (hpos : 0 < (o client).length + (o target).length + k) :
    Ends cfg (Making cfg base client target o (k + 1)) (release cfg base.world.nextSession)
      fun _ => Making cfg base client target o k := by
  refine Ends.world fun w => ?_
  rcases hx : w.sessions base.world.nextSession with _ | x
  · rintro s ⟨hs, rfl⟩
    obtain ⟨x, hx'⟩ := hs.exists_session
    rw [hx] at hx'
    cases hx'
  · rintro s ⟨hs, rfl⟩
    have hreferences := (hs.references hx).2.2
    have hnot : ¬ x.references = 1 := by omega
    have hless := hs.setReferences hx k
    have hcount : x.references - 1 = (o client).length + (o target).length + k := by omega
    simp only [held_references, held_setReferences, if_neg hnot, hcount]
    exact hless

/-- The last holder: both sockets are closed. -/
theorem release_last (hclient : World.Unused cfg base.world client)
    (htarget : World.Unused cfg base.world target) :
    Ends cfg (Making cfg base client target (fun _ => []) 1) (release cfg base.world.nextSession)
      fun _ => Holding cfg base client target (fun _ => []) 0 := by
  have hclosing : ∀ fd, World.Unused cfg base.world fd →
      Stable cfg (Holding cfg base client target (fun _ => []) 0)
        (closeConnectionNoexcept cfg fd) :=
    fun fd hfd => closeConnectionNoexcept_stable (fun _ _ hs hsame => hs.same hsame)
      fun _ hs => ⟨hs.frame.mark hfd, hs.core, hs.own, hs.nextSession⟩
  refine Ends.world fun w => ?_
  rcases hx : w.sessions base.world.nextSession with _ | x
  · rintro s ⟨hs, rfl⟩
    obtain ⟨x, hx'⟩ := hs.exists_session
    rw [hx] at hx'
    cases hx'
  · rintro s ⟨hs, rfl⟩
    obtain ⟨rfl, rfl, hreferences⟩ := hs.references hx
    have hless := hs.setReferences hx 0
    have hone : x.references = 1 := hreferences
    have hcount : x.references - 1 =
        ([] : List Callback).length + ([] : List Callback).length + 0 := by
      rw [hone]
      rfl
    have hclose := (hclosing x.target htarget).bind fun _ => hclosing x.client hclient
    simp only [held_references, held_setReferences, if_pos hone, hcount]
    exact hclose _ hless.toHolding

theorem length_push (hne : client ≠ target) (hfd : fd = client ∨ fd = target)
    (callback : Callback) :
    (push o fd callback client).length + (push o fd callback target).length =
      (o client).length + (o target).length + 1 := by
  unfold push
  rcases hfd with rfl | rfl
  · rw [Function.update_self, Function.update_of_ne (Ne.symm hne), List.length_append,
      List.length_singleton]
    omega
  · rw [Function.update_self, Function.update_of_ne hne, List.length_append,
      List.length_singleton]
    omega

/-- A callback is registered.  It takes over a hold. -/
theorem Making.pushBack (h : Making cfg base client target o (k + 1) s) (hne : client ≠ target)
    (hfd : fd = client ∨ fd = target) (hlistener : fd ≠ cfg.listener) {callback : Callback}
    (hcallback : callback.session? = some base.world.nextSession) :
    Making cfg base client target (push o fd callback) k
      (s.pushBack fd (callbacksAt s fd) (some callback)) := by
  obtain ⟨hself, hothers⟩ := own_pushBack s fd hcallback
  refine ⟨⟨⟨fun sid hne => ?_, h.frame.core, ?_, h.frame.marks⟩, ?_, ?_, h.nextSession⟩, h.marks⟩
  · rw [hothers sid hne]
    exact h.frame.own sid hne
  · have hmap : (s.pushBack fd (callbacksAt s fd) (some callback)).callbackMap cfg.listener =
        s.callbackMap cfg.listener := if_neg (Ne.symm hlistener)
    rw [hmap]
    exact h.frame.listening
  · have hlength := length_push (o := o) hne hfd callback
    have hcount : (o client).length + (o target).length + (k + 1) =
        (push o fd callback client).length + (push o fd callback target).length + k := by omega
    rw [← hcount]
    exact h.core
  · rw [hself, h.own]
    rfl

/-- A new entry has no callbacks yet. -/
theorem Making.emplace (h : Making cfg base client target o k s) (hlistener : fd ≠ cfg.listener)
    (hmap : s.callbackMap fd = none) :
    Making cfg base client target o k (s.setCallbacks fd (some [])) := by
  have hown := own_emplace hmap
  refine ⟨⟨⟨fun sid hne => ?_, h.frame.core, ?_, h.frame.marks⟩, h.core, ?_, h.nextSession⟩,
    h.marks⟩
  · rw [hown]
    exact h.frame.own sid hne
  · have hkept : (s.setCallbacks fd (some [])).callbackMap cfg.listener =
        s.callbackMap cfg.listener := if_neg (Ne.symm hlistener)
    rw [hkept]
    exact h.frame.listening
  · rw [hown]
    exact h.own

/-- `add_fd` registers the callback, or it is the first of its descriptor and there is an
exception. -/
theorem addFd_making (hne : client ≠ target) (hfd : fd = client ∨ fd = target)
    (hlistener : fd ≠ cfg.listener) {callback : Callback}
    (hcallback : callback.session? = some base.world.nextSession) :
    Ends cfg (Making cfg base client target o (k + 1)) (addFd fd callback) fun r s =>
      (r = .ok () ∧ Making cfg base client target (push o fd callback) k s) ∨
      ∃ e, r = .error e ∧ o fd = [] ∧ Making cfg base client target o (k + 1) s := by
  refine Ends.addFd (fun s w hs hmap _ hsessions hnext => ?_)
    fun s hs => hs.pushBack hne hfd hlistener hcallback
  have hempty : o fd = [] := by
    rw [← hs.own, own, callbacksAt, hmap]
    rfl
  have hnew : Making cfg base client target o (k + 1)
      { s.setCallbacks fd (some []) with world := w } :=
    (hs.emplace hlistener hmap).same (.of_eq rfl hsessions hnext rfl)
  exact ⟨hnew, hempty, hnew⟩

/-- **A callback is registered**, or it is the first of its descriptor and the start has
ended. -/
theorem register_making (hne : client ≠ target) (hfd : fd = client ∨ fd = target)
    (hlistener : fd ≠ cfg.listener) {callback : Callback}
    (hcallback : callback.session? = some base.world.nextSession) :
    Ends cfg (Making cfg base client target o (k + 1))
      (register cfg base.world.nextSession fd callback) fun r s =>
        (r = .ok () ∧ Making cfg base client target (push o fd callback) (k + 1) s) ∨
        ∃ e, r = .error e ∧ o fd = [] ∧ Making cfg base client target o (k + 1) s := by
  refine Ends.register (fun s hs => retain_making s hs)
    (addFd_making hne hfd hlistener hcallback) ?_
  rintro s ⟨hempty, hs⟩
  exact ⟨hempty, release_making (Nat.succ_pos _) s hs⟩

/-- A callback of a descriptor that has one already. -/
theorem register_more (hne : client ≠ target) (hfd : fd = client ∨ fd = target)
    (hlistener : fd ≠ cfg.listener) {callback : Callback}
    (hcallback : callback.session? = some base.world.nextSession) (hmore : o fd ≠ []) :
    Ends cfg (Making cfg base client target o (k + 1))
      (register cfg base.world.nextSession fd callback) fun r s =>
        r = .ok () ∧ Making cfg base client target (push o fd callback) (k + 1) s := by
  intro s hs
  rcases register_making hne hfd hlistener hcallback s hs with hok | ⟨e, -, hempty, -⟩
  · exact hok
  · exact absurd hempty hmore

theorem addHandlers_same (sid : SessionId) (base : ProxyBus η) :
    Stable cfg (Same base) (addHandlers cfg sid) := by
  refine Ends.modify fun s hs => hs.trans ?_
  rcases hx : s.world.sessions sid with _ | x
  · exact .of_eq rfl rfl rfl rfl
  · refine ⟨rfl, fun sid' => ?_, rfl, rfl⟩
    simp only [World.setSession]
    split
    · rename_i heq
      rw [heq, hx]
      rfl
    · rfl

theorem addHandlers_making :
    Ends cfg (Making cfg base client target o k) (addHandlers cfg base.world.nextSession)
      fun r s => (r = .ok () ∧ Making cfg base client target o k s) ∨
        ∃ e, r = .error e ∧ False :=
  fun s hs => Or.inl ⟨rfl, hs.same (addHandlers_same base.world.nextSession s s (Same.refl s))⟩

/-- All that a session registers. -/
def registrations (sid : SessionId) (client target : FileDescriptor) :
    FileDescriptor → List Callback := fun fd =>
  if fd = client then onClient sid else if fd = target then onTarget sid else []

/-- What a session has registered whose target's descriptor was refused by the kernel. -/
def firstOnly (sid : SessionId) (client : FileDescriptor) : FileDescriptor → List Callback :=
  push (fun _ => []) client (.left sid .lr)

/-- The callbacks of a session in the order they are registered. -/
theorem push_registrations (sid : SessionId) (hne : client ≠ target) :
    push (push (push (push (push (firstOnly sid client) target (.right sid .lr)) target
      (.left sid .rl)) client (.right sid .rl)) client (.session sid)) target (.session sid) =
    registrations sid client target := by
  ext fd' : 1
  unfold registrations firstOnly push
  by_cases hclient : fd' = client
  · subst hclient
    simp [Function.update, hne, onClient]
  · by_cases htarget : fd' = target
    · subst htarget
      simp [Function.update, hclient, onTarget]
    · simp [Function.update, hclient, htarget]

/-- A step of a start that may end it. -/
theorem Ends.next {code : ProxyCode η Unit} {f : Unit → ProxyCode η Unit}
    {P A : ProxyBus η → Prop} {B : Exception → ProxyBus η → Prop}
    {Q : Except Exception Unit → ProxyBus η → Prop}
    (hcode : Ends cfg P code fun r s => (r = .ok () ∧ A s) ∨ ∃ e, r = .error e ∧ B e s)
    (hf : Ends cfg A (f ()) Q) (herror : ∀ e s, B e s → Q (.error e) s) :
    Ends cfg P (code >>= f) Q := by
  refine Program.Triple.bind hcode (fun _ => hf.mono ?_ fun _ _ hs => hs) ?_
  · rintro s (⟨-, hs⟩ | ⟨e, ⟨⟩, -⟩)
    exact hs
  · rintro e s (⟨⟨⟩, -⟩ | ⟨e', he, hs⟩)
    obtain rfl := Except.error.inj he
    exact herror e s hs

/-- **The start of a session** registers everything, or it fails at the first callback of
one of the two descriptors. -/
theorem startSession_making (hne : client ≠ target) (hclient : client ≠ cfg.listener)
    (htarget : target ≠ cfg.listener) :
    Ends cfg (Making cfg base client target (fun _ => []) 1)
      (startSession cfg base.world.nextSession client target) fun r s =>
        (r = .ok () ∧ Making cfg base client target
          (registrations base.world.nextSession client target) 1 s) ∨
        ∃ e, r = .error e ∧ (Making cfg base client target (fun _ => []) 1 s ∨
          Making cfg base client target (firstOnly base.world.nextSession client) 1 s) := by
  have hmore : ∀ {o : FileDescriptor → List Callback} {fd : FileDescriptor} {callback : Callback},
      (fd = client ∨ fd = target) → callback.session? = some base.world.nextSession →
      o fd ≠ [] → Ends cfg (Making cfg base client target o 1)
        (register cfg base.world.nextSession fd callback) fun r s =>
          (r = .ok () ∧ Making cfg base client target (push o fd callback) 1 s) ∨
            ∃ e, r = .error e ∧ False := by
    intro o fd callback hfd hcallback hsome
    have hlistener : fd ≠ cfg.listener := by
      rcases hfd with rfl | rfl
      · exact hclient
      · exact htarget
    exact (register_more hne hfd hlistener hcallback hsome).mono (fun _ hs => hs)
      fun _ _ hs => Or.inl hs
  have hpushed : ∀ (o : FileDescriptor → List Callback) fd callback,
      push o fd callback fd ≠ [] := by
    intro o fd callback
    simp [push]
  unfold startSession
  refine Ends.next (register_making hne (Or.inl rfl) hclient rfl) ?_
    fun e s hs => Or.inr ⟨e, rfl, Or.inl hs.2⟩
  refine Ends.next (register_making hne (Or.inr rfl) htarget rfl) ?_
    fun e s hs => Or.inr ⟨e, rfl, Or.inr hs.2⟩
  refine Ends.next (hmore (Or.inr rfl) rfl (hpushed _ _ _)) ?_ fun e s hs => hs.elim
  refine Ends.next (hmore (Or.inl rfl) rfl ?_) ?_ fun e s hs => hs.elim
  · simp [push, Function.update, hne]
  refine Ends.next addHandlers_making ?_ fun e s hs => hs.elim
  refine Ends.next (hmore (Or.inl rfl) rfl (hpushed _ _ _)) ?_ fun e s hs => hs.elim
  refine (hmore (Or.inr rfl) rfl ?_).mono (fun _ hs => hs) ?_
  · simp [push, Function.update, Ne.symm hne]
  · rintro r s (⟨rfl, hs⟩ | ⟨e, -, ⟨⟩⟩)
    rw [← push_registrations _ hne]
    exact Or.inl ⟨rfl, hs⟩

/-! ## The acceptor -/

/-- What has become of a session: it has started, and its callbacks are its only holders;
its start has failed for the target's descriptor; or for the client's, and it has been
destroyed. -/
inductive Made (cfg : Config η) (base : ProxyBus η) (client target : FileDescriptor) :
    Except Exception Unit → ProxyBus η → Prop
  | started {s : ProxyBus η} (hs : Making cfg base client target
      (registrations base.world.nextSession client target) 0 s) :
      Made cfg base client target (.ok ()) s
  | halted {s : ProxyBus η} (e : Exception) (hs : Making cfg base client target
      (firstOnly base.world.nextSession client) 0 s) : Made cfg base client target (.error e) s
  | undone {s : ProxyBus η} (e : Exception)
      (hs : Holding cfg base client target (fun _ => []) 0 s) :
      Made cfg base client target (.error e) s

/-- No session is made. -/
structure Idle (cfg : Config η) (base s : ProxyBus η) : Prop where
  frame : Frame cfg base s
  core : (s.world.sessions base.world.nextSession).map Session.core =
    (base.world.sessions base.world.nextSession).map Session.core
  own : own s base.world.nextSession = own base base.world.nextSession
  nextSession : s.world.nextSession = base.world.nextSession

theorem Same.idle (h : Same base s) : Idle cfg base s := by
  refine ⟨h.frame, h.core _, ?_, h.nextSession⟩
  rw [own_of_callbackMap h.callbackMap]

theorem Idle.same (h : Idle cfg base s) (h' : Same s t) : Idle cfg base t := by
  refine ⟨h.frame.same h', (h'.core _).trans h.core, ?_, h'.nextSession.trans h.nextSession⟩
  rw [own_of_callbackMap h'.callbackMap]
  exact h.own

/-- Who is alive is read off what an event of a channel does not change. -/
theorem World.Live.congr {w w' : World η} {sid : SessionId} {x : Session η} (hx : w.Live sid x)
    (hcore : (w'.sessions sid).map Session.core = (w.sessions sid).map Session.core) :
    ∃ y, w'.Live sid y ∧ y.fds = x.fds := by
  rw [hx.1, Option.map_some] at hcore
  obtain ⟨y, hy, heq⟩ := Option.map_eq_some_iff.mp hcore
  rw [Session.core, Session.core, Prod.mk.injEq, Prod.mk.injEq] at heq
  obtain ⟨hclient, htarget, hreferences⟩ := heq
  refine ⟨y, ⟨hy, ?_⟩, ?_⟩
  · rw [hreferences]
    exact hx.2
  · rw [Session.fds, Session.fds, hclient, htarget]

theorem Same.unused (h : Same base s) (hfd : World.Unused cfg s.world fd) :
    World.Unused cfg base.world fd := by
  refine ⟨hfd.1, fun sid x hx => ?_⟩
  obtain ⟨y, hy, hfds⟩ := hx.congr (h.core sid)
  rw [← hfds]
  exact hfd.2 sid y hy

theorem newSession_making (hbase : own base base.world.nextSession = fun _ => []) :
    Ends cfg (Same base) (newSession cfg client target) fun r s =>
      r = .ok base.world.nextSession ∧ Making cfg base client target (fun _ => []) 1 s := by
  intro s hs
  have hnext := hs.nextSession
  refine ⟨congrArg Except.ok hnext, ⟨⟨⟨fun sid hne => ?_, fun sid hne => ?_, ?_, ?_⟩, ?_, ?_, ?_⟩,
    hs.marks⟩⟩
  · exact congrFun (own_of_callbackMap hs.callbackMap) sid
  · show (if sid = s.world.nextSession then some _ else s.world.sessions sid).map _ = _
    rw [hnext, if_neg hne]
    exact hs.core sid
  · exact congrFun hs.callbackMap cfg.listener
  · exact hs.frame.marks
  · show (if base.world.nextSession = s.world.nextSession then some _ else _).map _ = _
    rw [if_pos hnext.symm]
    rfl
  · exact (congrFun (own_of_callbackMap hs.callbackMap) _).trans hbase
  · exact congrArg (· + 1) hnext

/-! `~socket` lets no exception out, and neither does letting go of a session. -/

theorem closeConnectionNoexcept_ok (fd : FileDescriptor) (s : ProxyBus η) :
    (s.exec (host cfg) (closeConnectionNoexcept cfg fd)).1 = .ok () := by
  simp only [Bus.exec, closeConnectionNoexcept, Program.exec_bind, Program.exec_attempt,
    Program.andThen_ok, Program.exec_pure]

theorem release_ok (sid : SessionId) (s : ProxyBus η) :
    (s.exec (host cfg) (release cfg sid)).1 = .ok () := by
  have hends : Ends cfg (fun _ => True) (release cfg sid) fun r _ => r = .ok () := by
    refine Ends.world fun w => ?_
    split
    · exact Program.Triple.pure fun _ _ => rfl
    · refine Program.Triple.bind (R := fun r _ => r = .ok ()) (Ends.setWorld fun _ _ => rfl)
        (fun _ => ?_) fun e _ he => he
      split
      · refine Program.Triple.bind (R := fun r _ => r = .ok ())
          (fun t _ => closeConnectionNoexcept_ok _ t) (fun _ => ?_) fun e _ he => he
        exact fun t _ => closeConnectionNoexcept_ok _ t
      · exact Program.Triple.pure fun _ _ => rfl
  exact hends s trivial

/-- The stack lets go of the session, and the outcome of the start is passed on. -/
theorem release_rethrow {P A : ProxyBus η → Prop} {r : Except Exception Unit}
    {Q : Except Exception Unit → ProxyBus η → Prop}
    (h : Ends cfg P (release cfg base.world.nextSession) fun _ => A) (hQ : ∀ s, A s → Q r s) :
    Ends cfg P (do
      release cfg base.world.nextSession
      rethrow r) Q := by
  refine Program.Triple.bind (R := fun r s => r = .ok () ∧ A s)
    (fun s hs => ⟨release_ok _ s, h s hs⟩) (fun _ => ?_) (by rintro e s ⟨⟨⟩, -⟩)
  cases r with
  | ok a => exact Program.Triple.pure fun s hs => hQ s hs.2
  | error e => exact Program.Triple.throw fun s hs => hQ s hs.2

/-- A session is made and started, and the stack lets go of it. -/
theorem startNew_made (hbase : own base base.world.nextSession = fun _ => [])
    (hne : client ≠ target) (hclient : World.Unused cfg base.world client)
    (htarget : World.Unused cfg base.world target) :
    Ends cfg (Same base) (do
      let sid ← newSession cfg client target
      let started ← (startSession cfg sid client target).attempt
      release cfg sid
      rethrow started) (Made cfg base client target) := by
  have hregistered : 0 < (registrations base.world.nextSession client target client).length := by
    rw [registrations, if_pos rfl]
    exact Nat.succ_pos _
  have hfirst : 0 < (firstOnly base.world.nextSession client client).length := by
    simp [firstOnly, push]
  refine Program.Triple.bind (newSession_making hbase) ?_ (by rintro e s ⟨⟨⟩, -⟩)
  rintro sid s ⟨hsid, hs⟩
  obtain rfl := Except.ok.inj hsid
  refine Program.Triple.bind (R := fun r s => ∃ r', r = .ok r' ∧
    ((r' = .ok () ∧ Making cfg base client target
      (registrations base.world.nextSession client target) 1 s) ∨
    ∃ e, r' = .error e ∧ (Making cfg base client target (fun _ => []) 1 s ∨
      Making cfg base client target (firstOnly base.world.nextSession client) 1 s)))
    ?_ ?_ ?_ s hs
  · exact Program.Triple.attempt ((startSession_making hne hclient.1 htarget.1).mono
      (fun _ hs => hs) fun r s hs => ⟨r, rfl, hs⟩)
  · rintro started s ⟨r', hr', hcases⟩
    obtain rfl := Except.ok.inj hr'
    rcases hcases with ⟨rfl, hs⟩ | ⟨e, rfl, hs | hs⟩
    · exact release_rethrow (release_making (by omega)) (fun s hs => .started hs) s hs
    · exact release_rethrow (release_last hclient htarget) (fun s hs => .undone e hs) s hs
    · exact release_rethrow (release_making (by omega)) (fun s hs => .halted e hs) s hs
  · rintro e s ⟨r', ⟨⟩, -⟩

/-- **A new session**, or none because the target cannot be reached. -/
theorem makeNewSession_made (held : List SessionId)
    (hbase : own base base.world.nextSession = fun _ => []) (fd : FileDescriptor) :
    Ends cfg (fun s => Lives cfg held [fd] s ∧ Same base s) (makeNewSession cfg fd) fun r s =>
      (∃ target, Made cfg base fd target r s) ∨ ∃ e, r = .error e ∧ Idle cfg base s := by
  refine Program.Triple.bind (R := fun r s => ∃ r', r = .ok r' ∧
    Connected cfg held [fd] r' s ∧ Same base s) ?_ ?_ (by rintro e s ⟨r', ⟨⟩, -⟩)
  · exact Program.Triple.attempt (((openSocket_ends cfg.addresses).and
      (openSocket_same cfg.addresses)).mono (fun _ hs => hs) fun r s hs => ⟨r, rfl, hs⟩)
  · rintro (e | target)
    · refine Program.Triple.bind (R := fun _ => Idle cfg base) ?_
        (fun _ => Program.Triple.throw fun s hs => Or.inr ⟨e, rfl, hs⟩)
        fun e' s hs => Or.inr ⟨e', rfl, hs⟩
      rintro s ⟨r', -, hs, hsame⟩
      have hunused := hsame.unused (hs.1.world.reserved fd List.mem_cons_self).2.2
      exact closeConnectionNoexcept_stable (P := Idle cfg base) (fun _ _ h h' => h.same h')
        (fun _ h => ⟨h.frame.mark hunused, h.core, h.own, h.nextSession⟩) s hsame.idle
    · rintro s ⟨r', hr, ⟨-, htarget⟩, hsame⟩
      obtain ⟨hlives, hnew⟩ := htarget target (Except.ok.inj hr).symm
      have hne : fd ≠ target := fun heq => hnew (List.mem_singleton.mpr heq.symm)
      have hclient := hsame.unused (hlives.world.reserved fd (by simp)).2.2
      have htarget := hsame.unused (hlives.world.reserved target (by simp)).2.2
      exact Or.inl ⟨target, startNew_made hbase hne hclient htarget s hsame⟩

/-- **An event of the acceptor** makes at most one session.  When it makes one and there is
no exception, the session has started. -/
theorem acceptEvent_made {held : List SessionId} (hbase : Lives cfg held [] base)
    (fd : FileDescriptor) (mask : Flags) :
    Ends cfg (fun s => s = base) (acceptEvent cfg (makeNewSession cfg) fd mask) fun r s =>
      (∃ client target, Made cfg base client target r s) ∨ Idle cfg base s := by
  refine Program.Triple.mono (P := fun s => Lives cfg held [] s ∧ Same base s) ?_ ?_
    fun _ _ hs => hs
  · refine Program.Triple.bind ((acceptNewClient_ends fd mask).and (acceptNewClient_same fd mask))
      (fun conn => ?_) fun e s hs => Or.inr hs.2.idle
    split
    · rename_i hpos
      refine (makeNewSession_made held hbase.own_unborn conn).mono ?_ ?_
      · exact fun s hs => ⟨hs.1.2 conn rfl hpos, hs.2⟩
      · rintro r s (⟨target, hs⟩ | ⟨e, -, hs⟩)
        · exact Or.inl ⟨conn, target, hs⟩
        · exact Or.inr hs
    · exact Program.Triple.pure fun s hs => Or.inr hs.2.idle
  · rintro s rfl
    exact ⟨hbase, Same.refl s⟩

end Making

end Proxy
end PsqlTcpProxy
