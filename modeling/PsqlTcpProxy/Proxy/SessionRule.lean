import PsqlTcpProxy.Proxy.Failure

/-!
# What holds of every session

A session of a proxy server changes in few ways.  It is made, it gets its input callbacks,
somebody gets hold of it or lets go of it, and a handler of one of its channels runs.
`SessionRule` asks of a statement that it survives these, and `Everywhere` is what follows: it
holds of every session that has got its input callbacks, after every callback
(`callback_everywhere`), so after every dispatch (`Everywhere.dispatch`) and at every moment of
every run (`session_rule`).

A start that fails leaves a session without them.  Such a session is `Bare`, and never has as
many holders as one that has started.

The statement may speak of the queue of the bus too, as long as it survives more events.
-/

namespace PsqlTcpProxy

namespace Io
namespace Channel

variable {η : Type} {c : Channel η} {o : Outcome η}

/-- What the input callbacks have captured after an event. -/
def capturedAfter (c : Channel η) (o : Outcome η) : η :=
  match o.readCall with
  | none => c.handlerState
  | some res => (runHandlers c.handlers c.handlerState res).state

theorem readPart_captured {fd : FileDescriptor} {read : ReadResult CHUNK_SZ}
    (h : c.readPart fd read = some o) : o.channel.handlerState = c.capturedAfter o := by
  obtain ⟨b, ⟨-, rfl⟩ | ⟨err, -, rfl⟩ | ⟨bytes, -, rfl⟩⟩ := readPart_inv h
  · rfl
  · rfl
  · rfl

theorem writePart_captured {fd : FileDescriptor}
    {write : (offered : List UInt8) → WriteResult offered.length}
    (h : c.writePart fd write = some o) :
    o.channel.handlerState = c.handlerState ∧ o.readCall = none := by
  obtain ⟨b, events, writeCall, rfl, -⟩ := writePart_inv h
  exact ⟨rfl, rfl⟩

/-- **Only a read runs the input callbacks.** -/
theorem handle_captured {e : ChannelEvent} (h : c.handle e = some o) :
    o.channel.handlerState = c.capturedAfter o := by
  cases e with
  | left fd mask read write =>
    simp only [handle, handleLeftIoEvent] at h
    split at h
    · obtain ⟨o₁, ho₁, h⟩ := Option.bind_eq_some_iff.mp h
      have hread := readPart_captured ho₁
      split at h
      · obtain rfl := Option.some.inj h
        exact hread
      · obtain ⟨o₂, ho₂, rfl⟩ := Option.map_eq_some_iff.mp h
        exact (writePart_captured ho₂).1.trans hread
    · obtain rfl := Option.some.inj h
      rfl
  | right fd mask write =>
    simp only [handle, handleRightIoEvent] at h
    split at h
    · obtain ⟨hstate, hcall⟩ := writePart_captured h
      rw [capturedAfter, hcall, hstate]
    · obtain rfl := Option.some.inj h
      rfl

end Channel
end Io

namespace Proxy

open Library Io Server

variable {η α : Type} {cfg : Config η}

/-! ## Sessions -/

/-- A session as the constructor of its channels leaves it. -/
def newborn (cfg : Config η) (client target : FileDescriptor) (references : ℕ) : Session η :=
  { client, target
    lr := .start (.make cfg.memory client target [] (cfg.handlerState client))
    rl := .start (.make cfg.memory target client [] (cfg.handlerState client))
    references }

namespace Session

/-- The session with its input callbacks. -/
def attach (cfg : Config η) (x : Session η) : Session η :=
  { x with lr := { x.lr with channel := { x.lr.channel with handlers := cfg.handlers x.client } } }

/-- It has got its input callbacks. -/
def Attached (cfg : Config η) (x : Session η) : Prop :=
  x.lr.channel.handlers = cfg.handlers x.client

/-- It has not, and it has not started. -/
structure Bare (cfg : Config η) (x : Session η) : Prop where
  handlers : x.lr.channel.handlers = []
  handlerState : x.lr.channel.handlerState = cfg.handlerState x.client
  references : x.references ≤ 5

theorem bare_newborn (client target : FileDescriptor) {n : ℕ} (hn : n ≤ 5) :
    (newborn cfg client target n).Bare cfg := ⟨rfl, rfl, hn⟩

theorem Bare.counted {x : Session η} (h : x.Bare cfg) {n : ℕ} (hn : n ≤ x.references) :
    ({ x with references := n } : Session η).Bare cfg :=
  ⟨h.handlers, h.handlerState, Nat.le_trans hn h.references⟩

end Session

/-- What a statement about a session and the queue has to survive. -/
structure SessionRule (cfg : Config η) (Q : SessionId → Session η → List Event → Prop) : Prop where
  /-- More events. -/
  more : ∀ {sid x evs evs'}, Q sid x evs → (∀ e ∈ evs, e ∈ evs') → Q sid x evs'
  /-- A new session gets its input callbacks. -/
  attached : ∀ sid client target n evs, Q sid ((newborn cfg client target n).attach cfg) evs
  /-- Another number of holders. -/
  counted : ∀ {sid x evs} n, Q sid x evs → Q sid { x with references := n } evs
  /-- A handler of one of its channels has run, and its events are enqueued. -/
  event : ∀ {sid x dir e o evs}, x.Attached cfg → Q sid x evs →
    (x.flow dir).channel.handle e = some o →
    Q sid (x.setFlow dir ((x.flow dir).after o)) (evs ++ o.events)

/-- It holds of every session that has got its input callbacks. -/
def Everywhere (cfg : Config η) (Q : SessionId → Session η → List Event → Prop)
    (s : ProxyBus η) : Prop :=
  ∀ sid x, s.world.sessions sid = some x → x.Bare cfg ∨ x.Attached cfg ∧ Q sid x s.events

variable {Q : SessionId → Session η → List Event → Prop} {s t : ProxyBus η} {sid : SessionId}

namespace Everywhere

theorem of_eq (hQ : SessionRule cfg Q) (h : Everywhere cfg Q s)
    (hsessions : t.world.sessions = s.world.sessions) (hevents : ∀ e ∈ s.events, e ∈ t.events) :
    Everywhere cfg Q t := by
  intro sid x hx
  rw [hsessions] at hx
  exact (h sid x hx).imp_right fun hright => ⟨hright.1, hQ.more hright.2 hevents⟩

/-- A session is replaced, and events are enqueued. -/
theorem setSession (hQ : SessionRule cfg Q) (h : Everywhere cfg Q s) {x : Session η}
    (hsessions : t.world.sessions = (s.world.setSession sid x).sessions)
    (hevents : ∀ e ∈ s.events, e ∈ t.events)
    (hx : x.Bare cfg ∨ x.Attached cfg ∧ Q sid x t.events) : Everywhere cfg Q t := by
  intro sid' y hy
  rw [hsessions] at hy
  by_cases heq : sid' = sid
  · subst heq
    obtain rfl := Option.some.inj ((if_pos rfl).symm.trans hy)
    exact hx
  · refine (h sid' y ((if_neg heq).symm.trans hy)).imp_right fun hright => ?_
    exact ⟨hright.1, hQ.more hright.2 hevents⟩

end Everywhere

/-! ## Code that leaves the channels alone -/

section Quiet

variable (hQ : SessionRule cfg Q)
include hQ

theorem enqueueEvent_everywhere (ev : Event) :
    Stable cfg (Everywhere cfg Q) (enqueueEvent ev) :=
  Program.Triple.lift fun _ hs => hs.of_eq hQ rfl fun _ he => List.mem_append_left _ he

theorem delFdCallbacks_everywhere (fd : FileDescriptor) :
    Stable cfg (Everywhere cfg Q) (delFdCallbacks fd) :=
  Program.Triple.lift fun _ hs => hs.of_eq hQ rfl fun _ he => he

theorem closeConnectionNoexcept_everywhere (fd : FileDescriptor) :
    Stable cfg (Everywhere cfg Q) (closeConnectionNoexcept cfg fd) :=
  Stable.closeConnectionNoexcept (fun _ hs => hs.of_eq hQ rfl fun _ he => he)
    fun _ _ hs hsessions _ _ => hs.of_eq hQ hsessions fun _ he => he

/-- Somebody lets go of a session. -/
theorem release_everywhere (sid : SessionId) :
    Stable cfg (Everywhere cfg Q) (release cfg sid) := by
  refine release_rule (fun _ hs _ => hs) (fun s x hs hx => ?_)
    (fun _ _ _ _ fd _ => closeConnectionNoexcept_everywhere hQ fd)
  refine hs.setSession hQ rfl (fun _ he => he) ?_
  exact (hs sid x hx).imp (fun hbare => hbare.counted (Nat.sub_le _ _))
    fun hright => ⟨hright.1, hQ.counted _ hright.2⟩

theorem destroy_everywhere (callback : Callback) :
    Stable cfg (Everywhere cfg Q) (destroy cfg callback) :=
  Stable.destroy (release_everywhere hQ) callback

end Quiet

/-! ## An event of a channel -/

/-- Events that are enqueued one after the other. -/
theorem enqueueAll_exec (cfg : Config η) (evs : List Event) (s : ProxyBus η) :
    s.exec (host cfg) (enqueueAll evs) =
      (.ok (), { s with events := s.events ++ evs, trace := s.trace ++ evs.map .enqueued }) := by
  induction evs generalizing s with
  | nil =>
    rw [List.append_nil, List.map_nil, List.append_nil]
    rfl
  | cons ev evs ih =>
    have hrest := ih ((s.perform (host cfg) (.enqueueEvent ev)).2)
    rw [List.map_cons, List.append_cons s.events ev evs, List.append_cons s.trace (.enqueued ev)]
    exact hrest

/-- **The rule of a channel's callback**, when what it keeps is about the queue too. -/
theorem channelEvent_rule {P : ProxyBus η → Prop}
    {handle : Channel η → Answer → ℤ → Option (Outcome η)} {dir : Direction}
    (htick : ∀ s, P s → P { s with world := { s.world with tick := s.world.tick + 1 } })
    (hafter : ∀ s x o tick errno trace, P s → s.world.sessions sid = some x →
      handle (x.flow dir).channel (cfg.kernel tick) s.world.errno = some o →
      P { s with
        world := { s.world.setSession sid (x.setFlow dir ((x.flow dir).after o)) with errno }
        events := s.events ++ o.events
        trace }) :
    Stable cfg P (channelEvent cfg sid dir handle) := by
  refine Ends.ask htick fun answer hanswer => Ends.world fun w => ?_
  obtain ⟨tick, rfl⟩ := hanswer
  rcases hx : w.sessions sid with _ | x
  · exact Program.Triple.pure fun s hs => hs.1
  · simp only
    rcases ho : handle (x.flow dir).channel (cfg.kernel tick) w.errno with _ | o
    · exact Program.Triple.pure fun s hs => hs.1
    · rintro s ⟨hs, rfl⟩
      let errno := handlerErrno (x.flow dir).channel (cfg.kernel tick) s.world.errno o
      let w' := { s.world.setSession sid (x.setFlow dir ((x.flow dir).after o)) with errno }
      have hdone := hafter s x o tick errno (s.trace ++ o.events.map .enqueued) hs hx ho
      have hall : Ends cfg (fun t => t = { s with world := w' }) (enqueueAll o.events)
          fun _ => P := by
        rintro t rfl
        have hstate := congrArg Prod.snd (enqueueAll_exec cfg o.events { s with world := w' })
        simp only [Bus.exec] at hstate
        rw [hstate]
        exact hdone
      refine (Program.Triple.bind hall (fun _ => ?_) fun _ _ ht => ht :
        Ends cfg _ _ fun _ => P) _ rfl
      split
      · exact Program.Keeps.throw _
      · exact Program.Keeps.pure ()

/-- Without input callbacks nothing is captured. -/
theorem Session.Bare.event {x : Session η} {dir : Direction} {e : ChannelEvent} {o : Outcome η}
    (h : x.Bare cfg) (ho : (x.flow dir).channel.handle e = some o) :
    (x.setFlow dir ((x.flow dir).after o)).Bare cfg := by
  cases dir with
  | rl => exact ⟨h.handlers, h.handlerState, h.references⟩
  | lr =>
    refine ⟨(Channel.handle_handlers ho).trans h.handlers, ?_, h.references⟩
    refine (Channel.handle_captured ho).trans ?_
    have hnone : x.lr.channel.handlers = [] := h.handlers
    rcases hcall : o.readCall with _ | res
    · rw [Channel.capturedAfter, hcall]
      exact h.handlerState
    · rw [Channel.capturedAfter, hcall]
      show (runHandlers x.lr.channel.handlers _ res).state = _
      rw [hnone]
      exact h.handlerState

theorem Session.Attached.event {x : Session η} {dir : Direction} {e : ChannelEvent}
    {o : Outcome η} (h : x.Attached cfg) (ho : (x.flow dir).channel.handle e = some o) :
    (x.setFlow dir ((x.flow dir).after o)).Attached cfg := by
  cases dir with
  | rl => exact h
  | lr => exact (Channel.handle_handlers ho).trans h

section Events

variable (hQ : SessionRule cfg Q)
include hQ

theorem channelEvent_everywhere {handle : Channel η → Answer → ℤ → Option (Outcome η)}
    (hhandle : ∀ c tick errno, ∃ e, handle c (cfg.kernel tick) errno = c.handle e)
    (sid : SessionId) (dir : Direction) :
    Stable cfg (Everywhere cfg Q) (channelEvent cfg sid dir handle) := by
  refine channelEvent_rule (fun s hs => hs.of_eq hQ rfl fun _ he => he)
    fun s x o tick errno trace hs hx ho => ?_
  obtain ⟨e, he⟩ := hhandle (x.flow dir).channel tick s.world.errno
  rw [he] at ho
  refine hs.setSession hQ rfl (fun _ he => List.mem_append_left _ he) ?_
  exact (hs sid x hx).imp (fun hbare => hbare.event ho)
    fun hright => ⟨hright.1.event ho, hQ.event hright.1 hright.2 ho⟩

theorem leftEvent_everywhere (sid : SessionId) (dir : Direction) (fd : FileDescriptor)
    (mask : Flags) : Stable cfg (Everywhere cfg Q) (leftEvent cfg sid dir fd mask) :=
  channelEvent_everywhere hQ (fun c tick errno =>
    ⟨.left fd mask (asyncReadSome c.left errno (cfg.kernel tick).recv) fun offered =>
      asyncWriteSome c.right (readErrno c (cfg.kernel tick) errno)
        ((cfg.kernel tick).send offered), rfl⟩) sid dir

theorem rightEvent_everywhere (sid : SessionId) (dir : Direction) (fd : FileDescriptor)
    (mask : Flags) : Stable cfg (Everywhere cfg Q) (rightEvent cfg sid dir fd mask) :=
  channelEvent_everywhere hQ (fun c tick errno =>
    ⟨.right fd mask fun offered =>
      asyncWriteSome c.right errno ((cfg.kernel tick).send offered), rfl⟩) sid dir

end Events

/-! ## A session that starts -/

/-- The session is new, and at most `n` hold it. -/
structure Newly (cfg : Config η) (Q : SessionId → Session η → List Event → Prop)
    (sid : SessionId) (n : ℕ) (s : ProxyBus η) : Prop where
  everywhere : Everywhere cfg Q s
  session : ∃ client target k, k ≤ n ∧
    s.world.sessions sid = some (newborn cfg client target k)

/-- The session has got its input callbacks. -/
structure Equipped (cfg : Config η) (Q : SessionId → Session η → List Event → Prop)
    (sid : SessionId) (s : ProxyBus η) : Prop where
  everywhere : Everywhere cfg Q s
  session : ∃ x, s.world.sessions sid = some x ∧ x.Attached cfg ∧ Q sid x s.events

/-- What `add_fd` keeps that does not look at the callbacks. -/
theorem addFd_rule {P : ProxyBus η → Prop}
    (hP : ∀ s t, P s → t.world.sessions = s.world.sessions → t.events = s.events → P t)
    (fd : FileDescriptor) (callback : Callback) :
    Ends cfg P (addFd fd callback) fun r s => (r = .ok () ∧ P s) ∨ ∃ e, r = .error e ∧ P s :=
  Ends.addFd (fun s _ hs _ _ hsessions _ => ⟨hP s _ hs hsessions rfl, hP s _ hs hsessions rfl⟩)
    fun s hs => hP s _ hs rfl rfl

section Start

variable (hQ : SessionRule cfg Q)
include hQ

theorem Newly.of_eq {n : ℕ} (h : Newly cfg Q sid n s)
    (hsessions : t.world.sessions = s.world.sessions) (hevents : ∀ e ∈ s.events, e ∈ t.events) :
    Newly cfg Q sid n t := by
  refine ⟨h.everywhere.of_eq hQ hsessions hevents, ?_⟩
  rw [hsessions]
  exact h.session

theorem Equipped.of_eq (h : Equipped cfg Q sid s)
    (hsessions : t.world.sessions = s.world.sessions) (hevents : ∀ e ∈ s.events, e ∈ t.events) :
    Equipped cfg Q sid t := by
  refine ⟨h.everywhere.of_eq hQ hsessions hevents, ?_⟩
  obtain ⟨x, hx, hattached, hx'⟩ := h.session
  exact ⟨x, (congrFun hsessions sid).trans hx, hattached, hQ.more hx' hevents⟩

/-- One holder more. -/
theorem Newly.retain {n : ℕ} (hn : n + 1 ≤ 5) (h : Newly cfg Q sid n s) :
    Newly cfg Q sid (n + 1) { s with world := s.world.retain sid } := by
  obtain ⟨client, target, k, hk, hx⟩ := h.session
  have hsessions : (s.world.retain sid).sessions =
      (s.world.setSession sid (newborn cfg client target (k + 1))).sessions := by
    rw [World.retain_of_some hx]
    rfl
  refine ⟨h.everywhere.setSession hQ hsessions (fun _ he => he) ?_, client, target, k + 1,
    Nat.succ_le_succ hk, ?_⟩
  · exact Or.inl (Session.bare_newborn client target (by omega))
  · exact (congrFun hsessions sid).trans (if_pos rfl)

theorem Equipped.retain (h : Equipped cfg Q sid s) :
    Equipped cfg Q sid { s with world := s.world.retain sid } := by
  obtain ⟨x, hx, hattached, hx'⟩ := h.session
  have hsessions : (s.world.retain sid).sessions =
      (s.world.setSession sid { x with references := x.references + 1 }).sessions := by
    rw [World.retain_of_some hx]
  have hcounted := hQ.counted (x.references + 1) hx'
  refine ⟨h.everywhere.setSession hQ hsessions (fun _ he => he) (Or.inr ⟨hattached, hcounted⟩),
    _, (congrFun hsessions sid).trans (if_pos rfl), hattached, hcounted⟩

/-- **A callback of a new session.** -/
theorem register_newly {n : ℕ} (hn : n + 1 ≤ 5) (fd : FileDescriptor) (callback : Callback) :
    Ends cfg (Newly cfg Q sid n) (register cfg sid fd callback) fun r s =>
      (r = .ok () ∧ Newly cfg Q sid (n + 1) s) ∨ ∃ e, r = .error e ∧ Everywhere cfg Q s := by
  refine Ends.register (fun s hs => hs.retain hQ hn)
    (addFd_rule (fun s t hs hsessions hevents => hs.of_eq hQ hsessions ?_) fd callback)
    fun s hs => release_everywhere hQ sid s hs.everywhere
  rw [hevents]
  exact fun _ he => he

/-- **A callback of a session with its input callbacks.** -/
theorem register_equipped (fd : FileDescriptor) (callback : Callback) :
    Ends cfg (Equipped cfg Q sid) (register cfg sid fd callback) fun r s =>
      (r = .ok () ∧ Equipped cfg Q sid s) ∨ ∃ e, r = .error e ∧ Everywhere cfg Q s := by
  refine Ends.register (fun s hs => hs.retain hQ)
    (addFd_rule (fun s t hs hsessions hevents => hs.of_eq hQ hsessions ?_) fd callback)
    fun s hs => release_everywhere hQ sid s hs.everywhere
  rw [hevents]
  exact fun _ he => he

/-- **The input callbacks** are added before anything has passed the session. -/
theorem addHandlers_newly {n : ℕ} :
    Ends cfg (Newly cfg Q sid n) (addHandlers cfg sid) fun r s =>
      (r = .ok () ∧ Equipped cfg Q sid s) ∨ ∃ e, r = .error e ∧ Everywhere cfg Q s := by
  refine Ends.modify fun s hs => Or.inl ⟨rfl, ?_⟩
  obtain ⟨client, target, k, -, hx⟩ := hs.session
  have hattached := hQ.attached sid client target k s.events
  simp only [hx]
  exact ⟨hs.everywhere.setSession hQ rfl (fun _ he => he) (Or.inr ⟨rfl, hattached⟩),
    _, if_pos rfl, rfl, hattached⟩

/-- **The start of a session.** -/
theorem startSession_everywhere (client target : FileDescriptor) :
    Ends cfg (Newly cfg Q sid 1) (startSession cfg sid client target)
      fun _ => Everywhere cfg Q := by
  unfold startSession
  refine Ends.next (register_newly hQ (by omega) client _) ?_ fun _ _ hs => hs
  refine Ends.next (register_newly hQ (by omega) target _) ?_ fun _ _ hs => hs
  refine Ends.next (register_newly hQ (by omega) target _) ?_ fun _ _ hs => hs
  refine Ends.next (register_newly hQ (by omega) client _) ?_ fun _ _ hs => hs
  refine Ends.next (addHandlers_newly hQ) ?_ fun _ _ hs => hs
  refine Ends.next (register_equipped hQ client _) ?_ fun _ _ hs => hs
  refine (register_equipped hQ target _).mono (fun _ hs => hs) ?_
  rintro r s (⟨-, hs⟩ | ⟨e, -, hs⟩)
  · exact hs.everywhere
  · exact hs

theorem newSession_newly (client target : FileDescriptor) :
    Ends cfg (Everywhere cfg Q) (newSession cfg client target) fun r s =>
      ∃ sid, r = .ok sid ∧ Newly cfg Q sid 1 s := by
  intro s hs
  refine ⟨s.world.nextSession, rfl, ?_, client, target, 1, Nat.le_refl 1, if_pos rfl⟩
  refine hs.setSession hQ rfl (fun _ he => he) (Or.inl ?_)
  exact Session.bare_newborn client target (by omega)

theorem openSocket_everywhere (n : ℕ) : Stable cfg (Everywhere cfg Q) (openSocket cfg n) :=
  openSocket_rule (fun _ _ hs hsessions _ => hs.of_eq hQ hsessions fun _ he => he) n

theorem makeNewSession_everywhere (fd : FileDescriptor) :
    Stable cfg (Everywhere cfg Q) (makeNewSession cfg fd) := by
  refine (openSocket_everywhere hQ cfg.addresses).attempt.bind fun connected => ?_
  cases connected with
  | error e =>
    exact (closeConnectionNoexcept_everywhere hQ fd).bind fun _ => Program.Keeps.throw e
  | ok target =>
    refine Program.Triple.bind (newSession_newly hQ fd target) (fun sid => ?_)
      (by rintro e s ⟨sid, ⟨⟩, -⟩)
    refine Program.Triple.bind (R := fun _ => Everywhere cfg Q) ?_ (fun started => ?_)
      fun _ _ hs => hs
    · refine Program.Triple.attempt ((startSession_everywhere hQ fd target).mono ?_
        fun _ _ hs => hs)
      rintro s ⟨sid', hsid, hs⟩
      obtain rfl := Except.ok.inj hsid
      exact hs
    · exact (release_everywhere hQ sid).bind fun _ => Stable.rethrow started

theorem acceptNewClient_everywhere (fd : FileDescriptor) (mask : Flags) :
    Stable cfg (Everywhere cfg Q) (acceptNewClient cfg fd mask) :=
  Stable.acceptNewClient (fun _ _ hs hsessions _ => hs.of_eq hQ hsessions fun _ he => he)
    (enqueueEvent_everywhere hQ _) mask

/-- **Every callback.** -/
theorem callback_everywhere (name : Callback) (fd : FileDescriptor) (mask : Flags) :
    Stable cfg (Everywhere cfg Q) (callback cfg name fd mask) := by
  cases name with
  | accept =>
    refine (acceptNewClient_everywhere hQ fd mask).bind fun conn => ?_
    split
    · exact makeNewSession_everywhere hQ conn
    · exact Program.Keeps.pure ()
  | left sid dir => exact leftEvent_everywhere hQ sid dir fd mask
  | right sid dir => exact rightEvent_everywhere hQ sid dir fd mask
  | session sid => exact sessionEvent_rule (delFdCallbacks_everywhere hQ) sid mask

end Start

/-! ## Dispatches and runs -/

/-- **A dispatch** keeps what holds of every session. -/
theorem Everywhere.dispatch (hQ : SessionRule cfg Q) (h : Everywhere cfg Q s) (ev : Event) :
    Everywhere cfg Q (s.dispatch (host cfg) (some fun _ => pure ()) ev).2 := by
  rw [dispatch_eq]
  have hsame : ∀ {s t : ProxyBus η}, Everywhere cfg Q s → t.world = s.world →
      t.events = s.events → Everywhere cfg Q t := by
    intro s t hs hworld hevents
    refine hs.of_eq hQ (congrArg World.sessions hworld) ?_
    rw [hevents]
    exact fun _ he => he
  have hcalled : Everywhere cfg Q (s.runCallbacks (host cfg) (some fun _ => pure ()) ev
      (callbacksAt s ev.fd)).2 :=
    Bus.runCallbacks_rule (I := fun _ => Everywhere cfg Q) (silent_server cfg)
      (fun _ _ _ _ hs => hs)
      (fun callback _ s _ hs => callback_everywhere hQ callback ev.fd ev.flags _
        (hsame hs rfl rfl))
      (fun _ _ _ _ hs => hsame hs rfl rfl) (fun _ _ _ hs => hs) h
  exact Bus.flush_rule (fun _ _ hs => hsame hs rfl rfl)
    (fun callback s hs => destroy_everywhere hQ callback s hs) (fun _ hs => hsame hs rfl rfl)
    hcalled

/-- **The invariant of the sessions**, for a statement that does not look at the queue. -/
theorem session_rule {Q : SessionId → Session η → Prop}
    (hQ : SessionRule cfg fun sid x _ => Q sid x) {opened : List FileDescriptor} {s : ProxyBus η}
    (hs : ServerMoment cfg opened s) : Everywhere cfg (fun sid x _ => Q sid x) s := by
  induction hs with
  | start => rintro sid x ⟨⟩
  | log entry hentry hs ih => exact ih
  | call name fd mask hs ih => exact callback_everywhere hQ name fd mask _ ih
  | report err hs ih => exact ih
  | erase fd hs ih =>
    exact Bus.erase_rule (P := fun _ => Everywhere cfg fun sid x _ => Q sid x) (fun _ _ => ih)
      (fun callback _ t ht => destroy_everywhere hQ callback t ht) ih
  | clear hs ih => exact ih
  | swap hs ih => exact ih
  | setErrno errno hs ih => exact ih

/-- A session with all its callbacks has got its input callbacks. -/
theorem Everywhere.attached (h : Everywhere cfg Q s) (hs : Settled cfg s) {x : Session η}
    (hx : Registered s sid x) : x.Attached cfg ∧ Q sid x s.events := by
  refine (h sid x hx.session).resolve_left fun hbare => ?_
  have hcount := hs.exact hx.session
  have hpos : 0 < x.references := by
    rw [hcount, hx.own, registrations_client]
    exact Nat.lt_of_lt_of_le (Nat.succ_pos 2) (Nat.le_add_right _ _)
  have hne := (hs.lives.world.alive sid x ⟨hx.session, hpos⟩).1
  rw [hx.own, registrations_client, registrations_target sid hne] at hcount
  have hsix : x.references = 6 := hcount
  have hfive := hbare.references
  omega

end Proxy
end PsqlTcpProxy
