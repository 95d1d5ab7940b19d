import PsqlTcpProxy.Io.BusWorld
import PsqlTcpProxy.Io.ServerRules
import PsqlTcpProxy.Proxy.Lives

/-!
# A session lives as long as its callbacks

Every piece of code of a proxy server keeps `Lives`: it hands on the holders and
the descriptors it was given, or says what became of them.  The code is followed
in the order of `Server`, one lemma a function.  So `Lives` holds at every moment
of every run (`Moment.lives`), and every run consists of moments
(`moment_runServer`).
-/

namespace PsqlTcpProxy
namespace Proxy

open Library Io Server

variable {η α β : Type} {cfg : Config η} {held : List SessionId}
  {reserved : List FileDescriptor}

/-- Run from a bus with `P`, the code of a proxy ends with `Q`. -/
abbrev Ends (cfg : Config η) (P : ProxyBus η → Prop) (code : ProxyCode η α)
    (Q : Except Exception α → ProxyBus η → Prop) : Prop :=
  Server.Ends (host cfg) P code Q

/-- The code of a proxy keeps `P`. -/
abbrev Stable (cfg : Config η) (P : ProxyBus η → Prop) (code : ProxyCode η α) : Prop :=
  Server.Stable (host cfg) P code

/-! ## Operations -/

namespace Lives

variable {s : ProxyBus η}

theorem tick (h : Lives cfg held reserved s) :
    Lives cfg held reserved { s with world := { s.world with tick := s.world.tick + 1 } } :=
  h.of_eq rfl rfl rfl rfl rfl

/-- Fewer holders, or fewer reservations, than there are. -/
theorem drop {sid : SessionId} (h : Lives cfg (sid :: held) reserved s) :
    Lives cfg held reserved s := by
  refine ⟨h.world, fun sid' hsid' => h.born sid' (List.mem_cons_of_mem _ hsid'), h.accepting,
    h.owned, ?_, h.tagged⟩
  intro sid' x hx
  refine Nat.le_trans (List.Sublist.count_le sid' ?_) (h.counted sid' x hx)
  exact (List.sublist_cons_self sid held).append_left _

theorem unreserve {fd : FileDescriptor} (h : Lives cfg held (fd :: reserved) s) :
    Lives cfg held reserved s :=
  h.of_world h.world.weaken rfl rfl

end Lives

theorem setErrno_keeps (errno : ℤ) : Stable cfg (Lives cfg held reserved) (setErrno errno) :=
  Ends.modify fun _ hs => hs.of_eq rfl rfl rfl rfl rfl

theorem enqueueEvent_keeps (ev : Event) : Stable cfg (Lives cfg held reserved) (enqueueEvent ev) :=
  Program.Triple.lift fun s hs =>
    Lives.log (s := { s with events := s.events ++ [ev] }) (hs.of_eq rfl rfl rfl rfl rfl)
      (by rintro _ _ ⟨⟩)

theorem delFdCallbacks_keeps (fd : FileDescriptor) :
    Stable cfg (Lives cfg held reserved) (delFdCallbacks fd) :=
  Program.Triple.lift fun s hs =>
    Lives.log (s := s.mark (host cfg) fd) (hs.of_eq rfl rfl rfl rfl rfl) (by rintro _ _ ⟨⟩)

/-! ## Closing -/

/-- **The rule of letting go.**  The session has a holder less, and its sockets may be closed. -/
theorem release_rule {P Q : ProxyBus η → Prop} {sid : SessionId}
    (hnone : ∀ s, P s → s.world.sessions sid = none → Q s)
    (hless : ∀ s x, P s → s.world.sessions sid = some x →
      Q { s with world := s.world.setSession sid { x with references := x.references - 1 } })
    (hclose : ∀ s x, P s → s.world.sessions sid = some x →
      ∀ fd ∈ x.fds, Stable cfg Q (closeConnectionNoexcept cfg fd)) :
    Ends cfg P (release cfg sid) fun _ => Q := by
  refine Ends.release hnone hless fun s x hs hx => ?_
  have hfds := hclose s x hs hx
  refine (hfds x.target (Session.mem_fds.mpr (Or.inr rfl))).bind fun _ => ?_
  exact hfds x.client (Session.mem_fds.mpr (Or.inl rfl))

/-- The descriptors of `closing` are free to be closed. -/
structure Closing (cfg : Config η) (held : List SessionId) (reserved closing : List FileDescriptor)
    (s : ProxyBus η) : Prop where
  lives : Lives cfg held reserved s
  free : ∀ fd ∈ closing, World.Unused cfg s.world fd ∧ fd ∉ reserved

theorem delFd_keeps (closing : List FileDescriptor) (fd : FileDescriptor) :
    Stable cfg (Closing cfg held reserved closing) (delFd fd) := by
  refine Stable.delFd (fun s hs => ⟨?_, hs.free⟩) fun s w hs hopened hsessions hnext _ => ?_
  · exact Lives.log (s := s.mark (host cfg) fd) (hs.lives.of_eq rfl rfl rfl rfl rfl)
      (by rintro _ _ ⟨⟩)
  · refine ⟨hs.lives.of_eq rfl hopened hsessions hnext rfl, fun fd' hfd' => ?_⟩
    obtain ⟨⟨hlistener, hnone⟩, hfree⟩ := hs.free fd' hfd'
    refine ⟨⟨hlistener, fun sid x hx => hnone sid x ⟨?_, hx.2⟩⟩, hfree⟩
    exact (congrFun hsessions sid).symm.trans hx.1

theorem fail_keeps {closing : List FileDescriptor} (call : SysCall) (errno : ℤ) :
    Stable cfg (Closing cfg held reserved closing) (fail call errno) :=
  Ends.modify fun _ hs => ⟨hs.lives.of_eq rfl rfl rfl rfl rfl, hs.free⟩

theorem closeConnection_keeps {closing : List FileDescriptor} {fd : FileDescriptor}
    (hfd : fd ∈ closing) :
    Stable cfg (Closing cfg held reserved closing) (closeConnection cfg fd) := by
  refine (delFd_keeps closing fd).bind fun _ => Ends.ask ?_ fun answer _ => ?_
  · exact fun s hs => ⟨hs.lives.tick, hs.free⟩
  split
  · exact (fail_keeps _ _).bind fun _ => Program.Keeps.throw _
  · split
    · exact (fail_keeps _ _).bind fun _ => Program.Keeps.throw _
    · refine Ends.modify fun s hs => ⟨?_, hs.free⟩
      obtain ⟨hunused, hreserved⟩ := hs.free fd hfd
      have hclosed := hs.lives.world.closing hunused hreserved
      exact hs.lives.of_world (hclosed.of_eq rfl rfl rfl) rfl rfl

theorem closeConnectionNoexcept_keeps {closing : List FileDescriptor} {fd : FileDescriptor}
    (hfd : fd ∈ closing) :
    Stable cfg (Closing cfg held reserved closing) (closeConnectionNoexcept cfg fd) :=
  (closeConnection_keeps hfd).attempt.bind fun _ => Program.Keeps.pure ()

/-- A holder more. -/
theorem retain_ends {sid : SessionId} (hsid : sid ∈ held) :
    Ends cfg (Lives cfg held reserved) (retain sid) fun _ => Lives cfg (sid :: held) reserved := by
  refine Ends.modify fun s hs => ?_
  rcases hx : s.world.sessions sid with _ | x
  · rw [World.retain_of_none hx]
    have hborn : ∀ sid' ∈ sid :: held, sid' < s.world.nextSession :=
      List.forall_mem_cons.mpr ⟨hs.born sid hsid, hs.born⟩
    refine ⟨hs.world, hborn, hs.accepting, hs.owned, ?_, hs.tagged⟩
    intro sid' y hy
    have hne : sid ≠ sid' := by
      rintro rfl
      rw [hx] at hy
      cases hy
    rw [List.count_append, List.count_cons_of_ne hne, ← List.count_append]
    exact hs.counted sid' y hy
  · rw [World.retain_of_some hx]
    exact hs.retained hsid hx

/-- A holder less.  The sockets of a session without holders are closed. -/
theorem release_ends (sid : SessionId) :
    Ends cfg (Lives cfg (sid :: held) reserved) (release cfg sid)
      fun _ => Lives cfg held reserved := by
  refine Ends.world fun w => ?_
  rcases hx : w.sessions sid with _ | x
  · exact Program.Triple.pure fun s hs => hs.1.drop
  · refine Program.Triple.bind (R := fun _ s => Lives cfg held reserved s ∧
      (x.references = 1 → Closing cfg held reserved [x.target, x.client] s)) ?_ ?_
      fun _ _ hs => hs.1
    · refine Ends.setWorld fun s hs => ?_
      obtain ⟨hs, rfl⟩ := hs
      have hlive := hs.live_of_held List.mem_cons_self hx
      refine ⟨hs.released hx, fun hlast => ⟨hs.released hx, fun fd hfd => ?_⟩⟩
      refine hs.world.last_released hlive hlast (Session.mem_fds.mpr ?_)
      rcases List.mem_cons.mp hfd with rfl | hfd
      · exact Or.inr rfl
      · exact Or.inl (List.mem_singleton.mp hfd)
    · intro _
      split
      · rename_i hlast
        refine Program.Triple.mono (P := Closing cfg held reserved [x.target, x.client])
          (Q := fun _ => Closing cfg held reserved [x.target, x.client]) ?_
          (fun s hs => hs.2 hlast) fun _ s hs => hs.lives
        exact (closeConnectionNoexcept_keeps (by simp)).bind fun _ =>
          closeConnectionNoexcept_keeps (by simp)
      · exact Program.Triple.pure fun s hs => hs.1

/-- What goes with a callback is the hold on its session. -/
theorem destroy_ends (callback : Callback) :
    Ends cfg (Lives cfg (callback.session?.toList ++ held) reserved) (destroy cfg callback)
      fun _ => Lives cfg held reserved := by
  unfold destroy Server.destroy
  rcases callback.session? with _ | sid
  · exact Program.Triple.pure fun s hs => hs
  · exact release_ends sid

/-! ## Events of a session -/

/-- **The rule of a channel's callback.**  The moment passes, the session's channel changes, and
the events of the handler, which are `Q`, are enqueued. -/
theorem Stable.channelEvent {P : ProxyBus η → Prop} (Q : Event → Prop)
    {handle : Channel η → Answer → ℤ → Option (Outcome η)} {sid : SessionId} {dir : Direction}
    (htick : ∀ s, P s → P { s with world := { s.world with tick := s.world.tick + 1 } })
    (hqueue : ∀ ev, Q ev → Stable cfg P (enqueueEvent ev))
    (hafter : ∀ s x o tick errno, P s → s.world.sessions sid = some x →
      handle (x.flow dir).channel (cfg.kernel tick) s.world.errno = some o →
      P { s with world :=
          { s.world.setSession sid (x.setFlow dir ((x.flow dir).after o)) with errno } } ∧
        ∀ ev ∈ o.events, Q ev) :
    Stable cfg P (channelEvent cfg sid dir handle) := by
  refine Ends.ask htick fun answer hanswer => Ends.world fun w => ?_
  obtain ⟨tick, rfl⟩ := hanswer
  rcases hx : w.sessions sid with _ | x
  · exact Program.Triple.pure fun s hs => hs.1
  · simp only
    rcases ho : handle (x.flow dir).channel (cfg.kernel tick) w.errno with _ | o
    · exact Program.Triple.pure fun s hs => hs.1
    · refine Program.Triple.bind (R := fun _ s => P s ∧ ∀ ev ∈ o.events, Q ev) ?_ ?_
        fun _ _ hs => hs.1
      · refine Ends.setWorld ?_
        rintro s ⟨hs, rfl⟩
        exact hafter s x o tick _ hs hx ho
      · rintro _ s ⟨hs, hevents⟩
        refine (Stable.enqueueAll fun ev hev => hqueue ev (hevents ev hev)).bind (fun _ => ?_) s hs
        split
        · exact Program.Keeps.throw _
        · exact Program.Keeps.pure ()

/-- **An event of a channel** changes that channel, and keeps its stream intact. -/
theorem channelEvent_keeps {handle : Channel η → Answer → ℤ → Option (Outcome η)}
    (hhandle : ∀ c tick errno, ∃ e, handle c (cfg.kernel tick) errno = c.handle e ∧
      (cfg.Prompt → c.right ≠ -1 → e.Whole)) (sid : SessionId) (dir : Direction) :
    Stable cfg (Lives cfg held reserved) (channelEvent cfg sid dir handle) := by
  refine Stable.channelEvent (fun _ => True) (fun s hs => hs.tick)
    (fun ev _ => enqueueEvent_keeps ev) fun s x o tick errno hs hx ho => ⟨?_, fun _ _ => trivial⟩
  obtain ⟨e, he, hwhole⟩ := hhandle (x.flow dir).channel tick s.world.errno
  rw [he] at ho
  have hopen := (hs.world.ok sid x hx).right_open dir
  exact (hs.handled hx ho fun hprompt => hwhole hprompt hopen).of_eq rfl rfl rfl rfl rfl

theorem asyncWriteSome_whole (h : cfg.Prompt) (tick : ℕ) {fd : FileDescriptor} (hfd : fd ≠ -1)
    {errno : ℤ} (offered : List UInt8) :
    asyncWriteSome fd errno ((cfg.kernel tick).send offered) =
      .success (Fin.last offered.length) := by
  rw [h.send, asyncWriteSome, if_neg hfd]

theorem leftEvent_keeps (sid : SessionId) (dir : Direction) (fd : FileDescriptor) (mask : Flags) :
    Stable cfg (Lives cfg held reserved) (leftEvent cfg sid dir fd mask) := by
  refine channelEvent_keeps (fun c tick errno => ?_) sid dir
  exact ⟨.left fd mask (asyncReadSome c.left errno (cfg.kernel tick).recv)
    fun offered => asyncWriteSome c.right (readErrno c (cfg.kernel tick) errno)
      ((cfg.kernel tick).send offered), rfl,
    fun hprompt hopen offered => asyncWriteSome_whole hprompt tick hopen offered⟩

theorem rightEvent_keeps (sid : SessionId) (dir : Direction) (fd : FileDescriptor) (mask : Flags) :
    Stable cfg (Lives cfg held reserved) (rightEvent cfg sid dir fd mask) := by
  refine channelEvent_keeps (fun c tick errno => ?_) sid dir
  exact ⟨.right fd mask
    fun offered => asyncWriteSome c.right errno ((cfg.kernel tick).send offered), rfl,
    fun hprompt hopen offered => asyncWriteSome_whole hprompt tick hopen offered⟩

/-- **The rule of a session's callback.** -/
theorem sessionEvent_rule {P : ProxyBus η → Prop} (hmark : ∀ fd, Stable cfg P (delFdCallbacks fd))
    (sid : SessionId) (mask : Flags) : Stable cfg P (sessionEvent sid mask) := by
  refine Ends.world fun w => ?_
  refine Program.Triple.mono (P := P) ?_ (fun s hs => hs.1) fun _ _ hs => hs
  split
  · exact Program.Keeps.pure ()
  · split
    · exact (hmark _).bind fun _ => hmark _
    · exact Program.Keeps.pure ()

theorem sessionEvent_keeps (sid : SessionId) (mask : Flags) :
    Stable cfg (Lives cfg held reserved) (sessionEvent sid mask) :=
  sessionEvent_rule delFdCallbacks_keeps sid mask

/-! ## Making a session -/

/-- A descriptor from the kernel is open from here on, and nobody's. -/
theorem opening_ends {w : World η} (fd : NewDescriptor w.opened) (errno : World η → ℤ)
    (calls : List SysCall) :
    Ends cfg (fun s => Lives cfg held reserved s ∧ s.world = w)
      (modify fun w =>
        { w with opened := fd.1 :: w.opened, errno := errno w, calls := w.calls ++ calls })
      fun _ s => Lives cfg held (fd.1 :: reserved) s ∧ fd.1 ∉ reserved := by
  refine Ends.modify ?_
  rintro s ⟨hs, rfl⟩
  have hopened := hs.world.opening fd.2.1 fd.2.2
  refine ⟨hs.of_world (hopened.of_eq rfl rfl rfl) rfl rfl, fun hmem => ?_⟩
  exact fd.2.2 (hs.world.reserved _ hmem).1

/-- The socket to the target, if there is one, is nobody's. -/
def Connected (cfg : Config η) (held : List SessionId) (reserved : List FileDescriptor)
    (r : Except Exception FileDescriptor) (s : ProxyBus η) : Prop :=
  Lives cfg held reserved s ∧
    ∀ target, r = .ok target → Lives cfg held (target :: reserved) s ∧ target ∉ reserved

theorem Connected.error {s : ProxyBus η} (h : Lives cfg held reserved s) (e : Exception) :
    Connected cfg held reserved (.error e) s :=
  ⟨h, by rintro _ ⟨⟩⟩

theorem connected_ends {w : World η} (fd : NewDescriptor w.opened) (errno : World η → ℤ) :
    Ends cfg (fun s => Lives cfg held reserved s ∧ s.world = w)
      (do
        modify fun w =>
          { w with opened := fd.1 :: w.opened, errno := errno w, calls := w.calls ++ [.opened fd.1] }
        pure fd.1) (Connected cfg held reserved) := by
  refine Program.Triple.bind (opening_ends fd _ _) (fun _ => ?_) ?_
  · refine Program.Triple.pure fun s hs => ⟨hs.1.unreserve, ?_⟩
    rintro _ ⟨⟩
    exact hs
  · exact fun e s hs => Connected.error hs.1.unreserve e

/-- The loop over the addresses. -/
theorem openSocket_ends (n : ℕ) :
    Ends cfg (Lives cfg held reserved) (openSocket cfg n) (Connected cfg held reserved) := by
  induction n with
  | zero =>
    exact Ends.world fun w => Program.Triple.throw fun s hs => Connected.error hs.1 _
  | succ n ih =>
    refine Ends.ask (fun s hs => hs.tick) fun answer _ => Ends.world fun w => ?_
    rcases answer.socket w.opened with errno | sockfd
    · refine Program.Triple.bind (R := fun _ => Lives cfg held reserved) ?_ (fun _ => ih) ?_
      · exact (setErrno_keeps errno).mono (fun s hs => hs.1) fun _ _ hs => hs
      · exact fun e s hs => Connected.error hs e
    · simp only
      rcases answer.connect with _ | errno
      · exact connected_ends sockfd _
      · simp only
        split
        · exact connected_ends sockfd _
        · refine Program.Triple.bind (R := fun _ => Lives cfg held reserved) ?_ (fun _ => ih) ?_
          · by_cases hclose : answer.close.isSome
            · simp only [hclose, if_true]
              exact (opening_ends sockfd _ _).mono (fun _ hs => hs) fun _ _ hs => hs.1.unreserve
            · simp only [hclose]
              exact Ends.modify fun s hs => hs.1.of_eq rfl rfl rfl rfl rfl
          · exact fun e s hs => Connected.error hs e

/-- The session is there, with its two sockets, and held. -/
structure Started (cfg : Config η) (held : List SessionId) (sid : SessionId)
    (client target : FileDescriptor) (s : ProxyBus η) : Prop where
  lives : Lives cfg (sid :: held) [] s
  session : ∃ x, s.world.sessions sid = some x ∧ x.client = client ∧ x.target = target

/-- The same, unless an exception has ended the start. -/
def Starting (cfg : Config η) (held : List SessionId) (sid : SessionId)
    (client target : FileDescriptor) (r : Except Exception Unit) (s : ProxyBus η) : Prop :=
  Lives cfg (sid :: held) [] s ∧ (r = .ok () → Started cfg held sid client target s)

theorem newSession_ends {client target : FileDescriptor} (hne : client ≠ target) :
    Ends cfg (Lives cfg held [target, client]) (newSession cfg client target) fun r s =>
      ∃ sid, r = .ok sid ∧ Started cfg held sid client target s := by
  refine Ends.world fun w => ?_
  refine Program.Triple.bind (R := fun r s => r = .ok () ∧
    Started cfg held w.nextSession client target s) ?_ ?_ ?_
  · refine Ends.setWorld fun s hs => ⟨rfl, ?_⟩
    obtain ⟨hs, rfl⟩ := hs
    obtain ⟨-, hclient, -⟩ := hs.world.reserved client (by simp)
    obtain ⟨-, htarget, -⟩ := hs.world.reserved target (by simp)
    refine ⟨hs.birth hne rfl rfl rfl ⟨?_, ?_, ⟨rfl, rfl⟩, ⟨rfl, rfl⟩, hclient, htarget⟩, ?_⟩
    · rintro (_ | _)
      · exact Flow.intact_start _ _ _ _ _
      · exact Flow.intact_start _ _ _ _ _
    · rintro - (_ | _)
      · exact ⟨BipartiteBuffer.held_init _, by rintro _ ⟨⟩⟩
      · exact ⟨BipartiteBuffer.held_init _, by rintro _ ⟨⟩⟩
    · exact ⟨_, if_pos rfl, rfl, rfl⟩
  · exact fun _ => Program.Triple.pure fun s hs => ⟨_, rfl, hs.2⟩
  · rintro e s ⟨⟨⟩, -⟩

section Start

variable {sid : SessionId} {client target fd : FileDescriptor}

theorem retain_started :
    Ends cfg (Started cfg held sid client target) (retain sid)
      fun _ => Started cfg (sid :: held) sid client target := by
  intro s hs
  obtain ⟨x, hx, hclient, htarget⟩ := hs.session
  refine ⟨retain_ends List.mem_cons_self s hs.lives, { x with references := x.references + 1 }, ?_,
    hclient, htarget⟩
  show (s.world.retain sid).sessions sid = _
  rw [World.retain_of_some hx]
  exact if_pos rfl

/-- `_callback_map.emplace(fd, {})` -/
theorem Lives.emplace {s : ProxyBus η} (h : Lives cfg held reserved s)
    (hmap : s.callbackMap fd = none) : Lives cfg held reserved (s.setCallbacks fd (some [])) := by
  have hnone : holders s fd = [] := by simp [holders, callbacksAt, hmap]
  have hempty := h.remove fd (some []) rfl
  rw [hnone] at hempty
  exact hempty

/-- `add_fd` takes over a hold, or leaves it with the caller. -/
theorem addFd_ends (hfd : fd = client ∨ fd = target) {callback : Callback}
    (hcallback : callback.session? = some sid) :
    Ends cfg (Started cfg (sid :: held) sid client target) (addFd fd callback) fun r s =>
      (r = .ok () ∧ Started cfg held sid client target s) ∨
      ∃ e, r = .error e ∧ Lives cfg (sid :: sid :: held) [] s := by
  refine Ends.addFd (fun s w hs hmap hopened hsessions hnext => ?_) fun s hs => ?_
  · have hlives : Lives cfg (sid :: sid :: held) []
        { s.setCallbacks fd (some []) with world := w } :=
      (hs.lives.emplace hmap).of_eq rfl hopened hsessions hnext rfl
    obtain ⟨x, hx, hsockets⟩ := hs.session
    exact ⟨⟨hlives, x, (congrFun hsessions sid).trans hx, hsockets⟩, hlives⟩
  · obtain ⟨hlives, x, hx, hclient, htarget⟩ := hs
    have hmem : fd ∈ x.fds := by
      rw [Session.mem_fds, hclient, htarget]
      exact hfd
    exact ⟨hlives.pushBack hx hmem hcallback, x, hx, hclient, htarget⟩

/-- **A callback is registered**, or the start has ended. -/
theorem register_ends (hfd : fd = client ∨ fd = target) {callback : Callback}
    (hcallback : callback.session? = some sid) :
    Ends cfg (Started cfg held sid client target) (register cfg sid fd callback)
      (Starting cfg held sid client target) := by
  refine (Ends.register (fun s hs => retain_started s hs) (addFd_ends hfd hcallback)
    (release_ends sid)).mono (fun _ hs => hs) ?_
  rintro r s (⟨rfl, hs⟩ | ⟨e, rfl, hs⟩)
  · exact ⟨hs.lives, fun _ => hs⟩
  · exact ⟨hs, by rintro ⟨⟩⟩

/-- Handlers change no stream. -/
theorem addHandlers_ends :
    Ends cfg (Started cfg held sid client target) (addHandlers cfg sid)
      (Starting cfg held sid client target) := by
  refine Ends.modify fun s hs => ?_
  obtain ⟨hlives, x, hx, hclient, htarget⟩ := hs
  obtain ⟨hintact, hdrained, hlr, hrl, hopen, hopen'⟩ := hlives.world.ok sid x hx
  simp only [hx]
  let x' : Session η := { x with
    lr := { x.lr with channel := { x.lr.channel with handlers := cfg.handlers x.client } } }
  have hok : x'.Ok cfg := by
    refine ⟨?_, ?_, hlr, hrl, hopen, hopen'⟩
    · rintro (_ | _)
      · exact ⟨⟨(hintact .lr).sound.wf, (hintact .lr).sound.flag⟩, (hintact .lr).stream⟩
      · exact hintact .rl
    · rintro hprompt (_ | _)
      · exact ⟨(hdrained hprompt .lr).1, hprompt.handlers x.client⟩
      · exact hdrained hprompt .rl
  have hadded := hlives.update x' hx rfl rfl id hok hlives.born (hlives.counted sid x hx)
    fun _ _ => Nat.le_refl _
  have hstarted : Started cfg held sid client target _ := ⟨hadded, x', if_pos rfl, hclient, htarget⟩
  exact ⟨hstarted.lives, fun _ => hstarted⟩

/-- After an exception nothing more is done. -/
theorem Starting.bind {code : ProxyCode η Unit} {f : Unit → ProxyCode η Unit}
    (hcode : Ends cfg (Started cfg held sid client target) code
      (Starting cfg held sid client target))
    (hf : Ends cfg (Started cfg held sid client target) (f ())
      (Starting cfg held sid client target)) :
    Ends cfg (Started cfg held sid client target) (code >>= f)
      (Starting cfg held sid client target) := by
  refine Program.Triple.bind hcode (fun _ => ?_) fun e s hs => ⟨hs.1, by rintro ⟨⟩⟩
  exact hf.mono (fun s hs => hs.2 rfl) fun _ _ hs => hs

/-- **The start of a session.** -/
theorem startSession_ends :
    Ends cfg (Started cfg held sid client target) (startSession cfg sid client target)
      (Starting cfg held sid client target) := by
  unfold startSession
  refine Starting.bind (register_ends (Or.inl rfl) rfl) ?_
  refine Starting.bind (register_ends (Or.inr rfl) rfl) ?_
  refine Starting.bind (register_ends (Or.inr rfl) rfl) ?_
  refine Starting.bind (register_ends (Or.inl rfl) rfl) ?_
  refine Starting.bind addHandlers_ends ?_
  refine Starting.bind (register_ends (Or.inl rfl) rfl) ?_
  exact register_ends (Or.inr rfl) rfl

end Start

/-- **A new session**, or none and its sockets closed. -/
theorem makeNewSession_ends (fd : FileDescriptor) :
    Ends cfg (Lives cfg held [fd]) (makeNewSession cfg fd) fun _ => Lives cfg held [] := by
  refine Program.Triple.bind
    (R := fun r s => ∃ r', r = .ok r' ∧ Connected cfg held [fd] r' s) ?_ ?_ ?_
  · exact Program.Triple.attempt ((openSocket_ends cfg.addresses).mono (fun _ hs => hs)
      fun r s hs => ⟨r, rfl, hs⟩)
  · rintro (e | target)
    · refine Program.Triple.bind (R := fun _ => Closing cfg held [] [fd]) ?_ ?_ ?_
      · refine (closeConnectionNoexcept_keeps List.mem_cons_self).mono ?_ fun _ _ hs => hs
        rintro s ⟨r', -, hs, -⟩
        refine ⟨hs.unreserve, fun fd' hfd' => ⟨?_, List.not_mem_nil⟩⟩
        exact (hs.world.reserved fd' hfd').2.2
      · exact fun _ => Program.Triple.throw fun s hs => hs.lives
      · exact fun _ s hs => hs.lives
    · by_cases hne : fd = target
      · -- the kernel does not hand out a descriptor that is open
        rintro s ⟨r', hr, -, htarget⟩
        have hnew := (htarget target (Except.ok.inj hr).symm).2
        exact absurd (List.mem_singleton.mpr hne.symm) hnew
      · refine Program.Triple.bind (R := fun r s => ∃ sid, r = .ok sid ∧
          Started cfg held sid fd target s) ?_ ?_ ?_
        · refine (newSession_ends hne).mono ?_ fun _ _ hs => hs
          rintro s ⟨r', hr, -, htarget⟩
          exact (htarget target (Except.ok.inj hr).symm).1
        · intro sid
          refine Program.Triple.bind (R := fun r s => Lives cfg (sid :: held) [] s) ?_ ?_ ?_
          · refine Program.Triple.attempt (startSession_ends.mono ?_ fun r s hs => hs.1)
            rintro s ⟨sid', hsid, hs⟩
            obtain rfl := Except.ok.inj hsid
            exact hs
          · exact fun started => Program.Triple.bind (release_ends sid)
              (fun _ => Stable.rethrow started) fun _ _ hs => hs
          · exact fun _ s hs => hs.drop
        · rintro e s ⟨sid, ⟨⟩, -⟩
  · rintro e s ⟨r', ⟨⟩, -⟩

/-! ## The acceptor -/

theorem acceptNewClient_ends (fd : FileDescriptor) (mask : Flags) :
    Ends cfg (Lives cfg held []) (acceptNewClient cfg fd mask) fun r s =>
      Lives cfg held [] s ∧ ∀ conn, r = .ok conn → 0 < conn → Lives cfg held [conn] s := by
  refine Ends.ask (fun s hs => hs.tick) fun answer _ => Ends.world fun w => ?_
  split
  · exact Program.Triple.throw fun s hs => ⟨hs.1, by rintro _ ⟨⟩⟩
  rcases answer.accept w.opened with errno | conn
  · refine Program.Triple.bind (R := fun _ => Lives cfg held []) ?_ ?_ ?_
    · exact (setErrno_keeps errno).mono (fun s hs => hs.1) fun _ _ hs => hs
    · intro _
      split
      · refine Program.Triple.bind (enqueueEvent_keeps _) (fun _ => ?_) ?_
        · refine Program.Triple.pure fun s hs => ⟨hs, ?_⟩
          rintro _ ⟨⟩ hpos
          exact absurd hpos (by decide)
        · exact fun _ s hs => ⟨hs, by rintro _ ⟨⟩⟩
      · exact Program.Triple.throw fun s hs => ⟨hs, by rintro _ ⟨⟩⟩
    · exact fun _ s hs => ⟨hs, by rintro _ ⟨⟩⟩
  · refine Program.Triple.bind (R := fun _ => Lives cfg held [conn.1]) ?_ ?_ ?_
    · exact (opening_ends conn _ _).mono (fun _ hs => hs) fun _ _ hs => hs.1
    · refine fun _ => Program.Triple.bind (enqueueEvent_keeps _) (fun _ => ?_) ?_
      · refine Program.Triple.pure fun s hs => ⟨hs.unreserve, ?_⟩
        rintro _ ⟨⟩ -
        exact hs
      · exact fun _ s hs => ⟨hs.unreserve, by rintro _ ⟨⟩⟩
    · exact fun _ s hs => ⟨hs.unreserve, by rintro _ ⟨⟩⟩

theorem acceptEvent_keeps (fd : FileDescriptor) (mask : Flags) :
    Stable cfg (Lives cfg held []) (acceptEvent cfg (makeNewSession cfg) fd mask) := by
  refine Program.Triple.bind (acceptNewClient_ends fd mask) (fun conn => ?_) fun _ _ hs => hs.1
  split
  · rename_i hpos
    exact (makeNewSession_ends conn).mono (fun s hs => hs.2 conn rfl hpos) fun _ _ hs => hs
  · exact Program.Triple.pure fun s hs => hs.1

/-! ## Every moment -/

/-- **Every callback** keeps the invariant. -/
theorem callback_keeps (name : Callback) (fd : FileDescriptor) (mask : Flags) :
    Stable cfg (Lives cfg held []) (callback cfg name fd mask) := by
  cases name with
  | accept => exact acceptEvent_keeps fd mask
  | left sid dir => exact leftEvent_keeps sid dir fd mask
  | right sid dir => exact rightEvent_keeps sid dir fd mask
  | session sid => exact sessionEvent_keeps sid mask

theorem lives_destroyAll (callbacks : List Callback) {s : ProxyBus η}
    (h : Lives cfg (callbacks.filterMap Callback.session? ++ held) reserved s) :
    Lives cfg held reserved (s.destroyAll (host cfg) callbacks) := by
  refine Bus.destroyAll_rule (P := fun callbacks =>
    Lives cfg (callbacks.filterMap Callback.session? ++ held) reserved) ?_ h
  intro callback callbacks s hs
  refine destroy_ends callback s ?_
  rcases hsession : callback.session? with _ | sid
  · rw [List.filterMap_cons_none hsession] at hs
    exact hs
  · rw [List.filterMap_cons_some hsession] at hs
    exact hs

theorem lives_erase (fd : FileDescriptor) {s : ProxyBus η} (h : Lives cfg held reserved s) :
    Lives cfg held reserved (s.erase (host cfg) fd) := by
  unfold Bus.erase
  rcases hmap : s.callbackMap fd with _ | callbacks
  · exact h
  · have hremoved := h.remove fd none rfl
    rw [holders, callbacksAt, hmap] at hremoved
    exact lives_destroyAll callbacks hremoved

theorem lives_startServer (cfg : Config η) (opened : List FileDescriptor) :
    Lives cfg [] [] (startServer cfg opened) := by
  have hat : ∀ fd, ∀ callback ∈ callbacksAt (startServer cfg opened) fd,
      fd = cfg.listener ∧ callback = .accept := by
    intro fd callback hcallback
    simp only [callbacksAt, startServer, Server.start] at hcallback
    split at hcallback
    · rename_i hfd
      exact ⟨hfd, List.mem_singleton.mp hcallback⟩
    · cases hcallback
  refine ⟨⟨List.mem_cons_self, ?_, ?_, by simp, fun _ _ => rfl, ?_⟩, by simp, ?_, ?_, ?_, ?_⟩
  · rintro sid x ⟨⟨⟩, -⟩
  · rintro sid sid' x x' ⟨⟨⟩, -⟩
  · rintro sid x ⟨⟩
  · exact fun fd callback hcallback _ => (hat fd callback hcallback).1
  · intro fd sid hsid
    obtain ⟨callback, hcallback, hsession⟩ := List.mem_filterMap.mp hsid
    rw [(hat fd callback hcallback).2] at hsession
    cases hsession
  · rintro sid x ⟨⟩
  · intro fd callback hcallback
    rw [(hat fd callback hcallback).1, (hat fd callback hcallback).2]
    simp [watch, startServer, Server.start, Watch.step]

/-- The moments of a proxy server that reports errors and goes on. -/
abbrev ServerMoment (cfg : Config η) (opened : List FileDescriptor) (s : ProxyBus η) : Prop :=
  Bus.Moment (host cfg) (fun _ => pure ()) (startServer cfg opened) s

/-- **At every moment of a run** the invariant holds. -/
theorem ServerMoment.lives {opened : List FileDescriptor} {s : ProxyBus η}
    (h : ServerMoment cfg opened s) : Lives cfg [] [] s := by
  induction h with
  | start => exact lives_startServer cfg opened
  | log entry hentry hs ih =>
    refine ih.log ?_
    rintro fd callback rfl
    exact hentry trivial
  | call name fd mask hs ih => exact callback_keeps name fd mask _ ih
  | report err hs ih => exact ih
  | erase fd hs ih => exact lives_erase fd ih
  | clear hs ih => exact ih.of_eq rfl rfl rfl rfl rfl
  | swap hs ih => exact ih.of_eq rfl rfl rfl rfl rfl
  | setErrno errno hs ih => exact ih.of_eq rfl rfl rfl rfl rfl

/-! ## Runs -/

/-- `context::run`'s error callback only prints. -/
theorem silent_server (cfg : Config η) : Bus.Silent (host cfg) fun _ => pure () := fun _ _ => rfl

/-- The next event of a batch. -/
theorem native_deliverAll_cons (cfg : Config η) (ev : Event) (evs : List Event) (s : ProxyBus η) :
    s.native (host cfg) (some fun _ => pure ()) (Epoll.deliverAll (ev :: evs)) =
      ((s.log (.delivered ev)).dispatch (host cfg) (some fun _ => pure ()) ev).2.native (host cfg)
        (some fun _ => pure ()) (Epoll.deliverAll evs) := by
  rw [Bus.native_deliverAll, Bus.native_deliverAll, Bus.dispatchAll_cons (silent_server cfg)]

theorem native_deliverAll_ok (cfg : Config η) (batch : List Event) (s : ProxyBus η) :
    (s.native (host cfg) (some fun _ => pure ()) (Epoll.deliverAll batch)).1 = .ok () := by
  rw [Bus.native_deliverAll]
  exact Bus.dispatchAll_ok (silent_server cfg) batch s

/-- The kernel reports a batch. -/
theorem native_batch (cfg : Config η) (batch : List Event) (s : ProxyBus η) :
    s.native (host cfg) (some fun _ => pure ()) (epollWaitEvents cfg (.ok batch)) =
      ((s.setErrno (host cfg) 0).log (.polled batch)).native (host cfg) (some fun _ => pure ())
        (Epoll.deliverAll batch) := rfl

/-- The kernel reports an `errno`. -/
theorem native_errno (cfg : Config η) (errno : ℤ) (s : ProxyBus η) :
    (s.native (host cfg) (some fun _ => pure ()) (epollWaitEvents cfg (.error errno))).2 =
      s.setErrno (host cfg) errno :=
  congrArg Prod.snd (Bus.native_errno (host cfg) _ cfg.epfd errno s)

/-- The next event of the queue. -/
theorem drain_cons (cfg : Config η) (ev : Event) (evs : List Event) (s : ProxyBus η) :
    s.drain (host cfg) (some fun _ => pure ()) (ev :: evs) =
      ((s.log (.dispatched ev)).dispatch (host cfg) (some fun _ => pure ()) ev).2.drain (host cfg)
        (some fun _ => pure ()) evs := by
  rw [Bus.drain_eq, Bus.drain_eq, Bus.dispatchAll_cons (silent_server cfg)]

/-- The queue phase follows a native phase that returns. -/
theorem waitEvents_served {polled : Except ℤ (List Event)} {s t : ProxyBus η}
    (h : s.native (host cfg) (some fun _ => pure ()) (epollWaitEvents cfg polled) = (.ok (), t)) :
    (s.waitEvents (host cfg) (epollWaitEvents cfg polled) (some fun _ => pure ())).2 =
      (({ t with events := [] } : ProxyBus η).drain (host cfg) (some fun _ => pure ())
        t.events).2 := by
  obtain ⟨u, -, hdrained, -⟩ := Bus.drain_spec (silent_server cfg) t.events
    ({ t with events := [] } : ProxyBus η)
  simp only [Bus.waitEvents, Bus.serve, h, hdrained]

/-- An exception of the native phase is reported. -/
theorem waitEvents_refused {polled : Except ℤ (List Event)} {s t : ProxyBus η} {e : Exception}
    (h : s.native (host cfg) (some fun _ => pure ()) (epollWaitEvents cfg polled) =
      (.error e, t)) :
    ∃ err, (s.waitEvents (host cfg) (epollWaitEvents cfg polled) (some fun _ => pure ())).2 =
      t.log (.reported err) := by
  simp only [Bus.waitEvents, Bus.serve, h]
  exact ⟨_, rfl⟩

/-- **Every run consists of moments.** -/
theorem moment_runServer (cfg : Config η) (opened : List FileDescriptor)
    (polls : List (Except ℤ (List Event))) :
    ServerMoment cfg opened (runServer cfg opened polls) :=
  Bus.Moment.start.after cfg.epfd polls

end Proxy
end PsqlTcpProxy
