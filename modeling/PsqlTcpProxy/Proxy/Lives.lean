import PsqlTcpProxy.Io.ChannelPrompt
import PsqlTcpProxy.Proxy.Crossing

/-!
# Who holds a session

A session's sockets are closed when their last holder lets go.  The holders are
the callbacks on the bus, and code that is running: a session being made, a
callback being destroyed.  `Lives cfg held reserved s` is the invariant that ties
the three together; `held` are the holders outside the bus, one entry each, and
`reserved` the descriptors that are open and belong to nobody yet.

It says what keeps a descriptor number from having two masters: every callback's
session is alive (`counted`), the sockets of a session that is alive are open
(`World.Orderly.alive`), no two share a descriptor (`apart`), and the kernel hands
out no descriptor that is open.  So all callbacks of a descriptor belong to one
session, the one that registered last (`tagged`).
-/

namespace PsqlTcpProxy
namespace Proxy

open Library Io Server

variable {η : Type}

/-! ## Sessions and the world -/

/-- Every `send` takes all it is offered, and no input callback throws. -/
structure Config.Prompt (cfg : Config η) : Prop where
  send : ∀ tick offered, (cfg.kernel tick).send offered = .sent (Fin.last offered.length)
  handlers : ∀ fd, Steady (cfg.handlers fd)

namespace Session

variable {cfg : Config η}

/-- A session that is in order: both streams are intact, and the channels connect
its two sockets.  Between two events their buffers are empty if the other side
keeps up. -/
structure Ok (cfg : Config η) (x : Session η) : Prop where
  intact : ∀ dir, (x.flow dir).Intact
  drained : cfg.Prompt → ∀ dir,
    (x.flow dir).channel.buffer.held = [] ∧ Steady (x.flow dir).channel.handlers
  lr_wired : x.lr.channel.left = x.client ∧ x.lr.channel.right = x.target
  rl_wired : x.rl.channel.left = x.target ∧ x.rl.channel.right = x.client
  client_open : 0 ≤ x.client
  target_open : 0 ≤ x.target

@[simp] theorem setFlow_fds (x : Session η) (dir : Direction) (f : Flow η) :
    (x.setFlow dir f).fds = x.fds := by
  cases dir <;> rfl

@[simp] theorem setFlow_client (x : Session η) (dir : Direction) (f : Flow η) :
    (x.setFlow dir f).client = x.client := by
  cases dir <;> rfl

@[simp] theorem setFlow_target (x : Session η) (dir : Direction) (f : Flow η) :
    (x.setFlow dir f).target = x.target := by
  cases dir <;> rfl

@[simp] theorem setFlow_references (x : Session η) (dir : Direction) (f : Flow η) :
    (x.setFlow dir f).references = x.references := by
  cases dir <;> rfl

theorem mem_fds {x : Session η} {fd : FileDescriptor} :
    fd ∈ x.fds ↔ fd = x.client ∨ fd = x.target := by
  simp [fds]

/-- A channel that still connects the same two sockets can be replaced. -/
theorem Ok.setFlow {x : Session η} (h : x.Ok cfg) {dir : Direction} {f : Flow η} (hf : f.Intact)
    (hdrained : cfg.Prompt → f.channel.buffer.held = [] ∧ Steady f.channel.handlers)
    (hleft : f.channel.left = (x.flow dir).channel.left)
    (hright : f.channel.right = (x.flow dir).channel.right) : (x.setFlow dir f).Ok cfg := by
  cases dir with
  | lr =>
    refine ⟨?_, ?_, ⟨hleft.trans h.lr_wired.1, hright.trans h.lr_wired.2⟩, h.rl_wired,
      h.client_open, h.target_open⟩
    · rintro (_ | _)
      · exact hf
      · exact h.intact .rl
    · rintro hprompt (_ | _)
      · exact hdrained hprompt
      · exact h.drained hprompt .rl
  | rl =>
    refine ⟨?_, ?_, h.lr_wired, ⟨hleft.trans h.rl_wired.1, hright.trans h.rl_wired.2⟩,
      h.client_open, h.target_open⟩
    · rintro (_ | _)
      · exact h.intact .lr
      · exact hf
    · rintro hprompt (_ | _)
      · exact h.drained hprompt .lr
      · exact hdrained hprompt

/-- **An event of a channel** leaves the session in order. -/
theorem Ok.after {x : Session η} (h : x.Ok cfg) {dir : Direction} {e : ChannelEvent} {o : Outcome η}
    (ho : (x.flow dir).channel.handle e = some o) (hwhole : cfg.Prompt → e.Whole) :
    (x.setFlow dir ((x.flow dir).after o)).Ok cfg := by
  have hsound := (h.intact dir).sound
  obtain ⟨o', ho', hsound', hheld⟩ := Channel.handle_correct hsound e
  obtain rfl := Option.some.inj (ho'.symm.trans ho)
  obtain ⟨hleft, hright⟩ := Channel.handle_keeps hsound ho
  refine h.setFlow ((h.intact dir).after hsound' hheld) ?_ hleft hright
  intro hprompt
  obtain ⟨hnil, hsteady⟩ := h.drained hprompt dir
  constructor
  · exact Channel.handle_drains hsound hnil hsteady (hwhole hprompt) ho
  · show Steady o'.channel.handlers
    rw [Channel.handle_handlers ho]
    exact hsteady

/-- The holders do not matter. -/
theorem Ok.setReferences {x : Session η} (h : x.Ok cfg) (n : ℕ) :
    ({ x with references := n } : Session η).Ok cfg := by
  refine ⟨?_, ?_, h.lr_wired, h.rl_wired, h.client_open, h.target_open⟩
  · rintro (_ | _)
    · exact h.intact .lr
    · exact h.intact .rl
  · rintro hprompt (_ | _)
    · exact h.drained hprompt .lr
    · exact h.drained hprompt .rl

/-- No channel ends in a descriptor that is closed. -/
theorem Ok.right_open {x : Session η} (h : x.Ok cfg) (dir : Direction) :
    (x.flow dir).channel.right ≠ -1 := by
  have hne : ∀ fd : FileDescriptor, 0 ≤ fd → fd ≠ -1 := by
    rintro fd hfd rfl
    exact absurd hfd (by decide)
  cases dir with
  | lr =>
    rw [Session.flow, h.lr_wired.2]
    exact hne _ h.target_open
  | rl =>
    rw [Session.flow, h.rl_wired.2]
    exact hne _ h.client_open

end Session

namespace World

/-- A session that has holders. -/
def Live (w : World η) (sid : SessionId) (x : Session η) : Prop :=
  w.sessions sid = some x ∧ 0 < x.references

/-- Neither the acceptor's descriptor nor one of a session that has holders. -/
def Unused (cfg : Config η) (w : World η) (fd : FileDescriptor) : Prop :=
  fd ≠ cfg.listener ∧ ∀ sid x, w.Live sid x → fd ∉ x.fds

/-- The descriptors and the sessions of a world are in order. -/
structure Orderly (cfg : Config η) (reserved : List FileDescriptor) (w : World η) : Prop where
  listening : cfg.listener ∈ w.opened
  /-- The sockets of a session that has holders are two and open. -/
  alive : ∀ sid x, w.Live sid x →
    x.client ≠ x.target ∧ ∀ fd ∈ x.fds, fd ∈ w.opened ∧ fd ≠ cfg.listener
  /-- Two sessions that have holders share no socket. -/
  apart : ∀ sid sid' x x', w.Live sid x → w.Live sid' x' → ∀ fd ∈ x.fds, fd ∈ x'.fds → sid = sid'
  /-- A reserved descriptor is open and unused. -/
  reserved : ∀ fd ∈ reserved, fd ∈ w.opened ∧ 0 ≤ fd ∧ Unused cfg w fd
  /-- Sessions are numbered in order. -/
  unborn : ∀ sid, w.nextSession ≤ sid → w.sessions sid = none
  ok : ∀ sid x, w.sessions sid = some x → x.Ok cfg

variable {cfg : Config η} {reserved : List FileDescriptor} {w w' : World η}

theorem live_setSession {sid sid' : SessionId} {x x' : Session η}
    (h : Live (w.setSession sid x') sid' x) : (sid' = sid ∧ x = x' ∧ 0 < x'.references) ∨
      (sid' ≠ sid ∧ w.Live sid' x) := by
  obtain ⟨hx, hpos⟩ := h
  simp only [Io.World.setSession] at hx
  by_cases heq : sid' = sid
  · rw [if_pos heq] at hx
    obtain rfl := Option.some.inj hx
    exact Or.inl ⟨heq, rfl, hpos⟩
  · rw [if_neg heq] at hx
    exact Or.inr ⟨heq, hx, hpos⟩

namespace Orderly

/-- The clock and `errno` do not matter. -/
theorem of_eq (h : Orderly cfg reserved w) (hopened : w'.opened = w.opened)
    (hsessions : w'.sessions = w.sessions) (hnext : w'.nextSession = w.nextSession) :
    Orderly cfg reserved w' := by
  obtain ⟨tick, opened, sessions, nextSession, errno, calls⟩ := w
  obtain ⟨tick', opened', sessions', nextSession', errno', calls'⟩ := w'
  obtain rfl : opened' = opened := hopened
  obtain rfl : sessions' = sessions := hsessions
  obtain rfl : nextSession' = nextSession := hnext
  exact ⟨h.listening, h.alive, h.apart, h.reserved, h.unborn, h.ok⟩

theorem weaken {fd : FileDescriptor} (h : Orderly cfg (fd :: reserved) w) :
    Orderly cfg reserved w :=
  ⟨h.listening, h.alive, h.apart, fun fd' hfd' => h.reserved fd' (List.mem_cons_of_mem _ hfd'),
    h.unborn, h.ok⟩

/-- A session is replaced by one with the same sockets, which is not brought back
to life. -/
theorem update (h : Orderly cfg reserved w) {sid : SessionId} {x x' : Session η}
    (hx : w.sessions sid = some x) (hclient : x'.client = x.client) (htarget : x'.target = x.target)
    (hlive : 0 < x'.references → 0 < x.references) (hok : x'.Ok cfg) :
    Orderly cfg reserved (w.setSession sid x') := by
  have hfds : x'.fds = x.fds := by rw [Session.fds, Session.fds, hclient, htarget]
  -- whoever is alive afterwards was alive before, with the same sockets
  have hwas : ∀ sid' y, Live (w.setSession sid x') sid' y →
      ∃ z, w.Live sid' z ∧ y.fds = z.fds ∧ y.client = z.client ∧ y.target = z.target := by
    intro sid' y hy
    rcases live_setSession hy with ⟨rfl, rfl, hpos⟩ | ⟨-, hy⟩
    · exact ⟨x, ⟨hx, hlive hpos⟩, hfds, hclient, htarget⟩
    · exact ⟨y, hy, rfl, rfl, rfl⟩
  refine ⟨h.listening, ?_, ?_, ?_, ?_, ?_⟩
  · intro sid' y hy
    obtain ⟨z, hz, hyz, hc, ht⟩ := hwas sid' y hy
    rw [hyz, hc, ht]
    exact h.alive sid' z hz
  · intro sid₁ sid₂ y₁ y₂ hy₁ hy₂ fd hfd₁ hfd₂
    obtain ⟨z₁, hz₁, hyz₁, -⟩ := hwas sid₁ y₁ hy₁
    obtain ⟨z₂, hz₂, hyz₂, -⟩ := hwas sid₂ y₂ hy₂
    rw [hyz₁] at hfd₁
    rw [hyz₂] at hfd₂
    exact h.apart sid₁ sid₂ z₁ z₂ hz₁ hz₂ fd hfd₁ hfd₂
  · intro fd hfd
    obtain ⟨hopen, hnonneg, hlistener, hnone⟩ := h.reserved fd hfd
    refine ⟨hopen, hnonneg, hlistener, fun sid' y hy => ?_⟩
    obtain ⟨z, hz, hyz, -⟩ := hwas sid' y hy
    rw [hyz]
    exact hnone sid' z hz
  · intro sid' hle
    have hne : sid' ≠ sid := by
      rintro rfl
      rw [h.unborn sid' hle] at hx
      cases hx
    show (if sid' = sid then some x' else w.sessions sid') = none
    rw [if_neg hne]
    exact h.unborn sid' hle
  · intro sid' y hy
    simp only [Io.World.setSession] at hy
    split at hy
    · obtain rfl := Option.some.inj hy
      exact hok
    · exact h.ok sid' y hy

/-- The kernel hands out a descriptor. -/
theorem opening (h : Orderly cfg reserved w) {fd : FileDescriptor} (hnonneg : 0 ≤ fd)
    (hnew : fd ∉ w.opened) : Orderly cfg (fd :: reserved) { w with opened := fd :: w.opened } := by
  refine ⟨List.mem_cons_of_mem _ h.listening, ?_, h.apart, ?_, h.unborn, h.ok⟩
  · intro sid x hx
    obtain ⟨hne, hfds⟩ := h.alive sid x hx
    exact ⟨hne, fun fd' hfd' => ⟨List.mem_cons_of_mem _ (hfds fd' hfd').1, (hfds fd' hfd').2⟩⟩
  · intro fd' hfd'
    rcases List.mem_cons.mp hfd' with rfl | hfd'
    · refine ⟨List.mem_cons_self, hnonneg, ?_, ?_⟩
      · rintro rfl
        exact hnew h.listening
      · intro sid x hx hmem
        exact hnew ((h.alive sid x hx).2 _ hmem).1
    · obtain ⟨hopen, hrest⟩ := h.reserved fd' hfd'
      exact ⟨List.mem_cons_of_mem _ hopen, hrest⟩

/-- A descriptor that is unused and not reserved is closed. -/
theorem closing (h : Orderly cfg reserved w) {fd : FileDescriptor} (hunused : Unused cfg w fd)
    (hreserved : fd ∉ reserved) :
    Orderly cfg reserved { w with opened := w.opened.filter (· ≠ fd) } := by
  have hkept : ∀ fd' ∈ w.opened, fd' ≠ fd → fd' ∈ w.opened.filter (· ≠ fd) := by
    intro fd' hfd' hne
    exact List.mem_filter.mpr ⟨hfd', by simpa using hne⟩
  refine ⟨hkept _ h.listening (Ne.symm hunused.1), ?_, h.apart, ?_, h.unborn, h.ok⟩
  · intro sid x hx
    obtain ⟨hne, hfds⟩ := h.alive sid x hx
    refine ⟨hne, fun fd' hfd' => ⟨hkept _ (hfds fd' hfd').1 ?_, (hfds fd' hfd').2⟩⟩
    rintro rfl
    exact hunused.2 sid x hx hfd'
  · intro fd' hfd'
    obtain ⟨hopen, hrest⟩ := h.reserved fd' hfd'
    refine ⟨hkept _ hopen ?_, hrest⟩
    rintro rfl
    exact hreserved hfd'

/-- The last holder of a session lets go: nobody shares its sockets. -/
theorem last_released (h : Orderly cfg reserved w) {sid : SessionId} {x : Session η}
    (hlive : w.Live sid x) (hlast : x.references = 1) {fd : FileDescriptor} (hfd : fd ∈ x.fds) :
    Unused cfg (w.setSession sid { x with references := x.references - 1 }) fd ∧
      fd ∉ reserved := by
  refine ⟨⟨((h.alive sid x hlive).2 fd hfd).2, ?_⟩, ?_⟩
  · intro sid' y hy hfdy
    rcases live_setSession hy with ⟨-, -, hpos⟩ | ⟨hne, hold⟩
    · rw [hlast] at hpos
      exact absurd hpos (Nat.lt_irrefl 0)
    · exact hne (h.apart sid' sid y x hold hlive fd hfdy hfd)
  · intro hreserved
    exact (h.reserved fd hreserved).2.2.2 sid x hlive hfd

/-- Two reserved descriptors become the sockets of a new session. -/
theorem birth {client target : FileDescriptor} (h : Orderly cfg [target, client] w)
    (hne : client ≠ target) {x : Session η} (hclient : x.client = client)
    (htarget : x.target = target) (hok : x.Ok cfg) :
    Orderly cfg [] { w.setSession w.nextSession x with nextSession := w.nextSession + 1 } := by
  obtain ⟨hopen, -, hunused⟩ := h.reserved client (by simp)
  obtain ⟨hopen', -, hunused'⟩ := h.reserved target (by simp)
  have hfds : ∀ fd ∈ x.fds, fd ∈ w.opened ∧ Unused cfg w fd := by
    intro fd hfd
    rcases Session.mem_fds.mp hfd with rfl | rfl
    · rw [hclient]
      exact ⟨hopen, hunused⟩
    · rw [htarget]
      exact ⟨hopen', hunused'⟩
  have hcases : ∀ sid y, Live (w.setSession w.nextSession x) sid y →
      (sid = w.nextSession ∧ y = x) ∨ w.Live sid y := by
    intro sid y hy
    rcases live_setSession hy with ⟨hsid, hyx, -⟩ | ⟨-, hy⟩
    · exact Or.inl ⟨hsid, hyx⟩
    · exact Or.inr hy
  refine ⟨h.listening, ?_, ?_, by simp, ?_, ?_⟩
  · intro sid y hy
    rcases hcases sid y hy with ⟨-, rfl⟩ | hy
    · constructor
      · rw [hclient, htarget]
        exact hne
      · exact fun fd hfd => ⟨(hfds fd hfd).1, (hfds fd hfd).2.1⟩
    · exact h.alive sid y hy
  · intro sid sid' y y' hy hy' fd hfd hfd'
    rcases hcases sid y hy with ⟨rfl, rfl⟩ | hold
    · rcases hcases sid' y' hy' with ⟨rfl, -⟩ | hold'
      · rfl
      · exact absurd hfd' ((hfds fd hfd).2.2 sid' y' hold')
    · rcases hcases sid' y' hy' with ⟨rfl, rfl⟩ | hold'
      · exact absurd hfd ((hfds fd hfd').2.2 sid y hold)
      · exact h.apart sid sid' y y' hold hold' fd hfd hfd'
  · intro sid hle
    have hlt : w.nextSession < sid := hle
    show (if sid = w.nextSession then some x else w.sessions sid) = none
    rw [if_neg (Nat.ne_of_gt hlt)]
    exact h.unborn sid (Nat.le_of_lt hlt)
  · intro sid y hy
    simp only [Io.World.setSession] at hy
    split at hy
    · obtain rfl := Option.some.inj hy
      exact hok
    · exact h.ok sid y hy

end Orderly

end World

/-! ## The bus -/

/-- The callbacks of a descriptor. -/
def callbacksAt (s : ProxyBus η) (fd : FileDescriptor) : List Callback :=
  (s.callbackMap fd).getD []

theorem callbacksAt_setCallbacks (s : ProxyBus η) (fd fd' : FileDescriptor)
    (callbacks : Option (List Callback)) :
    callbacksAt (s.setCallbacks fd callbacks) fd' =
      if fd' = fd then callbacks.getD [] else callbacksAt s fd' := by
  simp only [callbacksAt, Bus.setCallbacks]
  split
  · rfl
  · rfl

theorem callbacksAt_pushBack (s : ProxyBus η) (fd fd' : FileDescriptor) (callback : Callback) :
    callbacksAt (s.pushBack fd (callbacksAt s fd) (some callback)) fd' =
      if fd' = fd then callbacksAt s fd' ++ [callback] else callbacksAt s fd' := by
  by_cases heq : fd' = fd
  · subst heq
    simp [callbacksAt, Bus.pushBack, Bus.log, Bus.setCallbacks]
  · simp [callbacksAt, Bus.pushBack, Bus.log, Bus.setCallbacks, heq]

/-- The sessions that the callbacks of a descriptor hold. -/
def holders (s : ProxyBus η) (fd : FileDescriptor) : List SessionId :=
  (callbacksAt s fd).filterMap Callback.session?

/-- **Who holds a session.**  The invariant of a proxy server, while code outside
the bus holds `held`. -/
structure Lives (cfg : Config η) (held : List SessionId) (reserved : List FileDescriptor)
    (s : ProxyBus η) : Prop where
  world : s.world.Orderly cfg reserved
  born : ∀ sid ∈ held, sid < s.world.nextSession
  /-- Only the acceptor's callback belongs to no session. -/
  accepting : ∀ fd, ∀ callback ∈ callbacksAt s fd, callback.session? = none → fd = cfg.listener
  /-- A callback's descriptor is a socket of its session. -/
  owned : ∀ fd, ∀ sid ∈ holders s fd, ∃ x, s.world.sessions sid = some x ∧ fd ∈ x.fds
  /-- Every holder is counted. -/
  counted : ∀ sid x, s.world.sessions sid = some x →
    (holders s x.client ++ holders s x.target ++ held).count sid ≤ x.references
  /-- The callbacks of a descriptor belong to the session that registered last. -/
  tagged : ∀ fd, ∀ callback ∈ callbacksAt s fd, (watch s.trace).owner fd = callback.session?

namespace Lives

variable {cfg : Config η} {held : List SessionId} {reserved : List FileDescriptor}
  {s t : ProxyBus η} {sid : SessionId} {x x' : Session η} {fd : FileDescriptor}

/-- What a callback holds, a session has. -/
theorem live_of_holder (h : Lives cfg held reserved s) (hsid : sid ∈ holders s fd) :
    ∃ x, s.world.Live sid x ∧ fd ∈ x.fds := by
  obtain ⟨x, hx, hfd⟩ := h.owned fd sid hsid
  refine ⟨x, ⟨hx, Nat.lt_of_lt_of_le ?_ (h.counted sid x hx)⟩, hfd⟩
  rw [List.count_pos_iff]
  rcases Session.mem_fds.mp hfd with rfl | rfl
  · exact List.mem_append_left _ (List.mem_append_left _ hsid)
  · exact List.mem_append_left _ (List.mem_append_right _ hsid)

/-- What running code holds is alive, if it exists. -/
theorem live_of_held (h : Lives cfg held reserved s) (hsid : sid ∈ held)
    (hx : s.world.sessions sid = some x) : s.world.Live sid x := by
  refine ⟨hx, Nat.lt_of_lt_of_le ?_ (h.counted sid x hx)⟩
  rw [List.count_pos_iff]
  exact List.mem_append_right _ hsid

/-- The queue, the marks, the clock and all lines but registrations do not
matter. -/
theorem of_eq (h : Lives cfg held reserved s) (hmap : t.callbackMap = s.callbackMap)
    (hopened : t.world.opened = s.world.opened) (hsessions : t.world.sessions = s.world.sessions)
    (hnext : t.world.nextSession = s.world.nextSession)
    (howner : (watch t.trace).owner = (watch s.trace).owner) : Lives cfg held reserved t := by
  have hat : ∀ fd, callbacksAt t fd = callbacksAt s fd := by
    intro fd
    rw [callbacksAt, callbacksAt, hmap]
  have hholders : ∀ fd, holders t fd = holders s fd := by
    intro fd
    rw [holders, holders, hat]
  refine ⟨h.world.of_eq hopened hsessions hnext, ?_, ?_, ?_, ?_, ?_⟩
  · rw [hnext]
    exact h.born
  · intro fd callback
    rw [hat]
    exact h.accepting fd callback
  · intro fd sid
    rw [hholders, hsessions]
    exact h.owned fd sid
  · intro sid x
    rw [hsessions, hholders, hholders]
    exact h.counted sid x
  · intro fd callback
    rw [hat, howner]
    exact h.tagged fd callback

/-- Only the descriptors that are open change. -/
theorem of_world (h : Lives cfg held reserved s) {reserved' : List FileDescriptor} {w : World η}
    (hw : w.Orderly cfg reserved') (hsessions : w.sessions = s.world.sessions)
    (hnext : w.nextSession = s.world.nextSession) :
    Lives cfg held reserved' { s with world := w } := by
  refine ⟨hw, ?_, h.accepting, ?_, ?_, h.tagged⟩
  · show ∀ sid ∈ held, sid < w.nextSession
    rw [hnext]
    exact h.born
  · show ∀ fd, ∀ sid ∈ holders s fd, ∃ x, w.sessions sid = some x ∧ fd ∈ x.fds
    rw [hsessions]
    exact h.owned
  · show ∀ sid x, w.sessions sid = some x →
      (holders s x.client ++ holders s x.target ++ held).count sid ≤ x.references
    rw [hsessions]
    exact h.counted

theorem log (h : Lives cfg held reserved s) {entry : Entry Callback}
    (hentry : ∀ fd callback, entry ≠ .added fd callback) :
    Lives cfg held reserved (s.log entry) := by
  refine h.of_eq rfl rfl rfl rfl ?_
  simp only [Bus.log, watch_append, List.foldl_cons, List.foldl_nil]
  exact Watch.owner_step _ hentry

/-- A session is replaced, and the number of its holders with it. -/
theorem update {held' : List SessionId} (h : Lives cfg held reserved s) (x' : Session η)
    (hx : s.world.sessions sid = some x) (hclient : x'.client = x.client)
    (htarget : x'.target = x.target) (hlive : 0 < x'.references → 0 < x.references)
    (hok : x'.Ok cfg) (hborn : ∀ sid' ∈ held', sid' < s.world.nextSession)
    (hcount : (holders s x.client ++ holders s x.target ++ held').count sid ≤ x'.references)
    (hothers : ∀ sid', sid' ≠ sid → held'.count sid' ≤ held.count sid') :
    Lives cfg held' reserved { s with world := s.world.setSession sid x' } := by
  refine ⟨h.world.update hx hclient htarget hlive hok, hborn, h.accepting, ?_, ?_, h.tagged⟩
  · intro fd sid' hsid'
    obtain ⟨y, hy, hfd⟩ := h.owned fd sid' hsid'
    by_cases heq : sid' = sid
    · subst heq
      obtain rfl := Option.some.inj (hx.symm.trans hy)
      refine ⟨x', if_pos rfl, ?_⟩
      rw [Session.fds, hclient, htarget]
      exact hfd
    · exact ⟨y, (if_neg heq).trans hy, hfd⟩
  · intro sid' y hy
    by_cases heq : sid' = sid
    · subst heq
      obtain rfl := Option.some.inj ((if_pos rfl).symm.trans hy)
      rw [hclient, htarget]
      exact hcount
    · have hy' : s.world.sessions sid' = some y := (if_neg heq).symm.trans hy
      have hle := h.counted sid' y hy'
      have hheld := hothers sid' heq
      show (holders s y.client ++ holders s y.target ++ held').count sid' ≤ y.references
      rw [List.count_append] at hle ⊢
      omega

/-- One holder more. -/
theorem retained (h : Lives cfg held reserved s) (hsid : sid ∈ held)
    (hx : s.world.sessions sid = some x) : Lives cfg (sid :: held) reserved
      { s with world := s.world.setSession sid { x with references := x.references + 1 } } := by
  have hlive := h.live_of_held hsid hx
  refine h.update _ hx rfl rfl (fun _ => hlive.2) ((h.world.ok sid x hx).setReferences _) ?_ ?_ ?_
  · exact List.forall_mem_cons.mpr ⟨h.born sid hsid, h.born⟩
  · have hle := h.counted sid x hx
    rw [List.count_append] at hle ⊢
    rw [List.count_cons_self]
    exact Nat.succ_le_succ hle
  · intro sid' hne
    rw [List.count_cons_of_ne (Ne.symm hne)]

/-- One holder less. -/
theorem released (h : Lives cfg (sid :: held) reserved s) (hx : s.world.sessions sid = some x) :
    Lives cfg held reserved
      { s with world := s.world.setSession sid { x with references := x.references - 1 } } := by
  have hlive := h.live_of_held List.mem_cons_self hx
  refine h.update _ hx rfl rfl (fun _ => hlive.2) ((h.world.ok sid x hx).setReferences _) ?_ ?_ ?_
  · exact (List.forall_mem_cons.mp h.born).2
  · have hle := h.counted sid x hx
    rw [List.count_append, List.count_cons_self] at hle
    rw [List.count_append]
    exact Nat.le_sub_one_of_lt hle
  · intro sid' hne
    rw [List.count_cons_of_ne (Ne.symm hne)]

/-- A session's channel has handled an event. -/
theorem handled (h : Lives cfg held reserved s) (hx : s.world.sessions sid = some x)
    {dir : Direction} {e : ChannelEvent} {o : Outcome η}
    (ho : (x.flow dir).channel.handle e = some o) (hwhole : cfg.Prompt → e.Whole) :
    Lives cfg held reserved
      { s with world := s.world.setSession sid (x.setFlow dir ((x.flow dir).after o)) } := by
  refine h.update _ hx (Session.setFlow_client _ _ _) (Session.setFlow_target _ _ _) ?_
    ((h.world.ok sid x hx).after ho hwhole) h.born ?_ ?_
  · rw [Session.setFlow_references]
    exact id
  · rw [Session.setFlow_references]
    exact h.counted sid x hx
  · exact fun sid' _ => Nat.le_refl _

/-- **A new session.** -/
theorem birth {client target : FileDescriptor} (h : Lives cfg held [target, client] s)
    (hne : client ≠ target) (hclient : x.client = client) (htarget : x.target = target)
    (hreferences : x.references = 1) (hok : x.Ok cfg) :
    Lives cfg (s.world.nextSession :: held) []
      { s with world := { s.world.setSession s.world.nextSession x with
          nextSession := s.world.nextSession + 1 } } := by
  have hnone := h.world.unborn s.world.nextSession (Nat.le_refl _)
  have hfree : ∀ fd, s.world.nextSession ∉ holders s fd := by
    intro fd hmem
    obtain ⟨y, hy, -⟩ := h.owned fd _ hmem
    rw [hnone] at hy
    cases hy
  refine ⟨h.world.birth hne hclient htarget hok, ?_, h.accepting, ?_, ?_, h.tagged⟩
  · intro sid hsid
    rcases List.mem_cons.mp hsid with rfl | hsid
    · exact Nat.lt_succ_self _
    · exact Nat.lt_succ_of_lt (h.born sid hsid)
  · intro fd sid hsid
    obtain ⟨y, hy, hfd⟩ := h.owned fd sid hsid
    refine ⟨y, (if_neg ?_).trans hy, hfd⟩
    rintro rfl
    exact hfree fd hsid
  · intro sid y hy
    show (holders s y.client ++ holders s y.target ++ s.world.nextSession :: held).count sid ≤
      y.references
    by_cases heq : sid = s.world.nextSession
    · subst heq
      obtain rfl := Option.some.inj ((if_pos rfl).symm.trans hy)
      have hheld : s.world.nextSession ∉ held := fun hmem => Nat.lt_irrefl _ (h.born _ hmem)
      rw [hreferences, List.count_append, List.count_append,
        List.count_eq_zero_of_not_mem (hfree _), List.count_eq_zero_of_not_mem (hfree _),
        List.count_cons_self,
        List.count_eq_zero_of_not_mem hheld]
    · rw [List.count_append, List.count_cons_of_ne (Ne.symm heq), ← List.count_append]
      exact h.counted sid y ((if_neg heq).symm.trans hy)

/-- **A callback is registered.**  It takes over a hold on its session. -/
theorem pushBack (h : Lives cfg (sid :: held) reserved s) (hx : s.world.sessions sid = some x)
    (hfd : fd ∈ x.fds) {callback : Callback} (hcallback : callback.session? = some sid) :
    Lives cfg held reserved (s.pushBack fd (callbacksAt s fd) (some callback)) := by
  have hlive := h.live_of_held List.mem_cons_self hx
  obtain ⟨hne, hfds⟩ := h.world.alive sid x hlive
  have hat : ∀ fd', callbacksAt (s.pushBack fd (callbacksAt s fd) (some callback)) fd' =
      if fd' = fd then callbacksAt s fd' ++ [callback] else callbacksAt s fd' :=
    fun fd' => callbacksAt_pushBack s fd fd' callback
  have hholders : ∀ fd', holders (s.pushBack fd (callbacksAt s fd) (some callback)) fd' =
      if fd' = fd then holders s fd' ++ [sid] else holders s fd' := by
    intro fd'
    rw [holders, hat]
    split
    · rw [List.filterMap_append, List.filterMap_cons_some hcallback]
      rfl
    · rfl
  refine ⟨h.world, fun sid' hsid' => h.born sid' (List.mem_cons_of_mem _ hsid'), ?_, ?_, ?_, ?_⟩
  · intro fd' callback' hcallback' hnone
    rw [hat] at hcallback'
    split at hcallback'
    · rcases List.mem_append.mp hcallback' with hold | hnew
      · exact h.accepting fd' callback' hold hnone
      · rw [List.mem_singleton.mp hnew, hcallback] at hnone
        cases hnone
    · exact h.accepting fd' callback' hcallback' hnone
  · intro fd' sid' hsid'
    rw [hholders] at hsid'
    split at hsid'
    · rename_i heq
      rcases List.mem_append.mp hsid' with hold | hnew
      · exact h.owned fd' sid' hold
      · rw [List.mem_singleton.mp hnew, heq]
        exact ⟨x, hx, hfd⟩
    · exact h.owned fd' sid' hsid'
  · intro sid' y hy
    have hle := h.counted sid' y hy
    rw [hholders, hholders]
    simp only [List.count_append, List.count_cons] at hle ⊢
    by_cases heq : sid' = sid
    · subst heq
      obtain rfl := Option.some.inj (hx.symm.trans hy)
      -- the descriptor is one of the two sockets, and not both
      rcases Session.mem_fds.mp hfd with rfl | rfl
      · rw [if_pos rfl, if_neg (Ne.symm hne), List.count_append, List.count_singleton_self]
        simp at hle
        omega
      · rw [if_neg hne, if_pos rfl, List.count_append, List.count_singleton_self]
        simp at hle
        omega
    · have hsame : ∀ fd', (if fd' = fd then holders s fd' ++ [sid] else holders s fd').count sid' =
          (holders s fd').count sid' := by
        intro fd'
        split
        · rw [List.count_append, List.count_singleton, if_neg (by simpa using Ne.symm heq),
            Nat.add_zero]
        · rfl
      rw [hsame, hsame]
      omega
  · intro fd' callback' hcallback'
    have howner : (watch (s.pushBack fd (callbacksAt s fd) (some callback)).trace).owner fd' =
        if fd' = fd then some sid else (watch s.trace).owner fd' := by
      simp only [Bus.pushBack, Bus.log, watch_append, List.foldl_cons, List.foldl_nil, Watch.step,
        hcallback]
      rfl
    rw [howner]
    rw [hat] at hcallback'
    split
    · rename_i heq
      subst heq
      rw [if_pos rfl] at hcallback'
      rcases List.mem_append.mp hcallback' with hold | hnew
      · -- the callbacks that were there belong to the same session
        rcases hsession : callback'.session? with _ | sid'
        · exact absurd (h.accepting fd' callback' hold hsession) (hfds fd' hfd).2
        · have hholder : sid' ∈ holders s fd' := List.mem_filterMap.mpr ⟨callback', hold, hsession⟩
          obtain ⟨y, hy, hfd'⟩ := h.live_of_holder hholder
          rw [h.world.apart sid sid' x y hlive hy fd' hfd hfd']
      · rw [List.mem_singleton.mp hnew, hcallback]
    · rename_i heq
      rw [if_neg heq] at hcallback'
      exact h.tagged fd' callback' hcallback'

/-- **The callbacks of a descriptor are removed.**  Whoever removes them holds what
they held. -/
theorem remove (h : Lives cfg held reserved s) (fd : FileDescriptor)
    (callbacks : Option (List Callback)) (hempty : callbacks.getD [] = []) :
    Lives cfg (holders s fd ++ held) reserved (s.setCallbacks fd callbacks) := by
  have hat : ∀ fd', callbacksAt (s.setCallbacks fd callbacks) fd' =
      if fd' = fd then [] else callbacksAt s fd' := by
    intro fd'
    rw [callbacksAt_setCallbacks, hempty]
  have hholders : ∀ fd', holders (s.setCallbacks fd callbacks) fd' =
      if fd' = fd then [] else holders s fd' := by
    intro fd'
    rw [holders, hat]
    split
    · rfl
    · rfl
  have hkept : ∀ fd', ∀ callback ∈ callbacksAt (s.setCallbacks fd callbacks) fd',
      callback ∈ callbacksAt s fd' := by
    intro fd' callback hcallback
    rw [hat] at hcallback
    split at hcallback
    · cases hcallback
    · exact hcallback
  refine ⟨h.world, ?_, ?_, ?_, ?_, ?_⟩
  · intro sid hsid
    rcases List.mem_append.mp hsid with hsid | hsid
    · obtain ⟨x, hx, -⟩ := h.owned fd sid hsid
      by_contra hlt
      rw [h.world.unborn sid (Nat.le_of_not_lt hlt)] at hx
      cases hx
    · exact h.born sid hsid
  · intro fd' callback hcallback
    exact h.accepting fd' callback (hkept fd' callback hcallback)
  · intro fd' sid hsid
    rw [hholders] at hsid
    split at hsid
    · cases hsid
    · exact h.owned fd' sid hsid
  · intro sid x hx
    have hle := h.counted sid x hx
    rw [hholders, hholders]
    by_cases hfd : fd ∈ x.fds
    · simp only [List.count_append] at hle ⊢
      rcases Session.mem_fds.mp hfd with rfl | rfl
      · rw [if_pos rfl, List.count_nil]
        split
        · rw [List.count_nil]
          omega
        · omega
      · rw [if_pos rfl, List.count_nil]
        split
        · rw [List.count_nil]
          omega
        · omega
    · -- none of the callbacks removed holds this session
      have hnone : sid ∉ holders s fd := by
        intro hmem
        obtain ⟨y, hy, hmem⟩ := h.owned fd sid hmem
        obtain rfl := Option.some.inj (hx.symm.trans hy)
        exact hfd hmem
      have hclient : x.client ≠ fd := fun heq => hfd (Session.mem_fds.mpr (Or.inl heq.symm))
      have htarget : x.target ≠ fd := fun heq => hfd (Session.mem_fds.mpr (Or.inr heq.symm))
      rw [if_neg hclient, if_neg htarget]
      simp only [List.count_append, List.count_eq_zero_of_not_mem hnone] at hle ⊢
      omega
  · intro fd' callback hcallback
    exact h.tagged fd' callback (hkept fd' callback hcallback)

end Lives

end Proxy
end PsqlTcpProxy
