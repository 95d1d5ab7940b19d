import PsqlTcpProxy.Proxy.Registration
import PsqlTcpProxy.Proxy.Crossing

/-!
# Teardown is all or nothing

Between two dispatches a session stands at one of three places (`Stage`): it is
registered, its start has failed and it is halted with one callback, or it is gone.  Its
holders are its callbacks on the bus and nothing else (`Settled.exact`).

* During the callbacks of a dispatch the descriptors of a session are marked together
  (`Running.together`): only the session's own callback marks one, and it marks both.
  That callback comes last in both lists, and with an error callback that does not throw
  it is reached whatever the callbacks before it do (`Running.runCallbacks`).
* The flush erases the descriptors that are marked, one after the other, so a session
  loses the callbacks of both or of none (`Running.flush`); with the last callback its
  last holder is gone.
* The acceptor adds one session, and leaves the others as they are (`Accepted`).

`Passes` is the run seen between the dispatches.
-/

namespace PsqlTcpProxy
namespace Proxy

open Library Io Server

variable {η : Type} {cfg : Config η}

/-! ## Erasing -/

/-- A session has one holder for each of its callbacks. -/
theorem length_own (s : ProxyBus η) (sid : SessionId) (fd : FileDescriptor) :
    (own s sid fd).length = (holders s fd).count sid := by
  rw [own, holders]
  induction callbacksAt s fd with
  | nil => rfl
  | cons callback callbacks ih =>
    by_cases hsession : callback.session? = some sid
    · rw [List.filter_cons_of_pos (by simpa using hsession), List.filterMap_cons_some hsession,
        List.length_cons, List.count_cons_self, ih]
    · rw [List.filter_cons_of_neg (by simpa using hsession), ih]
      rcases hother : callback.session? with _ | sid'
      · rw [List.filterMap_cons_none hother]
      · rw [List.filterMap_cons_some hother, List.count_cons_of_ne]
        rintro rfl
        exact hsession hother

/-- The descriptors of a session. -/
def Session.sockets (x : Session η) : FileDescriptor × FileDescriptor := (x.client, x.target)

/-- The sessions own `o`, and besides they are held by `held`. -/
structure Counted (cfg : Config η) (base : ProxyBus η)
    (o : SessionId → FileDescriptor → List Callback) (held : List SessionId) (s : ProxyBus η) :
    Prop where
  own : own s = o
  exact : ∀ sid x, s.world.sessions sid = some x →
    x.references = (o sid x.client).length + (o sid x.target).length + held.count sid
  sockets : ∀ sid,
    (s.world.sessions sid).map Session.sockets = (base.world.sessions sid).map Session.sockets
  nextSession : s.world.nextSession = base.world.nextSession
  listening : s.callbackMap cfg.listener = base.callbackMap cfg.listener

section Counted

variable {base s t : ProxyBus η} {o : SessionId → FileDescriptor → List Callback}
  {held : List SessionId}

theorem Counted.same (h : Counted cfg base o held s) (h' : Same s t) :
    Counted cfg base o held t := by
  have hback : ∀ sid y, t.world.sessions sid = some y →
      ∃ x, s.world.sessions sid = some x ∧ x.core = y.core := by
    intro sid y hy
    have hcore := h'.core sid
    rw [hy, Option.map_some] at hcore
    exact Option.map_eq_some_iff.mp hcore.symm
  refine ⟨(own_of_callbackMap h'.callbackMap).trans h.own, fun sid y hy => ?_, fun sid => ?_,
    h'.nextSession.trans h.nextSession, (congrFun h'.callbackMap _).trans h.listening⟩
  · obtain ⟨x, hx, hcore⟩ := hback sid y hy
    rw [Session.core, Session.core, Prod.mk.injEq, Prod.mk.injEq] at hcore
    rw [← hcore.1, ← hcore.2.1, ← hcore.2.2]
    exact h.exact sid x hx
  · rw [← h.sockets sid]
    have hcore := congrArg (Option.map fun core => (core.1, core.2.1)) (h'.core sid)
    rw [Option.map_map, Option.map_map] at hcore
    exact hcore

/-- Letting go of a session. -/
theorem release_counted (sid : SessionId) :
    Ends cfg (Counted cfg base o (sid :: held)) (release cfg sid)
      fun _ => Counted cfg base o held := by
  refine release_rule (fun s hs hx => ?_) (fun s x hs hx => ?_) fun _ _ _ _ fd _ => ?_
  · refine ⟨hs.own, fun sid' y hy => ?_, hs.sockets, hs.nextSession, hs.listening⟩
    have hne : sid ≠ sid' := by
      rintro rfl
      rw [hx] at hy
      cases hy
    rw [hs.exact sid' y hy, List.count_cons_of_ne hne]
  · refine ⟨hs.own, fun sid' y hy => ?_, fun sid' => ?_, hs.nextSession, hs.listening⟩
    · by_cases heq : sid' = sid
      · subst heq
        obtain rfl := Option.some.inj ((if_pos rfl).symm.trans hy)
        have hcount := hs.exact sid' x hx
        rw [List.count_cons_self] at hcount
        show x.references - 1 =
          (o sid' x.client).length + (o sid' x.target).length + held.count sid'
        omega
      · have hcount := hs.exact sid' y ((if_neg heq).symm.trans hy)
        rw [List.count_cons_of_ne (Ne.symm heq)] at hcount
        exact hcount
    · rw [← hs.sockets sid']
      show (if sid' = sid then some _ else s.world.sessions sid').map _ = _
      split
      · rename_i heq
        rw [heq, hx]
        rfl
      · rfl
  · exact closeConnectionNoexcept_stable (fun _ _ hs h' => hs.same h')
      fun _ hs => ⟨hs.own, hs.exact, hs.sockets, hs.nextSession, hs.listening⟩

theorem counted_destroyAll (callbacks : List Callback)
    (h : Counted cfg base o (callbacks.filterMap Callback.session? ++ held) s) :
    Counted cfg base o held (s.destroyAll (host cfg) callbacks) := by
  refine Bus.destroyAll_rule (P := fun callbacks =>
    Counted cfg base o (callbacks.filterMap Callback.session? ++ held)) ?_ h
  intro callback callbacks s hs
  show Counted cfg base o _ (s.exec (host cfg) (destroy cfg callback)).2
  unfold destroy Server.destroy
  rcases hsession : callback.session? with _ | sid
  · rw [List.filterMap_cons_none hsession] at hs
    exact hs
  · rw [List.filterMap_cons_some hsession] at hs
    exact release_counted sid s hs

/-- What a session owns when a descriptor is erased. -/
def without (o : SessionId → FileDescriptor → List Callback) (fds : List FileDescriptor) :
    SessionId → FileDescriptor → List Callback :=
  fun sid fd => if fd ∈ fds then [] else o sid fd

/-- **Erasing a descriptor** takes its callbacks from their sessions, and the sessions lose
as many holders. -/
theorem counted_erase (hlives : Lives cfg [] [] s) (h : Counted cfg base o [] s)
    {fd : FileDescriptor} (hfd : fd ≠ cfg.listener) :
    Counted cfg base (without o [fd]) [] (s.erase (host cfg) fd) := by
  obtain rfl := h.own
  unfold Bus.erase
  rcases hmap : s.callbackMap fd with _ | callbacks
  · have hnone : without (own s) [fd] = own s := by
      ext sid fd' : 2
      rw [without]
      split
      · rename_i hfd
        rw [List.mem_singleton.mp hfd, own, callbacksAt, hmap]
        rfl
      · rfl
    rw [hnone]
    exact h
  · have hholders : holders s fd = callbacks.filterMap Callback.session? := by
      rw [holders, callbacksAt, hmap]
      rfl
    refine counted_destroyAll callbacks ?_
    rw [← hholders, List.append_nil]
    refine ⟨?_, fun sid x hx => ?_, h.sockets, h.nextSession,
      (if_neg (Ne.symm hfd)).trans h.listening⟩
    · ext sid fd' : 2
      rw [own, callbacksAt_setCallbacks, without]
      by_cases hfd : fd' = fd
      · rw [if_pos hfd, if_pos (List.mem_singleton.mpr hfd)]
        rfl
      · rw [if_neg hfd, if_neg (fun hmem => hfd (List.mem_singleton.mp hmem))]
        rfl
    · have hexact : x.references = (own s sid x.client).length + (own s sid x.target).length :=
        h.exact sid x hx
      have hcount := length_own s sid fd
      simp only [without, List.mem_singleton]
      rcases Nat.eq_zero_or_pos x.references with hdead | hpos
      · -- a session without holders owns nothing
        have hnone : fd ∈ x.fds → (own s sid fd).length = 0 := by
          intro hfd
          rcases Session.mem_fds.mp hfd with rfl | rfl
          · omega
          · omega
        have helsewhere : fd ∉ x.fds → (own s sid fd).length = 0 := by
          intro hfd
          rw [hcount, List.count_eq_zero]
          intro hmem
          obtain ⟨y, hy, hfd'⟩ := hlives.owned fd sid hmem
          obtain rfl := Option.some.inj (hx.symm.trans hy)
          exact hfd hfd'
        have hzero : (own s sid fd).length = 0 := by
          by_cases hfd : fd ∈ x.fds
          · exact hnone hfd
          · exact helsewhere hfd
        have hclient : (own s sid x.client).length = 0 := by omega
        have htarget : (own s sid x.target).length = 0 := by omega
        rw [List.length_eq_zero_iff] at hclient htarget
        rw [hclient, htarget, ite_self, ite_self]
        simp only [List.length_nil]
        omega
      · have hne := (hlives.world.alive sid x ⟨hx, hpos⟩).1
        by_cases hclient : x.client = fd
        · have htarget : ¬ x.target = fd := fun heq => hne (hclient.trans heq.symm)
          rw [if_pos hclient, if_neg htarget, hexact, ← hcount, hclient, List.length_nil]
          omega
        · by_cases htarget : x.target = fd
          · rw [if_neg hclient, if_pos htarget, hexact, ← hcount, htarget, List.length_nil]
            omega
          · have hnone : (holders s fd).count sid = 0 := by
              rw [List.count_eq_zero]
              intro hmem
              obtain ⟨y, hy, hfd⟩ := hlives.owned fd sid hmem
              obtain rfl := Option.some.inj (hx.symm.trans hy)
              rcases Session.mem_fds.mp hfd with heq | heq
              · exact hclient heq.symm
              · exact htarget heq.symm
            rw [if_neg hclient, if_neg htarget, hexact, hnone]
            omega

theorem without_append (o : SessionId → FileDescriptor → List Callback)
    (fds fds' : List FileDescriptor) : without (without o fds) fds' = without o (fds ++ fds') := by
  ext sid fd : 2
  simp only [without, List.mem_append]
  by_cases hfd : fd ∈ fds
  · rw [if_pos hfd, if_pos (Or.inl hfd), ite_self]
  · rw [if_neg hfd]
    by_cases hfd' : fd ∈ fds'
    · rw [if_pos hfd', if_pos (Or.inr hfd')]
    · rw [if_neg hfd', if_neg (fun hor => hor.elim hfd hfd')]

end Counted

/-! ## Where a session stands -/

/-- Where a session stands when no code of its own is running. -/
inductive Stage (s : ProxyBus η) (sid : SessionId) (x : Session η) : Prop
  /-- It has started, and its callbacks are its only holders. -/
  | registered (hown : own s sid = registrations sid x.client x.target)
    (hreferences : x.references = 6)
  /-- Its start has failed at the target's descriptor. -/
  | halted (hown : own s sid = firstOnly sid x.client) (hreferences : x.references = 1)
  /-- It has no callbacks and no holders. -/
  | gone (hown : own s sid = fun _ => []) (hreferences : x.references = 0)

/-- Every session stands somewhere. -/
structure Settled (cfg : Config η) (s : ProxyBus η) : Prop where
  lives : Lives cfg [] [] s
  listening : s.callbackMap cfg.listener = some [.accept]
  stage : ∀ sid x, s.world.sessions sid = some x → Stage s sid x

/-- Besides, the descriptors of a session are marked together. -/
structure Running (cfg : Config η) (s : ProxyBus η) : Prop extends Settled cfg s where
  nodup : s.callbacksToRemove.Nodup
  unmarked : cfg.listener ∉ s.callbacksToRemove
  together : ∀ sid x, s.world.Live sid x →
    (x.client ∈ s.callbacksToRemove ↔ x.target ∈ s.callbacksToRemove)

section Stage

variable {s t : ProxyBus η}

theorem Settled.running (h : Settled cfg s) (hclear : s.callbacksToRemove = []) :
    Running cfg s := by
  refine ⟨h, ?_, ?_, fun sid x _ => ?_⟩
  · rw [hclear]
    exact List.nodup_nil
  · rw [hclear]
    exact List.not_mem_nil
  · rw [hclear]
    exact ⟨fun hmem => absurd hmem List.not_mem_nil, fun hmem => absurd hmem List.not_mem_nil⟩

theorem registrations_client (sid : SessionId) (client target : FileDescriptor) :
    registrations sid client target client = onClient sid := if_pos rfl

theorem registrations_target (sid : SessionId) {client target : FileDescriptor}
    (hne : client ≠ target) : registrations sid client target target = onTarget sid := by
  rw [registrations, if_neg (Ne.symm hne), if_pos rfl]

theorem firstOnly_client (sid : SessionId) (client : FileDescriptor) :
    firstOnly sid client client = [.left sid .lr] := by
  rw [firstOnly, push, Function.update_self]
  rfl

theorem firstOnly_of_ne (sid : SessionId) {client fd : FileDescriptor} (hne : fd ≠ client) :
    firstOnly sid client fd = [] := by
  rw [firstOnly, push, Function.update_of_ne hne]

/-- Every holder is a callback. -/
theorem Settled.exact (h : Settled cfg s) {sid : SessionId} {x : Session η}
    (hx : s.world.sessions sid = some x) :
    x.references = (own s sid x.client).length + (own s sid x.target).length := by
  rcases h.stage sid x hx with ⟨hown, hreferences⟩ | ⟨hown, hreferences⟩ | ⟨hown, hreferences⟩
  · have hne := (h.lives.world.alive sid x ⟨hx, by omega⟩).1
    rw [hown, registrations_client, registrations_target sid hne, hreferences]
    rfl
  · have hne := (h.lives.world.alive sid x ⟨hx, by omega⟩).1
    rw [hown, firstOnly_client, firstOnly_of_ne sid (Ne.symm hne), hreferences]
    rfl
  · rw [hown, hreferences]
    rfl

theorem Settled.counted (h : Settled cfg s) : Counted cfg s (own s) [] s :=
  ⟨rfl, fun _ _ hx => h.exact hx, fun _ => rfl, rfl, rfl⟩

/-- A session that owns a callback is alive, and the callback is on one of its
descriptors. -/
theorem Settled.live_of_own (h : Settled cfg s) {sid : SessionId} {fd : FileDescriptor}
    (hown : own s sid fd ≠ []) : ∃ x, s.world.Live sid x ∧ fd ∈ x.fds := by
  refine h.lives.live_of_holder ?_
  by_contra hmem
  have hzero := length_own s sid fd
  rw [List.count_eq_zero_of_not_mem hmem] at hzero
  exact hown (List.length_eq_zero_iff.mp hzero)

/-- The set is `marks`, and the sessions have the sockets they had. -/
structure SameMarks (base : ProxyBus η) (marks : List FileDescriptor) (s : ProxyBus η) : Prop where
  marks : s.callbacksToRemove = marks
  sockets : ∀ sid,
    (s.world.sessions sid).map Session.sockets = (base.world.sessions sid).map Session.sockets

/-- Letting go of a session whose descriptors are to be removed leaves the set as it is. -/
theorem release_sameMarks {base : ProxyBus η} {marks : List FileDescriptor} {sid : SessionId}
    (hfds : ∀ x, base.world.sessions sid = some x → ∀ fd ∈ x.fds, fd ∈ marks) :
    Stable cfg (SameMarks base marks) (release cfg sid) := by
  refine release_rule (fun _ hs _ => hs) (fun s x hs hx => ⟨hs.marks, fun sid' => ?_⟩)
    fun s x hs hx fd hfd => ?_
  · rw [← hs.sockets sid']
    show (if sid' = sid then some _ else s.world.sessions sid').map _ = _
    split
    · rename_i heq
      rw [heq, hx]
      rfl
    · rfl
  · have hsockets := hs.sockets sid
    rw [hx, Option.map_some] at hsockets
    obtain ⟨y, hy, hpair⟩ := Option.map_eq_some_iff.mp hsockets.symm
    rw [Session.sockets, Session.sockets, Prod.mk.injEq] at hpair
    have hmem : fd ∈ marks := by
      refine hfds y hy fd (Session.mem_fds.mpr ?_)
      rw [hpair.1, hpair.2]
      exact Session.mem_fds.mp hfd
    refine Stable.closeConnectionNoexcept (fun t ht => ⟨?_, ht.sockets⟩)
      fun t w ht hsessions _ _ => ⟨ht.marks, fun sid' => ?_⟩
    · have hsame : (t.mark (host cfg) fd).callbacksToRemove = t.callbacksToRemove :=
        Bus.mark_of_mem (host cfg) (ht.marks ▸ hmem)
      exact hsame.trans ht.marks
    · show (w.sessions sid').map _ = _
      rw [hsessions]
      exact ht.sockets sid'

/-- **Erasing a descriptor** whose sessions are to be removed whole. -/
theorem sameMarks_erase {base : ProxyBus η} {marks : List FileDescriptor} {fd : FileDescriptor}
    (hfds : ∀ sid ∈ holders s fd, ∀ x, base.world.sessions sid = some x → ∀ fd ∈ x.fds, fd ∈ marks)
    (h : SameMarks base marks s) : SameMarks base marks (s.erase (host cfg) fd) := by
  refine (Bus.erase_rule (P := fun callbacks t => SameMarks base marks t ∧
    ∀ sid ∈ callbacks.filterMap Callback.session?, sid ∈ holders s fd) (fun callbacks hmap => ?_)
    ?_ ⟨h, by rintro _ ⟨⟩⟩).1
  · refine ⟨⟨h.marks, h.sockets⟩, fun sid hsid => ?_⟩
    rw [holders, callbacksAt, hmap]
    exact hsid
  · rintro callback callbacks t ⟨ht, hall⟩
    rcases hsession : callback.session? with _ | sid
    · rw [List.filterMap_cons_none hsession] at hall
      have hnothing : destroy cfg callback = (pure () : ProxyCode η Unit) := by
        rw [destroy, Server.destroy, hsession]
      show SameMarks base marks (t.exec (host cfg) (destroy cfg callback)).2 ∧ _
      rw [hnothing]
      exact ⟨ht, hall⟩
    · rw [List.filterMap_cons_some hsession] at hall
      have hrelease : destroy cfg callback = (release cfg sid : ProxyCode η Unit) := by
        rw [destroy, Server.destroy, hsession]
        rfl
      show SameMarks base marks (t.exec (host cfg) (destroy cfg callback)).2 ∧ _
      rw [hrelease]
      exact ⟨release_sameMarks (hfds sid (hall sid List.mem_cons_self)) t ht,
        fun sid' hsid' => hall sid' (List.mem_cons_of_mem _ hsid')⟩

/-- In the loop over the descriptors, when `fds` are left. -/
structure Erasing (cfg : Config η) (base : ProxyBus η) (fds : List FileDescriptor)
    (s : ProxyBus η) : Prop where
  lives : Lives cfg [] [] s
  counted : ∃ erased, base.callbacksToRemove = erased ++ fds ∧
    Counted cfg base (without (own base) erased) [] s

/-- **One pass of the loop.**  The session of a callback that is destroyed has both its
descriptors in the set, so its destructor leaves the set as it is. -/
theorem Erasing.erase {base : ProxyBus η} (hbase : Running cfg base) {fd : FileDescriptor}
    {fds : List FileDescriptor} (hfd : fd ∈ base.callbacksToRemove)
    (h : Erasing cfg base (fd :: fds) s) (hmarks : s.callbacksToRemove = base.callbacksToRemove) :
    Erasing cfg base fds (s.erase (host cfg) fd) ∧
      (s.erase (host cfg) fd).callbacksToRemove = base.callbacksToRemove := by
  obtain ⟨hlives, erased, hsplit, hcounted⟩ := h
  have hlistener : fd ≠ cfg.listener := by
    rintro rfl
    exact hbase.unmarked hfd
  have hboth : ∀ sid ∈ holders s fd, ∀ x, base.world.sessions sid = some x →
      ∀ fd ∈ x.fds, fd ∈ base.callbacksToRemove := by
    intro sid hsid x hx fd' hfd'
    have hown : own base sid fd ≠ [] := by
      intro hnone
      have hcount := length_own s sid fd
      rw [hcounted.own, without, hnone, ite_self] at hcount
      exact List.count_eq_zero.mp hcount.symm hsid
    obtain ⟨y, hy, hmem⟩ := hbase.toSettled.live_of_own hown
    obtain rfl := Option.some.inj (hx.symm.trans hy.1)
    have htogether := hbase.together sid x hy
    rcases Session.mem_fds.mp hmem with rfl | rfl
    · rcases Session.mem_fds.mp hfd' with rfl | rfl
      · exact hfd
      · exact htogether.mp hfd
    · rcases Session.mem_fds.mp hfd' with rfl | rfl
      · exact htogether.mpr hfd
      · exact hfd
  refine ⟨⟨lives_erase fd hlives, erased ++ [fd], ?_, ?_⟩, ?_⟩
  · rw [hsplit, List.append_assoc]
    rfl
  · rw [← without_append]
    exact counted_erase hlives hcounted hlistener
  · exact (sameMarks_erase hboth ⟨hmarks, hcounted.sockets⟩).marks

/-- **The loop over the descriptors** erases those that are marked when it begins. -/
theorem Running.erased (h : Running cfg s) : ∃ t,
    s.flush (host cfg) = { t with callbacksToRemove := [] } ∧ Lives cfg [] [] t ∧
      Counted cfg s (without (own s) s.callbacksToRemove) [] t := by
  have hnone : without (own s) [] = own s := by
    ext sid fd : 2
    exact if_neg List.not_mem_nil
  have hstart : Erasing cfg s s.callbacksToRemove s :=
    ⟨h.lives, [], rfl, hnone ▸ h.toSettled.counted⟩
  obtain ⟨t, hflush, hlives, erased, hsplit, hcounted⟩ :=
    Bus.flush_fixed (fun _ _ _ hfd ht hmarks => ht.erase h hfd hmarks) h.nodup hstart
  rw [List.append_nil] at hsplit
  rw [← hsplit] at hcounted
  exact ⟨t, hflush, hlives, hcounted⟩

/-- **Removing the callbacks of closed connections.**  Both descriptors of a session are
erased, or none. -/
theorem Running.flush (h : Running cfg s) :
    Settled cfg (s.flush (host cfg)) ∧
      own (s.flush (host cfg)) = without (own s) s.callbacksToRemove ∧
      (∀ sid, ((s.flush (host cfg)).world.sessions sid).map Session.sockets =
        (s.world.sessions sid).map Session.sockets) ∧
      (s.flush (host cfg)).world.nextSession = s.world.nextSession := by
  obtain ⟨t, hflush, hlives, hcounted⟩ := h.erased
  have hown : own (s.flush (host cfg)) = without (own s) s.callbacksToRemove := by
    rw [hflush]
    exact hcounted.own
  have hworld : (s.flush (host cfg)).world = t.world := by rw [hflush]
  refine ⟨⟨?_, ?_, ?_⟩, hown, ?_, ?_⟩
  · rw [hflush]
    exact hlives.of_eq rfl rfl rfl rfl rfl
  · rw [hflush]
    exact hcounted.listening.trans h.listening
  rotate_left
  · rw [hworld]
    exact hcounted.sockets
  · rw [hworld]
    exact hcounted.nextSession
  intro sid y hy
  have hexact : y.references = (own (s.flush (host cfg)) sid y.client).length +
      (own (s.flush (host cfg)) sid y.target).length := by
    rw [hown]
    exact hcounted.exact sid y (hworld ▸ hy)
  have hsockets := hcounted.sockets sid
  rw [← hworld, hy, Option.map_some] at hsockets
  obtain ⟨x, hx, hpair⟩ := Option.map_eq_some_iff.mp hsockets.symm
  rw [Session.sockets, Session.sockets, Prod.mk.injEq] at hpair
  obtain ⟨hclient, htarget⟩ := hpair
  -- what is left of a session all of whose descriptors are erased, or none
  have hgone : (∀ fd, own s sid fd ≠ [] → fd ∈ s.callbacksToRemove) →
      Stage (s.flush (host cfg)) sid y := by
    intro hall
    have hnone : own (s.flush (host cfg)) sid = fun _ => [] := by
      rw [hown]
      ext fd : 1
      rw [without]
      split
      · rfl
      · by_contra hne
        exact absurd (hall fd hne) ‹_›
    refine .gone hnone ?_
    rw [hexact, hnone]
    rfl
  have hkept : (∀ fd, own s sid fd ≠ [] → fd ∉ s.callbacksToRemove) →
      own (s.flush (host cfg)) sid = own s sid ∧ y.references = x.references := by
    intro hall
    have hsame : own (s.flush (host cfg)) sid = own s sid := by
      rw [hown]
      ext fd : 1
      rw [without]
      split
      · by_contra hne
        exact absurd ‹_› (hall fd (Ne.symm hne))
      · rfl
    refine ⟨hsame, ?_⟩
    rw [hexact, hsame, h.toSettled.exact hx, hclient, htarget]
  have hfds : ∀ fd, own s sid fd ≠ [] → fd = x.client ∨ fd = x.target := by
    intro fd hne
    obtain ⟨x', hx', hfd⟩ := h.toSettled.live_of_own hne
    obtain rfl := Option.some.inj (hx.symm.trans hx'.1)
    exact Session.mem_fds.mp hfd
  rcases h.stage sid x hx with ⟨hreg, hreferences⟩ | ⟨hreg, hreferences⟩ | ⟨hreg, hreferences⟩
  · have hboth := h.together sid x ⟨hx, by omega⟩
    by_cases hmark : x.client ∈ s.callbacksToRemove
    · refine hgone fun fd hne => ?_
      rcases hfds fd hne with rfl | rfl
      · exact hmark
      · exact hboth.mp hmark
    · have hsame := hkept fun fd hne => by
        rcases hfds fd hne with rfl | rfl
        · exact hmark
        · exact fun hmem => hmark (hboth.mpr hmem)
      refine .registered ?_ (hsame.2.trans hreferences)
      rw [hsame.1, hreg, hclient, htarget]
  · have hfirst : ∀ fd, own s sid fd ≠ [] → fd = x.client := by
      intro fd hne
      by_contra hother
      rw [hreg, firstOnly_of_ne sid hother] at hne
      exact hne rfl
    by_cases hmark : x.client ∈ s.callbacksToRemove
    · refine hgone fun fd hne => ?_
      rw [hfirst fd hne]
      exact hmark
    · have hsame := hkept fun fd hne => by
        rw [hfirst fd hne]
        exact hmark
      refine .halted ?_ (hsame.2.trans hreferences)
      rw [hsame.1, hreg, hclient]
  · refine hgone fun fd hne => ?_
    rw [hreg] at hne
    exact absurd rfl hne

end Stage

/-! ## The callbacks of a session -/

/-- From `s` to `t` nothing is registered or removed; descriptors may have been marked. -/
structure Kept (s t : ProxyBus η) : Prop where
  callbackMap : t.callbackMap = s.callbackMap
  core : ∀ sid, (t.world.sessions sid).map Session.core = (s.world.sessions sid).map Session.core
  nextSession : t.world.nextSession = s.world.nextSession

/-- The descriptors of a session, if there is one. -/
def fdsOf (s : ProxyBus η) (sid : SessionId) : List FileDescriptor :=
  ((s.world.sessions sid).map Session.fds).getD []

section Callbacks

variable {s t u : ProxyBus η}

theorem Kept.refl (s : ProxyBus η) : Kept s s := ⟨rfl, fun _ => rfl, rfl⟩

theorem Kept.trans (h : Kept s t) (h' : Kept t u) : Kept s u :=
  ⟨h'.callbackMap.trans h.callbackMap, fun sid => (h'.core sid).trans (h.core sid),
    h'.nextSession.trans h.nextSession⟩

theorem Same.kept (h : Same s t) : Kept s t := ⟨h.callbackMap, h.core, h.nextSession⟩

theorem mem_fdsOf {sid : SessionId} {x : Session η} (hx : s.world.sessions sid = some x)
    (fd : FileDescriptor) : fd ∈ fdsOf s sid ↔ fd ∈ x.fds := by
  rw [fdsOf, hx]
  rfl

theorem fdsOf_of_none {sid : SessionId} (hx : s.world.sessions sid = none) :
    fdsOf s sid = [] := by
  rw [fdsOf, hx]
  rfl

theorem Kept.fdsOf (h : Kept s t) (sid : SessionId) : fdsOf t sid = fdsOf s sid := by
  have hcore := congrArg (Option.map fun core => [core.1, core.2.1]) (h.core sid)
  rw [Option.map_map, Option.map_map] at hcore
  exact congrArg (Option.getD · []) hcore

theorem Kept.callbacksAt (h : Kept s t) (fd : FileDescriptor) :
    callbacksAt t fd = callbacksAt s fd := by
  rw [Proxy.callbacksAt, Proxy.callbacksAt, h.callbackMap]

/-- The session behind a session. -/
theorem Kept.back (h : Kept s t) {sid : SessionId} {y : Session η}
    (hy : t.world.sessions sid = some y) :
    ∃ x, s.world.sessions sid = some x ∧ x.client = y.client ∧ x.target = y.target ∧
      x.references = y.references := by
  have hcore := h.core sid
  rw [hy, Option.map_some] at hcore
  obtain ⟨x, hx, heq⟩ := Option.map_eq_some_iff.mp hcore.symm
  rw [Session.core, Session.core, Prod.mk.injEq, Prod.mk.injEq] at heq
  exact ⟨x, hx, heq⟩

theorem Settled.kept (h : Settled cfg s) (h' : Kept s t) (hlives : Lives cfg [] [] t) :
    Settled cfg t := by
  have hown := own_of_callbackMap h'.callbackMap
  refine ⟨hlives, (congrFun h'.callbackMap _).trans h.listening, fun sid y hy => ?_⟩
  obtain ⟨x, hx, hclient, htarget, hreferences⟩ := h'.back hy
  rcases h.stage sid x hx with ⟨hreg, href⟩ | ⟨hreg, href⟩ | ⟨hreg, href⟩
  · refine .registered ?_ (hreferences.symm.trans href)
    rw [hown, hreg, hclient, htarget]
  · refine .halted ?_ (hreferences.symm.trans href)
    rw [hown, hreg, hclient]
  · refine .gone ?_ (hreferences.symm.trans href)
    rw [hown, hreg]

/-- The lambda of `session_base::start` marks both descriptors when there is an error. -/
theorem sessionEvent_marks (s : ProxyBus η) (sid : SessionId) (mask : Flags) :
    Kept s (s.exec (host cfg) (sessionEvent sid mask)).2 ∧
      ∀ fd, fd ∈ (s.exec (host cfg) (sessionEvent sid mask)).2.callbacksToRemove ↔
        fd ∈ s.callbacksToRemove ∨ (mask.test Flags.error = true ∧ fd ∈ fdsOf s sid) := by
  rcases hx : s.world.sessions sid with _ | x
  · have hexec : (s.exec (host cfg) (sessionEvent sid mask)).2 = s := by
      simp only [Bus.exec, sessionEvent, world, perform, Program.exec_bind, Program.exec_lift,
        Program.andThen_ok, Bus.perform, hx, Program.exec_pure]
    rw [hexec, fdsOf_of_none hx]
    exact ⟨Kept.refl s, fun fd => by simp⟩
  · by_cases herror : mask.test Flags.error = true
    · have hexec : (s.exec (host cfg) (sessionEvent sid mask)).2 =
          (s.delFdCallbacks (host cfg) x.client).delFdCallbacks (host cfg) x.target := by
        simp only [Bus.exec, sessionEvent, world, perform, delFdCallbacks, Program.exec_bind,
          Program.exec_lift, Program.andThen_ok, Bus.perform, hx, if_pos herror]
      rw [hexec]
      refine ⟨⟨rfl, fun _ => rfl, rfl⟩, fun fd => ?_⟩
      have hmark : fd ∈ ((s.delFdCallbacks (host cfg) x.client).delFdCallbacks (host cfg)
          x.target).callbacksToRemove ↔
          (fd ∈ s.callbacksToRemove ∨ fd = x.client) ∨ fd = x.target :=
        (Bus.mem_mark (host cfg) (s.delFdCallbacks (host cfg) x.client) x.target fd).trans
          (or_congr_left (Bus.mem_mark (host cfg) s x.client fd))
      rw [hmark, mem_fdsOf hx, Session.mem_fds, or_assoc]
      simp only [herror, true_and]
    · have hexec : (s.exec (host cfg) (sessionEvent sid mask)).2 = s := by
        simp only [Bus.exec, sessionEvent, world, perform, Program.exec_bind, Program.exec_lift,
          Program.andThen_ok, Bus.perform, hx, if_neg herror, Program.exec_pure]
      rw [hexec]
      exact ⟨Kept.refl s, fun fd => ⟨Or.inl, fun hor => hor.resolve_right fun hand =>
        herror hand.1⟩⟩

/-- **A callback of a session.**  Only the session's own callback marks, and only when there
is an error. -/
theorem callback_marks (cfg : Config η) (s : ProxyBus η) {callback : Callback}
    (hne : callback ≠ .accept) (fd : FileDescriptor) (mask : Flags) :
    Kept s (s.exec (host cfg) ((host cfg).callback callback fd mask)).2 ∧
      ∀ fd', fd' ∈ (s.exec (host cfg)
          ((host cfg).callback callback fd mask)).2.callbacksToRemove ↔
        fd' ∈ s.callbacksToRemove ∨
          ∃ sid, callback = .session sid ∧ mask.test Flags.error = true ∧ fd' ∈ fdsOf s sid := by
  have hchannel : ∀ (code : ProxyCode η Unit), (∀ base, Stable cfg (Same base) code) →
      (∀ sid, callback ≠ .session sid) → Kept s (s.exec (host cfg) code).2 ∧
        ∀ fd', fd' ∈ (s.exec (host cfg) code).2.callbacksToRemove ↔ fd' ∈ s.callbacksToRemove ∨
          ∃ sid, callback = .session sid ∧ mask.test Flags.error = true ∧ fd' ∈ fdsOf s sid := by
    intro code hcode hother
    have hsame : Same s (s.exec (host cfg) code).2 := hcode s s (Same.refl s)
    refine ⟨hsame.kept, fun fd' => ?_⟩
    rw [hsame.marks]
    refine ⟨Or.inl, fun hor => hor.resolve_right ?_⟩
    rintro ⟨sid, heq, -⟩
    exact hother sid heq
  cases callback with
  | accept => exact absurd rfl hne
  | left sid dir =>
    exact hchannel (leftEvent cfg sid dir fd mask) (fun _ => channelEvent_same _ sid dir)
      (by rintro _ ⟨⟩)
  | right sid dir =>
    exact hchannel (rightEvent cfg sid dir fd mask) (fun _ => channelEvent_same _ sid dir)
      (by rintro _ ⟨⟩)
  | session sid =>
    obtain ⟨hkept, hmarks⟩ : Kept s (s.exec (host cfg) (sessionEvent sid mask)).2 ∧ _ :=
      sessionEvent_marks s sid mask
    refine ⟨hkept, fun fd' => (hmarks fd').trans (or_congr_right ?_)⟩
    constructor
    · exact fun hand => ⟨sid, rfl, hand⟩
    · rintro ⟨sid', heq, hand⟩
      obtain rfl := Callback.session.inj heq
      exact hand

theorem Running.log (h : Running cfg s) {entry : Entry Callback} (hentry : ¬ entry.IsOp) :
    Running cfg (s.log entry) := by
  have hlives : Lives cfg [] [] (s.log entry) := by
    refine h.lives.log ?_
    rintro fd callback rfl
    exact hentry trivial
  exact ⟨h.toSettled.kept ⟨rfl, fun _ => rfl, rfl⟩ hlives, h.nodup, h.unmarked, h.together⟩

/-- The session of a callback on the bus is alive. -/
theorem Settled.live_of_mem (h : Settled cfg s) {callback : Callback} {fd : FileDescriptor}
    (hmem : callback ∈ callbacksAt s fd) {sid : SessionId} (hsid : callback.session? = some sid) :
    ∃ x, s.world.Live sid x ∧ fd ∈ x.fds :=
  h.lives.live_of_holder (List.mem_filterMap.mpr ⟨callback, hmem, hsid⟩)

/-- **One callback of a session** leaves every session where it stands. -/
theorem Running.called (h : Running cfg s) {callback : Callback} {fd : FileDescriptor}
    (hmem : callback ∈ callbacksAt s fd) (hne : callback ≠ .accept) (mask : Flags) :
    Running cfg (s.exec (host cfg) ((host cfg).callback callback fd mask)).2 := by
  obtain ⟨hkept, hmarks⟩ := callback_marks cfg s hne fd mask
  have hsettled := h.toSettled.kept hkept (callback_keeps callback fd mask s h.lives)
  -- a descriptor of a session that is alive is marked by that session's own callback only
  have hown : ∀ sid x, s.world.Live sid x → ∀ fd' ∈ x.fds,
      (fd' ∈ (s.exec (host cfg) ((host cfg).callback callback fd mask)).2.callbacksToRemove ↔
        fd' ∈ s.callbacksToRemove ∨
          (callback = .session sid ∧ mask.test Flags.error = true)) := by
    intro sid x hx fd' hfd'
    rw [hmarks fd']
    refine or_congr_right ⟨?_, ?_⟩
    · rintro ⟨sid', rfl, herror, hfd''⟩
      obtain ⟨x', hx', -⟩ := h.toSettled.live_of_mem hmem rfl
      rw [mem_fdsOf hx'.1] at hfd''
      obtain rfl := h.lives.world.apart sid sid' x x' hx hx' fd' hfd' hfd''
      exact ⟨rfl, herror⟩
    · rintro ⟨rfl, herror⟩
      exact ⟨sid, rfl, herror, (mem_fdsOf hx.1 fd').mpr hfd'⟩
  refine ⟨hsettled, Bus.nodup_exec (host cfg) _ h.nodup, ?_, ?_⟩
  · rw [hmarks]
    rintro (hold | ⟨sid, rfl, -, hfd'⟩)
    · exact h.unmarked hold
    · obtain ⟨x, hx, -⟩ := h.toSettled.live_of_mem hmem rfl
      rw [mem_fdsOf hx.1] at hfd'
      exact ((h.lives.world.alive sid x hx).2 _ hfd').2 rfl
  · rintro sid y ⟨hy, hpos⟩
    obtain ⟨x, hx, hclient, htarget, hreferences⟩ := hkept.back hy
    have hlive : s.world.Live sid x := ⟨hx, by omega⟩
    rw [← hclient, ← htarget, hown sid x hlive x.client (Session.mem_fds.mpr (Or.inl rfl)),
      hown sid x hlive x.target (Session.mem_fds.mpr (Or.inr rfl)), h.together sid x hlive]

/-- The descriptors marked in `t` are those of `s`, and those of the sessions whose callbacks
are in `done` if the event carries an error. -/
def MarkedBy (s : ProxyBus η) (ev : Event) (done : List Callback) (t : ProxyBus η) : Prop :=
  ∀ fd, fd ∈ t.callbacksToRemove ↔ fd ∈ s.callbacksToRemove ∨
    (ev.flags.test Flags.error = true ∧ ∃ sid, .session sid ∈ done ∧ fd ∈ fdsOf s sid)

/-- A callback more is done, whether it was called or not. -/
theorem MarkedBy.snoc {ev : Event} {done : List Callback} {callback : Callback}
    (h : MarkedBy s ev done t)
    (hmarks : ∀ fd, fd ∈ u.callbacksToRemove ↔ fd ∈ t.callbacksToRemove ∨
      ∃ sid, callback = .session sid ∧ ev.flags.test Flags.error = true ∧ fd ∈ fdsOf s sid) :
    MarkedBy s ev (done ++ [callback]) u := by
  intro fd
  rw [hmarks fd, h fd, or_assoc]
  refine or_congr_right ⟨?_, ?_⟩
  · rintro (⟨herror, sid, hsid, hfd⟩ | ⟨sid, rfl, herror, hfd⟩)
    · exact ⟨herror, sid, List.mem_append_left _ hsid, hfd⟩
    · exact ⟨herror, sid, List.mem_append_right _ (List.mem_singleton.mpr rfl), hfd⟩
  · rintro ⟨herror, sid, hsid, hfd⟩
    rcases List.mem_append.mp hsid with hsid | hsid
    · exact Or.inl ⟨herror, sid, hsid, hfd⟩
    · exact Or.inr ⟨sid, (List.mem_singleton.mp hsid).symm, herror, hfd⟩

/-- **The callbacks of a descriptor of a session.** -/
theorem Running.runCallbacks (h : Running cfg s) {ev : Event} (hev : ev.fd ≠ cfg.listener) :
    Running cfg (s.runCallbacks (host cfg) (some fun _ => pure ()) ev (callbacksAt s ev.fd)).2 ∧
    Kept s (s.runCallbacks (host cfg) (some fun _ => pure ()) ev (callbacksAt s ev.fd)).2 ∧
    MarkedBy s ev (callbacksAt s ev.fd)
      (s.runCallbacks (host cfg) (some fun _ => pure ()) ev (callbacksAt s ev.fd)).2 := by
  have hsession : ∀ callback ∈ callbacksAt s ev.fd, callback ≠ .accept := by
    rintro callback hcallback rfl
    exact hev (h.lives.accepting ev.fd _ hcallback rfl)
  suffices hloop : (fun (callbacks : List Callback) t => Running cfg t ∧ Kept s t ∧
      ∃ done, done ++ callbacks = callbacksAt s ev.fd ∧ MarkedBy s ev done t) []
      (s.runCallbacks (host cfg) (some fun _ => pure ()) ev (callbacksAt s ev.fd)).2 by
    obtain ⟨hrunning, hkept, done, hdone, hmarks⟩ := hloop
    rw [List.append_nil] at hdone
    rw [hdone] at hmarks
    exact ⟨hrunning, hkept, hmarks⟩
  refine Bus.runCallbacks_rule (silent_server cfg) (I := fun callbacks t => Running cfg t ∧
    Kept s t ∧ ∃ done, done ++ callbacks = callbacksAt s ev.fd ∧ MarkedBy s ev done t)
    ?_ ?_ ?_ ?_ ?_
  · rintro callback callbacks t hmark ⟨hrunning, hkept, done, hdone, hmarks⟩
    refine ⟨hrunning, hkept, done ++ [callback], ?_, hmarks.snoc fun fd => ⟨Or.inl, ?_⟩⟩
    · rw [List.append_assoc]
      exact hdone
    · -- the callback is skipped because the descriptors of its session are marked already
      rintro (hmem | ⟨sid, rfl, -, hfd⟩)
      · exact hmem
      · have hmem : Callback.session sid ∈ callbacksAt t ev.fd := by
          rw [hkept.callbacksAt, ← hdone]
          exact List.mem_append_right _ List.mem_cons_self
        obtain ⟨x, hx, hevx⟩ := hrunning.toSettled.live_of_mem hmem rfl
        rw [← hkept.fdsOf, mem_fdsOf hx.1, Session.mem_fds] at hfd
        have hboth := hrunning.together sid x hx
        have hclient : x.client ∈ t.callbacksToRemove := by
          rcases Session.mem_fds.mp hevx with heq | heq
          · rw [← heq]
            exact hmark
          · rw [hboth, ← heq]
            exact hmark
        rcases hfd with rfl | rfl
        · exact hclient
        · exact hboth.mp hclient
  · rintro callback callbacks t - ⟨hrunning, hkept, done, hdone, hmarks⟩
    have hlogged : Running cfg (t.log (.invoked callback ev)) := hrunning.log id
    have hmem : callback ∈ callbacksAt s ev.fd := by
      rw [← hdone]
      exact List.mem_append_right _ List.mem_cons_self
    have hmem' : callback ∈ callbacksAt (t.log (.invoked callback ev)) ev.fd := by
      rw [← hkept.callbacksAt] at hmem
      exact hmem
    obtain ⟨hkept', hmarks'⟩ := callback_marks cfg (t.log (.invoked callback ev))
      (hsession callback hmem) ev.fd ev.flags
    have hall : Kept s (t.log (.invoked callback ev)) := hkept.trans ⟨rfl, fun _ => rfl, rfl⟩
    refine ⟨hlogged.called hmem' (hsession callback hmem) ev.flags, hall.trans hkept',
      done ++ [callback], ?_, hmarks.snoc fun fd => ?_⟩
    · rw [List.append_assoc]
      exact hdone
    · have hfds : ∀ sid, fdsOf (t.log (.invoked callback ev)) sid = fdsOf s sid := hall.fdsOf
      simp only [hfds] at hmarks'
      exact hmarks' fd
  · rintro callbacks t entry hentry ⟨hrunning, hkept, hdone⟩
    exact ⟨hrunning.log hentry, hkept.trans ⟨rfl, fun _ => rfl, rfl⟩, hdone⟩
  · exact fun callbacks t err ht => ht
  · exact ⟨h, Kept.refl s, [], rfl, fun fd => by simp⟩

end Callbacks

/-! ## The acceptor -/

section Acceptor

variable {s t : ProxyBus η}

/-- What the acceptor leaves behind. -/
structure Accepted (cfg : Config η) (s : ProxyBus η) (r : Except Exception Unit)
    (t : ProxyBus η) : Prop where
  running : Running cfg t
  frame : Frame cfg s t
  nextSession : s.world.nextSession ≤ t.world.nextSession
  /-- When it returns, a session that it has made has started. -/
  started : r = .ok () → ∀ x, t.world.sessions s.world.nextSession = some x →
    own t s.world.nextSession = registrations s.world.nextSession x.client x.target
  /-- What it has made stays. -/
  unmarked : ∀ x, t.world.Live s.world.nextSession x → t.callbacksToRemove = []

/-- Where the session that was made stands. -/
theorem Made.stage {client target : FileDescriptor} {r : Except Exception Unit}
    (h : Made cfg s client target r t) (hlives : Lives cfg [] [] t) {x : Session η}
    (hx : t.world.sessions s.world.nextSession = some x) :
    Stage t s.world.nextSession x ∧
      (r = .ok () → own t s.world.nextSession =
        registrations s.world.nextSession x.client x.target) ∧
      (0 < x.references → t.callbacksToRemove = s.callbacksToRemove) := by
  cases h with
  | started hs =>
    obtain ⟨rfl, rfl, hreferences⟩ := hs.references hx
    have hpos : 0 < x.references := by
      have hthree : (onClient s.world.nextSession).length = 3 := rfl
      rw [hreferences, registrations_client]
      omega
    have hne := (hlives.world.alive _ x ⟨hx, hpos⟩).1
    refine ⟨.registered hs.own ?_, fun _ => hs.own, fun _ => hs.marks⟩
    rw [hreferences, registrations_client, registrations_target _ hne]
    rfl
  | halted e hs =>
    obtain ⟨rfl, rfl, hreferences⟩ := hs.references hx
    have hpos : 0 < x.references := by
      rw [hreferences, firstOnly_client, List.length_singleton]
      omega
    have hne := (hlives.world.alive _ x ⟨hx, hpos⟩).1
    refine ⟨.halted hs.own ?_, by rintro ⟨⟩, fun _ => hs.marks⟩
    rw [hreferences, firstOnly_client, firstOnly_of_ne _ (Ne.symm hne)]
    rfl
  | undone e hs =>
    have hcore := hs.core
    rw [hx, Option.map_some, Option.some.injEq, Session.core, Prod.mk.injEq,
      Prod.mk.injEq] at hcore
    have hreferences : x.references = 0 := hcore.2.2
    refine ⟨.gone hs.own hreferences, by rintro ⟨⟩, fun hpos => ?_⟩
    rw [hreferences] at hpos
    exact absurd hpos (Nat.lt_irrefl 0)

/-- Another session stands where it stood. -/
theorem Frame.stage (h : Frame cfg s t) (hs : Settled cfg s) {sid : SessionId}
    (hne : sid ≠ s.world.nextSession) {y : Session η} (hy : t.world.sessions sid = some y) :
    Stage t sid y ∧ ∃ x, s.world.sessions sid = some x ∧ x.client = y.client ∧
      x.target = y.target ∧ x.references = y.references := by
  have hcore := h.core sid hne
  rw [hy, Option.map_some] at hcore
  obtain ⟨x, hx, heq⟩ := Option.map_eq_some_iff.mp hcore.symm
  rw [Session.core, Session.core, Prod.mk.injEq, Prod.mk.injEq] at heq
  obtain ⟨hclient, htarget, hreferences⟩ := heq
  have hown := h.own sid hne
  refine ⟨?_, x, hx, hclient, htarget, hreferences⟩
  rcases hs.stage sid x hx with ⟨hreg, href⟩ | ⟨hreg, href⟩ | ⟨hreg, href⟩
  · refine .registered ?_ (hreferences.symm.trans href)
    rw [hown, hreg, hclient, htarget]
  · refine .halted ?_ (hreferences.symm.trans href)
    rw [hown, hreg, hclient]
  · refine .gone ?_ (hreferences.symm.trans href)
    rw [hown, hreg]

/-- **The acceptor** leaves every session where it stands, and what it makes has started or
not. -/
theorem Settled.accepted (h : Settled cfg s) (hclear : s.callbacksToRemove = [])
    (fd : FileDescriptor) (mask : Flags) :
    Accepted cfg s (s.exec (host cfg) ((host cfg).callback .accept fd mask)).1
      (s.exec (host cfg) ((host cfg).callback .accept fd mask)).2 := by
  have hlives : Lives cfg [] [] (s.exec (host cfg) ((host cfg).callback .accept fd mask)).2 :=
    callback_keeps .accept fd mask s h.lives
  have hmade : (∃ client target, Made cfg s client target
        (s.exec (host cfg) ((host cfg).callback .accept fd mask)).1
        (s.exec (host cfg) ((host cfg).callback .accept fd mask)).2) ∨
      Idle cfg s (s.exec (host cfg) ((host cfg).callback .accept fd mask)).2 :=
    acceptEvent_made h.lives fd mask s rfl
  have hnodup : (s.exec (host cfg)
      ((host cfg).callback .accept fd mask)).2.callbacksToRemove.Nodup :=
    Bus.nodup_exec (host cfg) _ (hclear ▸ List.nodup_nil)
  generalize s.exec (host cfg) ((host cfg).callback .accept fd mask) = rt at hlives hmade hnodup
  obtain ⟨r, t⟩ := rt
  have hframe : Frame cfg s t := by
    rcases hmade with ⟨client, target, hmade⟩ | hidle
    · cases hmade with
      | started hs => exact hs.frame
      | halted e hs => exact hs.frame
      | undone e hs => exact hs.frame
    · exact hidle.frame
  have hnext : s.world.nextSession ≤ t.world.nextSession := by
    rcases hmade with ⟨client, target, hmade⟩ | hidle
    · cases hmade with
      | started hs => exact Nat.le_of_lt (Nat.lt_of_succ_le hs.nextSession.ge)
      | halted e hs => exact Nat.le_of_lt (Nat.lt_of_succ_le hs.nextSession.ge)
      | undone e hs => exact Nat.le_of_lt (Nat.lt_of_succ_le hs.nextSession.ge)
    · exact hidle.nextSession.ge
  have hnew : ∀ x, t.world.sessions s.world.nextSession = some x →
      Stage t s.world.nextSession x ∧
      (r = .ok () → own t s.world.nextSession =
        registrations s.world.nextSession x.client x.target) ∧
      (0 < x.references → t.callbacksToRemove = s.callbacksToRemove) := by
    intro x hx
    rcases hmade with ⟨client, target, hmade⟩ | hidle
    · exact hmade.stage hlives hx
    · have hnone := hidle.core
      rw [h.lives.world.unborn _ (Nat.le_refl _), hx] at hnone
      cases hnone
  have hmarks : ∀ fd' ∈ t.callbacksToRemove, World.Unused cfg s.world fd' := by
    intro fd' hfd'
    rcases hframe.marks fd' hfd' with hold | hunused
    · rw [hclear] at hold
      exact absurd hold List.not_mem_nil
    · exact hunused
  refine ⟨⟨⟨hlives, hframe.listening.trans h.listening, fun sid y hy => ?_⟩, hnodup, ?_, ?_⟩,
    hframe, hnext,
    fun hr x hx => (hnew x hx).2.1 hr, fun x hx => ((hnew x hx.1).2.2 hx.2).trans hclear⟩
  · by_cases hsid : sid = s.world.nextSession
    · subst hsid
      exact (hnew y hy).1
    · exact (hframe.stage h hsid hy).1
  · exact fun hmem => (hmarks _ hmem).1 rfl
  · rintro sid y ⟨hy, hpos⟩
    by_cases hsid : sid = s.world.nextSession
    · subst hsid
      rw [(hnew y hy).2.2 hpos, hclear]
      exact ⟨fun hmem => absurd hmem List.not_mem_nil, fun hmem => absurd hmem List.not_mem_nil⟩
    · -- the descriptors of a session that is alive are not unused
      obtain ⟨-, x, hx, hclient, htarget, hreferences⟩ := hframe.stage h hsid hy
      have hlive : s.world.Live sid x := ⟨hx, by omega⟩
      rw [← hclient, ← htarget]
      constructor
      · intro hmem
        exact absurd (Session.mem_fds.mpr (Or.inl rfl)) ((hmarks _ hmem).2 sid x hlive)
      · intro hmem
        exact absurd (Session.mem_fds.mpr (Or.inr rfl)) ((hmarks _ hmem).2 sid x hlive)

end Acceptor

/-! ## A dispatch -/

section Dispatch

variable {s : ProxyBus η}

/-- A dispatch is the loop over the callbacks and the removal of those that are marked. -/
theorem dispatch_eq (cfg : Config η) (s : ProxyBus η) (ev : Event) :
    (s.dispatch (host cfg) (some fun _ => pure ()) ev).2 =
      (s.runCallbacks (host cfg) (some fun _ => pure ()) ev (callbacksAt s ev.fd)).2.flush
        (host cfg) := by
  obtain ⟨t, -, hrun, -⟩ := Bus.runCallbacks_spec (silent_server cfg) ev (callbacksAt s ev.fd) s
  have hrun' : s.runCallbacks (host cfg) (some fun _ => pure ()) ev
      ((s.callbackMap ev.fd).getD []) = (.ok (), t) := hrun
  simp only [Bus.dispatch, hrun', hrun]

/-- The loop when the acceptor's callback is the only one. -/
theorem runCallbacks_accept (cfg : Config η) (s : ProxyBus η) (ev : Event)
    (hclear : s.callbacksToRemove = []) {r : Except Exception Unit} {t : ProxyBus η}
    (hexec : (s.log (.invoked .accept ev)).exec (host cfg)
      ((host cfg).callback .accept ev.fd ev.flags) = (r, t)) :
    (r = .ok () ∧ (s.runCallbacks (host cfg) (some fun _ => pure ()) ev [.accept]).2 =
      t.log (.returned .accept none)) ∨
    ∃ e err, r = .error e ∧ (s.runCallbacks (host cfg) (some fun _ => pure ()) ev [.accept]).2 =
      (t.log (.returned .accept (some e))).log (.reported err) := by
  have hunmarked : ev.fd ∉ s.callbacksToRemove := by
    rw [hclear]
    exact List.not_mem_nil
  rcases r with e | ⟨⟩
  · right
    refine ⟨e, Bus.asError ev.fd t.world.errno e, rfl, ?_⟩
    simp only [Bus.runCallbacks, if_neg hunmarked, Bus.invoke, hexec]
    rfl
  · left
    refine ⟨rfl, ?_⟩
    simp only [Bus.runCallbacks, if_neg hunmarked, Bus.invoke, hexec]

/-- What a dispatch does to the sessions that are there. -/
structure Dispatched (cfg : Config η) (s : ProxyBus η) (ev : Event) (u : ProxyBus η) : Prop where
  settled : Settled cfg u
  clear : u.callbacksToRemove = []
  nextSession : s.world.nextSession ≤ u.world.nextSession
  sockets : ∀ sid x, s.world.sessions sid = some x →
    ∃ y, u.world.sessions sid = some y ∧ y.client = x.client ∧ y.target = x.target
  own : ∀ sid, s.world.sessions sid ≠ none → own u sid =
    if ev.flags.test Flags.error = true ∧ .session sid ∈ callbacksAt s ev.fd then fun _ => []
    else own s sid

/-- **A dispatch for a descriptor of a session.** -/
theorem Settled.dispatch_session (h : Settled cfg s) (hclear : s.callbacksToRemove = [])
    {ev : Event} (hev : ev.fd ≠ cfg.listener) :
    Dispatched cfg s ev (s.dispatch (host cfg) (some fun _ => pure ()) ev).2 := by
  rw [dispatch_eq]
  obtain ⟨hrunning, hkept, hmarks⟩ := (h.running hclear).runCallbacks hev
  generalize (s.runCallbacks (host cfg) (some fun _ => pure ()) ev (callbacksAt s ev.fd)).2 = t
    at hrunning hkept hmarks
  obtain ⟨hsettled, hown, hsockets, hnext⟩ := hrunning.flush
  refine ⟨hsettled, rfl, ?_, fun sid x hx => ?_, fun sid hsome => ?_⟩
  · rw [hnext, hkept.nextSession]
  · have hpair := hsockets sid
    have hcore := congrArg (Option.map fun core => (core.1, core.2.1)) (hkept.core sid)
    rw [Option.map_map, Option.map_map, hx, Option.map_some] at hcore
    have hcore' : (t.world.sessions sid).map Session.sockets = some (x.client, x.target) := hcore
    rw [hcore'] at hpair
    obtain ⟨y, hy, heq⟩ := Option.map_eq_some_iff.mp hpair
    rw [Session.sockets, Prod.mk.injEq] at heq
    exact ⟨y, hy, heq⟩
  · rw [hown]
    ext fd : 1
    have hmark : fd ∈ t.callbacksToRemove ↔ ev.flags.test Flags.error = true ∧
        ∃ sid', .session sid' ∈ callbacksAt s ev.fd ∧ fd ∈ fdsOf s sid' := by
      rw [hmarks fd, hclear]
      exact or_iff_right List.not_mem_nil
    have howned : Proxy.own t sid fd = Proxy.own s sid fd :=
      congrFun (congrFun (own_of_callbackMap hkept.callbackMap) sid) fd
    rw [without, howned]
    by_cases hnil : Proxy.own s sid fd = []
    · rw [hnil, ite_self]
      split
      · rfl
      · exact hnil.symm
    · obtain ⟨x, hx, hfd⟩ := h.live_of_own hnil
      have hiff : fd ∈ t.callbacksToRemove ↔
          ev.flags.test Flags.error = true ∧ .session sid ∈ callbacksAt s ev.fd := by
        rw [hmark]
        refine and_congr_right fun _ => ⟨?_, fun hmem => ⟨sid, hmem, (mem_fdsOf hx.1 fd).mpr hfd⟩⟩
        rintro ⟨sid', hmem, hfd'⟩
        obtain ⟨x', hx', -⟩ := h.live_of_mem hmem rfl
        rw [mem_fdsOf hx'.1] at hfd'
        rw [h.lives.world.apart sid sid' x x' hx hx' fd hfd hfd']
        exact hmem
      by_cases hmem : fd ∈ t.callbacksToRemove
      · rw [if_pos hmem, if_pos (hiff.mp hmem)]
      · rw [if_neg hmem, if_neg fun hand => hmem (hiff.mpr hand)]

/-- **A dispatch for the acceptor's descriptor.** -/
theorem Settled.dispatch_accept (h : Settled cfg s) (hclear : s.callbacksToRemove = [])
    {ev : Event} (hev : ev.fd = cfg.listener) :
    Dispatched cfg s ev (s.dispatch (host cfg) (some fun _ => pure ()) ev).2 ∧
      (.returned .accept none ∈
          (s.dispatch (host cfg) (some fun _ => pure ()) ev).2.trace.drop s.trace.length →
        ∀ y, (s.dispatch (host cfg) (some fun _ => pure ()) ev).2.world.sessions
          s.world.nextSession = some y →
          Proxy.own (s.dispatch (host cfg) (some fun _ => pure ()) ev).2 s.world.nextSession =
            registrations s.world.nextSession y.client y.target) := by
  have hat : callbacksAt s ev.fd = [.accept] := by
    rw [hev, callbacksAt, h.listening]
    rfl
  rw [dispatch_eq, hat]
  have hlogged : Settled cfg (s.log (.invoked .accept ev)) :=
    Running.toSettled ((h.running hclear).log id)
  have haccepted := hlogged.accepted hclear ev.fd ev.flags
  have hused := Bus.used_exec (host cfg) ((host cfg).callback .accept ev.fd ev.flags)
    (s.log (.invoked .accept ev))
  rcases hexec : (s.log (.invoked .accept ev)).exec (host cfg)
    ((host cfg).callback .accept ev.fd ev.flags) with ⟨r, t⟩
  rw [hexec] at haccepted hused
  obtain ⟨ops, hemits, -, hops⟩ := hused
  have hloop := runCallbacks_accept cfg s ev hclear hexec
  generalize (s.runCallbacks (host cfg) (some fun _ => pure ()) ev [.accept]).2 = v at hloop
  -- the loop has added lines to the trace, and nothing else
  have hrunning : Running cfg v := by
    rcases hloop with ⟨-, rfl⟩ | ⟨e, err, -, rfl⟩
    · exact haccepted.running.log id
    · exact (haccepted.running.log id).log id
  have hworld : v.world = t.world ∧ v.callbackMap = t.callbackMap ∧
      v.callbacksToRemove = t.callbacksToRemove := by
    rcases hloop with ⟨-, rfl⟩ | ⟨e, err, -, rfl⟩
    · exact ⟨rfl, rfl, rfl⟩
    · exact ⟨rfl, rfl, rfl⟩
  obtain ⟨hvw, hvm, hvp⟩ := hworld
  obtain ⟨hsettled, hown, hsockets, hnext⟩ := hrunning.flush
  rw [own_of_callbackMap hvm, hvp] at hown
  rw [hvw] at hsockets hnext
  have hold : ∀ sid, s.world.sessions sid ≠ none → sid ≠ s.world.nextSession := by
    rintro sid hsome rfl
    exact hsome (h.lives.world.unborn _ (Nat.le_refl _))
  refine ⟨⟨hsettled, rfl, ?_, fun sid x hx => ?_, fun sid hsome => ?_⟩, fun hmem y hy => ?_⟩
  · rw [hnext]
    exact haccepted.nextSession
  · have hne : sid ≠ s.world.nextSession := by
      refine hold sid ?_
      rw [hx]
      exact Option.some_ne_none x
    have hcore := congrArg (Option.map fun core => (core.1, core.2.1))
      (haccepted.frame.core sid hne)
    have hpair : (t.world.sessions sid).map Session.sockets =
        (s.world.sessions sid).map Session.sockets := by
      rw [Option.map_map, Option.map_map] at hcore
      exact hcore
    rw [← hsockets sid, hx, Option.map_some] at hpair
    obtain ⟨y, hy, heq⟩ := Option.map_eq_some_iff.mp hpair
    rw [Session.sockets, Session.sockets, Prod.mk.injEq] at heq
    exact ⟨y, hy, heq⟩
  · have hnot : ¬ (ev.flags.test Flags.error = true ∧ .session sid ∈ callbacksAt s ev.fd) := by
      rw [hat]
      rintro ⟨-, hmem⟩
      exact absurd (List.mem_singleton.mp hmem) (by rintro ⟨⟩)
    rw [hown, if_neg hnot]
    ext fd : 1
    have howned : Proxy.own t sid = Proxy.own s sid := haccepted.frame.own sid (hold sid hsome)
    rw [without, howned]
    split
    · -- the descriptors of a session that is alive are not marked
      rename_i hmark
      by_contra hne
      obtain ⟨x, hx, hfd⟩ := h.live_of_own (Ne.symm hne)
      rcases haccepted.frame.marks fd hmark with hmem | hunused
      · exact absurd (hclear ▸ hmem : fd ∈ []) List.not_mem_nil
      · exact hunused.2 sid x hx hfd
    · rfl
  · have hok : r = .ok () := by
      rcases hloop with ⟨hr, -⟩ | ⟨e, err, -, rfl⟩
      · exact hr
      · obtain ⟨ops', hemits', hops'⟩ := Bus.flush_spec (host cfg)
          ((t.log (.returned .accept (some e))).log (.reported err))
        exfalso
        have htrace : (((t.log (.returned .accept (some e))).log (.reported err)).flush
            (host cfg)).trace = s.trace ++ ([.invoked .accept ev] ++ ops ++
              [.returned .accept (some e), .reported err] ++ ops') := by
          have hbefore : t.trace = s.trace ++ [.invoked .accept ev] ++ ops := hemits.trace
          rw [hemits'.trace]
          show (t.trace ++ [_]) ++ [_] ++ ops' = _
          rw [hbefore]
          simp only [List.append_assoc, List.cons_append, List.nil_append]
        rw [htrace, List.drop_left] at hmem
        simp only [List.mem_append, List.mem_cons, List.not_mem_nil, or_false] at hmem
        rcases hmem with ((hmem | hmem) | hmem | hmem) | hmem
        · cases hmem
        · exact hops _ hmem
        · cases hmem
        · cases hmem
        · exact hops' _ hmem
    have hpair := hsockets s.world.nextSession
    rw [hy, Option.map_some] at hpair
    obtain ⟨x, hx, heq⟩ := Option.map_eq_some_iff.mp hpair.symm
    rw [Session.sockets, Session.sockets, Prod.mk.injEq] at heq
    obtain ⟨hclient, htarget⟩ := heq
    have hreg : Proxy.own t s.world.nextSession =
        registrations s.world.nextSession x.client x.target := haccepted.started hok x hx
    have hpos : 0 < x.references := by
      have hthree : (onClient s.world.nextSession).length = 3 := rfl
      rw [haccepted.running.toSettled.exact hx, hreg, registrations_client]
      omega
    have hnone : t.callbacksToRemove = [] := haccepted.unmarked x ⟨hx, hpos⟩
    rw [hown, hnone, ← hclient, ← htarget, ← hreg]
    ext fd : 1
    exact if_neg List.not_mem_nil

/-- **A dispatch.** -/
theorem Settled.dispatch (h : Settled cfg s) (hclear : s.callbacksToRemove = []) (ev : Event) :
    Dispatched cfg s ev (s.dispatch (host cfg) (some fun _ => pure ()) ev).2 := by
  by_cases hev : ev.fd = cfg.listener
  · exact (h.dispatch_accept hclear hev).1
  · exact h.dispatch_session hclear hev

end Dispatch

/-! ## Runs -/

/-- The line is written between two dispatches: an event arrives, or an error of
`_wait_events` is reported. -/
def Between : Entry Callback → Prop
  | .polled _ | .delivered _ | .dispatched _ | .reported _ => True
  | _ => False

/-- The server gets from `s` to `t` dispatching `evs`, in this order.  Between two dispatches
lines are added to the trace, the queue is emptied, and `errno` is set. -/
inductive Passes (cfg : Config η) (s : ProxyBus η) : List Event → ProxyBus η → Prop
  | start : Passes cfg s [] s
  | noted {evs : List Event} {t : ProxyBus η} (entry : Entry Callback) (hentry : Between entry)
      (ht : Passes cfg s evs t) : Passes cfg s evs (t.log entry)
  | swapped {evs : List Event} {t : ProxyBus η} (ht : Passes cfg s evs t) :
      Passes cfg s evs { t with events := [] }
  | errnoSet {evs : List Event} {t : ProxyBus η} (errno : ℤ) (ht : Passes cfg s evs t) :
      Passes cfg s evs (t.setErrno (host cfg) errno)
  | dispatched {evs : List Event} {t : ProxyBus η} (ev : Event) (ht : Passes cfg s evs t) :
      Passes cfg s (evs ++ [ev]) (t.dispatch (host cfg) (some fun _ => pure ()) ev).2

/-- The session has all its callbacks on the bus, in order: those of both descriptors. -/
structure Registered (s : ProxyBus η) (sid : SessionId) (x : Session η) : Prop where
  session : s.world.sessions sid = some x
  own : own s sid = registrations sid x.client x.target

/-- The session has no callbacks on the bus, and nobody holds its sockets. -/
structure Gone (s : ProxyBus η) (sid : SessionId) : Prop where
  own : own s sid = fun _ => []
  destroyed : ∃ x, s.world.sessions sid = some x ∧ x.references = 0

/-- The event carries an error on one of the session's descriptors. -/
def Fatal (x : Session η) (ev : Event) : Prop :=
  ev.fd ∈ x.fds ∧ ev.flags.test Flags.error = true

instance (x : Session η) : DecidablePred (Fatal x) := fun ev =>
  inferInstanceAs (Decidable (ev.fd ∈ x.fds ∧ ev.flags.test Flags.error = true))

section Runs

variable {s t : ProxyBus η} {sid : SessionId} {x : Session η}

theorem Between.not_isOp {entry : Entry Callback} (h : Between entry) : ¬ entry.IsOp := by
  cases entry with
  | polled _ | delivered _ | dispatched _ | reported _ => exact id
  | added _ _ | marked _ | enqueued _ | invoked _ _ | returned _ _ => exact h.elim

theorem settled_startServer (cfg : Config η) (opened : List FileDescriptor) :
    Settled cfg (startServer cfg opened) :=
  ⟨lives_startServer cfg opened, if_pos rfl, by rintro sid x ⟨⟩⟩

/-- **Between two dispatches** every session stands somewhere, and nothing is marked. -/
theorem Passes.settled {evs : List Event} (h : Passes cfg s evs t) (hs : Settled cfg s)
    (hclear : s.callbacksToRemove = []) : Settled cfg t ∧ t.callbacksToRemove = [] := by
  induction h with
  | start => exact ⟨hs, hclear⟩
  | noted entry hentry _ ih => exact ⟨((ih.1.running ih.2).log hentry.not_isOp).toSettled, ih.2⟩
  | swapped _ ih | errnoSet _ _ ih =>
    exact ⟨ih.1.kept ⟨rfl, fun _ => rfl, rfl⟩ (ih.1.lives.of_eq rfl rfl rfl rfl rfl), ih.2⟩
  | dispatched ev _ ih =>
    have hstep := ih.1.dispatch ih.2 ev
    exact ⟨hstep.settled, hstep.clear⟩

/-- **One dispatch for a session that is registered.** -/
theorem Registered.dispatch (h : Registered s sid x) (hs : Settled cfg s)
    (hclear : s.callbacksToRemove = []) (ev : Event) :
    if Fatal x ev then Gone (s.dispatch (host cfg) (some fun _ => pure ()) ev).2 sid
    else ∃ y, Registered (s.dispatch (host cfg) (some fun _ => pure ()) ev).2 sid y ∧
      y.fds = x.fds := by
  have hstep := hs.dispatch hclear ev
  obtain ⟨y, hy, hclient, htarget⟩ := hstep.sockets sid x h.session
  have hown := hstep.own sid (by rw [h.session]; exact Option.some_ne_none x)
  -- the session's own callback is on both of its descriptors and nowhere else
  have hiff : (ev.flags.test Flags.error = true ∧ .session sid ∈ callbacksAt s ev.fd) ↔
      Fatal x ev := by
    rw [Fatal, and_comm]
    refine and_congr_left fun _ => ⟨fun hmem => ?_, fun hfd => ?_⟩
    · obtain ⟨x', hx', hfd⟩ := hs.live_of_mem hmem rfl
      obtain rfl := Option.some.inj (h.session.symm.trans hx'.1)
      exact hfd
    · have hmem : .session sid ∈ Proxy.own s sid ev.fd := by
        rw [h.own, registrations]
        split
        · simp [onClient]
        · rename_i hne
          rw [if_pos ((Session.mem_fds.mp hfd).resolve_left hne)]
          simp [onTarget]
      exact List.mem_of_mem_filter hmem
  by_cases hfatal : Fatal x ev
  · rw [if_pos hfatal]
    rw [if_pos (hiff.mpr hfatal)] at hown
    refine ⟨hown, y, hy, ?_⟩
    rw [hstep.settled.exact hy, hown]
    rfl
  · rw [if_neg hfatal]
    rw [if_neg (fun hand => hfatal (hiff.mp hand))] at hown
    refine ⟨y, ⟨hy, ?_⟩, ?_⟩
    · rw [hown, h.own, hclient, htarget]
    · rw [Session.fds, Session.fds, hclient, htarget]

/-- **One dispatch for a session that is gone** calls none of its callbacks. -/
theorem Gone.dispatch (h : Gone s sid) (hs : Settled cfg s) (hclear : s.callbacksToRemove = [])
    (ev : Event) :
    Gone (s.dispatch (host cfg) (some fun _ => pure ()) ev).2 sid ∧
      ∃ l, (s.dispatch (host cfg) (some fun _ => pure ()) ev).2.trace = s.trace ++ l ∧
        ∀ callback ev', .invoked callback ev' ∈ l → callback.session? ≠ some sid := by
  obtain ⟨hnone, x, hx, -⟩ := h
  have hstep := hs.dispatch hclear ev
  obtain ⟨y, hy, -⟩ := hstep.sockets sid x hx
  have hown := hstep.own sid (by rw [hx]; exact Option.some_ne_none x)
  rw [hnone, ite_self] at hown
  obtain ⟨l, hemits, -, hcalled⟩ := (Bus.dispatches (silent_server cfg) ev s).lines
  refine ⟨⟨hown, y, hy, ?_⟩, l, hemits.trace, fun callback ev' hmem hsession => ?_⟩
  · rw [hstep.settled.exact hy, hown]
    rfl
  · have howned : callback ∈ Proxy.own s sid ev.fd :=
      List.mem_filter.mpr ⟨hcalled callback ev' hmem, decide_eq_true hsession⟩
    rw [hnone] at howned
    exact absurd howned List.not_mem_nil

/-- **Once gone, always gone.** -/
theorem Gone.passes {evs : List Event} (h : Gone s sid) (hs : Settled cfg s)
    (hclear : s.callbacksToRemove = []) (hrun : Passes cfg s evs t) :
    Gone t sid ∧ ∃ l, t.trace = s.trace ++ l ∧
      ∀ callback ev', .invoked callback ev' ∈ l → callback.session? ≠ some sid := by
  induction hrun with
  | start => exact ⟨h, [], (List.append_nil _).symm, by rintro _ _ ⟨⟩⟩
  | noted entry hentry _ ih =>
    obtain ⟨hgone, l, htrace, hnone⟩ := ih
    refine ⟨⟨hgone.own, hgone.destroyed⟩, l ++ [entry], ?_, fun callback ev' hmem => ?_⟩
    · rw [← List.append_assoc, ← htrace]
      rfl
    · rcases List.mem_append.mp hmem with hmem | hmem
      · exact hnone callback ev' hmem
      · rw [← List.mem_singleton.mp hmem] at hentry
        exact hentry.elim
  | swapped _ ih | errnoSet _ _ ih => exact ⟨⟨ih.1.own, ih.1.destroyed⟩, ih.2⟩
  | dispatched ev ht ih =>
    obtain ⟨hgone, l, htrace, hnone⟩ := ih
    obtain ⟨hsettled, hclear'⟩ := ht.settled hs hclear
    obtain ⟨hgone', l', htrace', hnone'⟩ := hgone.dispatch hsettled hclear' ev
    refine ⟨hgone', l ++ l', ?_, fun callback ev' hmem => ?_⟩
    · rw [htrace', htrace, List.append_assoc]
    · rcases List.mem_append.mp hmem with hmem | hmem
      · exact hnone callback ev' hmem
      · exact hnone' callback ev' hmem

/-- **A session that is registered** stays so until an event carries an error on one of its
descriptors, and then it is gone. -/
theorem Registered.passes {evs : List Event} (h : Registered s sid x) (hs : Settled cfg s)
    (hclear : s.callbacksToRemove = []) (hrun : Passes cfg s evs t) :
    if ∃ ev ∈ evs, Fatal x ev then Gone t sid
    else ∃ y, Registered t sid y ∧ y.fds = x.fds := by
  induction hrun with
  | start =>
    rw [if_neg (by rintro ⟨ev, ⟨⟩, -⟩)]
    exact ⟨x, h, rfl⟩
  | noted _ _ _ ih | swapped _ ih | errnoSet _ _ ih =>
    split
    · rw [if_pos ‹_›] at ih
      exact ⟨ih.own, ih.destroyed⟩
    · rw [if_neg ‹_›] at ih
      obtain ⟨y, hy, hfds⟩ := ih
      exact ⟨y, ⟨hy.session, hy.own⟩, hfds⟩
  | @dispatched evs t ev ht ih =>
    obtain ⟨hsettled, hclear'⟩ := ht.settled hs hclear
    by_cases hearlier : ∃ ev ∈ evs, Fatal x ev
    · rw [if_pos hearlier] at ih
      obtain ⟨ev', hmem, hfatal⟩ := hearlier
      rw [if_pos ⟨ev', List.mem_append_left _ hmem, hfatal⟩]
      exact (ih.dispatch hsettled hclear' ev).1
    · rw [if_neg hearlier] at ih
      obtain ⟨y, hy, hfds⟩ := ih
      have hstep := hy.dispatch hsettled hclear' ev
      have hiff : (∃ ev' ∈ evs ++ [ev], Fatal x ev') ↔ Fatal y ev := by
        rw [Fatal, hfds]
        constructor
        · rintro ⟨ev', hmem, hfatal⟩
          rcases List.mem_append.mp hmem with hmem | hmem
          · exact absurd ⟨ev', hmem, hfatal⟩ hearlier
          · rw [← List.mem_singleton.mp hmem]
            exact hfatal
        · exact fun hfatal => ⟨ev, List.mem_append_right _ (List.mem_singleton.mpr rfl), hfatal⟩
      by_cases hfatal : Fatal y ev
      · rw [if_pos (hiff.mpr hfatal)]
        rw [if_pos hfatal] at hstep
        exact hstep
      · rw [if_neg fun hex => hfatal (hiff.mp hex)]
        rw [if_neg hfatal] at hstep
        obtain ⟨z, hz, hsame⟩ := hstep
        exact ⟨z, hz, hsame.trans hfds⟩

/-- **A session that starts** is registered when the dispatch is over. -/
theorem registered_of_returned (hs : Settled cfg s) (hclear : s.callbacksToRemove = [])
    {ev : Event} (hreturned : .returned .accept none ∈
      (s.dispatch (host cfg) (some fun _ => pure ()) ev).2.trace.drop s.trace.length)
    (hx : (s.dispatch (host cfg) (some fun _ => pure ()) ev).2.world.sessions
      s.world.nextSession = some x) :
    Registered (s.dispatch (host cfg) (some fun _ => pure ()) ev).2 s.world.nextSession x := by
  by_cases hev : ev.fd = cfg.listener
  · exact ⟨hx, (hs.dispatch_accept hclear hev).2 hreturned x hx⟩
  · -- no session is made
    obtain ⟨hrunning, hkept, -⟩ := (hs.running hclear).runCallbacks hev
    obtain ⟨-, -, hsockets, -⟩ := hrunning.flush
    rw [dispatch_eq] at hx
    have hpair := hsockets s.world.nextSession
    rw [hx, Option.map_some] at hpair
    obtain ⟨y, hy, -⟩ := Option.map_eq_some_iff.mp hpair.symm
    obtain ⟨z, hz, -⟩ := hkept.back hy
    rw [hs.lives.world.unborn _ (Nat.le_refl _)] at hz
    cases hz

end Runs

/-! ## The server's runs -/

section Server

variable {s t : ProxyBus η}

theorem Passes.trans {evs evs' : List Event} {u : ProxyBus η} (h : Passes cfg s evs t)
    (h' : Passes cfg t evs' u) : Passes cfg s (evs ++ evs') u := by
  induction h' with
  | start =>
    rw [List.append_nil]
    exact h
  | noted entry hentry _ ih => exact ih.noted entry hentry
  | swapped _ ih => exact ih.swapped
  | errnoSet errno _ ih => exact ih.errnoSet errno
  | dispatched ev _ ih =>
    rw [← List.append_assoc]
    exact ih.dispatched ev

/-- The event that arrives with a line of the trace. -/
def arrived? : Entry Callback → Option Event
  | .delivered ev | .dispatched ev => some ev
  | _ => none

/-- The events that arrived, in order. -/
def arrivedIn (entries : List (Entry Callback)) : List Event := entries.filterMap arrived?

/-- The server gets from `s` to `t` dispatching `evs`, the events that arrive meanwhile. -/
structure Handles (cfg : Config η) (s : ProxyBus η) (evs : List Event) (t : ProxyBus η) : Prop where
  arrived : ∃ l, t.trace = s.trace ++ l ∧ arrivedIn l = evs
  passes : Passes cfg s evs t

theorem Handles.refl (s : ProxyBus η) : Handles cfg s [] s :=
  ⟨⟨[], (List.append_nil _).symm, rfl⟩, .start⟩

theorem Handles.trans {evs evs' : List Event} {u : ProxyBus η} (h : Handles cfg s evs t)
    (h' : Handles cfg t evs' u) : Handles cfg s (evs ++ evs') u := by
  obtain ⟨⟨l, htrace, harrived⟩, hpasses⟩ := h
  obtain ⟨⟨l', htrace', harrived'⟩, hpasses'⟩ := h'
  refine ⟨⟨l ++ l', ?_, ?_⟩, hpasses.trans hpasses'⟩
  · rw [htrace', htrace, List.append_assoc]
  · rw [arrivedIn, List.filterMap_append]
    exact congrArg₂ (· ++ ·) harrived harrived'

theorem handles_log (s : ProxyBus η) (entry : Entry Callback) (hentry : Between entry)
    (hnone : arrived? entry = none) : Handles cfg s [] (s.log entry) := by
  refine ⟨⟨[entry], rfl, ?_⟩, Passes.start.noted entry hentry⟩
  rw [arrivedIn, List.filterMap_cons_none hnone]
  rfl

/-- An event arrives, and is dispatched. -/
theorem handles_dispatch (s : ProxyBus η) (entry : Entry Callback) {ev : Event}
    (hentry : Between entry) (hsome : arrived? entry = some ev) :
    Handles cfg s [ev] ((s.log entry).dispatch (host cfg) (some fun _ => pure ()) ev).2 := by
  obtain ⟨l, hemits, halone, -⟩ := (Bus.dispatches (silent_server cfg) ev (s.log entry)).lines
  refine ⟨⟨entry :: l, ?_, ?_⟩, (Passes.start.noted entry hentry).dispatched ev⟩
  · rw [hemits.trace]
    exact List.append_assoc _ _ _
  · have hnone : arrivedIn l = [] := by
      refine List.filterMap_eq_nil_iff.mpr fun e he => ?_
      have hquiet := halone e he
      cases e with
      | delivered _ | dispatched _ => exact absurd trivial hquiet
      | added _ _ | marked _ | enqueued _ | polled _ | invoked _ _ | returned _ _ | reported _ =>
        rfl
    rw [arrivedIn, List.filterMap_cons_some hsome]
    exact congrArg (ev :: ·) hnone

theorem handles_deliverAll (cfg : Config η) (batch : List Event) (s : ProxyBus η) :
    Handles cfg s batch (s.native (host cfg) (some fun _ => pure ()) (Epoll.deliverAll batch)).2 := by
  induction batch generalizing s with
  | nil => exact .refl s
  | cons ev evs ih =>
    rw [native_deliverAll_cons]
    exact (handles_dispatch s (.delivered ev) trivial rfl).trans (ih _)

theorem handles_drain (cfg : Config η) (evs : List Event) (s : ProxyBus η) :
    Handles cfg s evs (s.drain (host cfg) (some fun _ => pure ()) evs).2 := by
  induction evs generalizing s with
  | nil => exact .refl s
  | cons ev evs ih =>
    rw [drain_cons]
    exact (handles_dispatch s (.dispatched ev) trivial rfl).trans (ih _)

/-- `_wait_events` sets `errno`. -/
theorem handles_setErrno (s : ProxyBus η) (errno : ℤ) :
    Handles cfg s [] (s.setErrno (host cfg) errno) :=
  ⟨⟨[], (List.append_nil _).symm, rfl⟩, Passes.start.errnoSet errno⟩

/-- The native phase. -/
theorem handles_native (cfg : Config η) (polled : Except ℤ (List Event)) (s : ProxyBus η) :
    ∃ evs, Handles cfg s evs
      (s.native (host cfg) (some fun _ => pure ()) (epollWaitEvents cfg polled)).2 := by
  rcases polled with errno | batch
  · rw [native_errno]
    exact ⟨[], handles_setErrno s errno⟩
  · rw [native_batch]
    exact ⟨_, (handles_setErrno s 0).trans
      ((handles_log _ (.polled batch) trivial rfl).trans (handles_deliverAll cfg batch _))⟩

/-- Between the phases. -/
theorem handles_swap (s : ProxyBus η) :
    Handles cfg s [] ({ s with events := [] } : ProxyBus η) :=
  ⟨⟨[], (List.append_nil _).symm, rfl⟩, Passes.start.swapped⟩

/-- **One call of `wait_events`.** -/
theorem handles_waitEvents (cfg : Config η) (polled : Except ℤ (List Event)) (s : ProxyBus η) :
    ∃ evs, Handles cfg s evs
      (s.waitEvents (host cfg) (epollWaitEvents cfg polled) (some fun _ => pure ())).2 := by
  obtain ⟨evs, hnative⟩ := handles_native cfg polled s
  rcases hserved : s.native (host cfg) (some fun _ => pure ()) (epollWaitEvents cfg polled)
    with ⟨e | ⟨⟩, t⟩
  · rw [hserved] at hnative
    obtain ⟨err, hrefused⟩ := waitEvents_refused hserved
    rw [hrefused]
    exact ⟨_, hnative.trans (handles_log t (.reported err) trivial rfl)⟩
  · rw [hserved] at hnative
    rw [waitEvents_served hserved]
    exact ⟨_, hnative.trans ((handles_swap t).trans (handles_drain cfg t.events _))⟩

/-- **A run** of the server dispatches the events that arrive. -/
theorem handles_runServer (cfg : Config η) (opened : List FileDescriptor)
    (polls : List (Except ℤ (List Event))) :
    ∃ evs, Handles cfg (startServer cfg opened) evs (runServer cfg opened polls) := by
  unfold runServer
  generalize startServer cfg opened = s
  induction polls generalizing s with
  | nil => exact ⟨[], .refl s⟩
  | cons polled polls ih =>
    obtain ⟨evs, hfirst⟩ := handles_waitEvents cfg polled s
    obtain ⟨evs', hrest⟩ := ih _
    exact ⟨evs ++ evs', hfirst.trans hrest⟩

/-- From `s` on, the sessions start and end as a whole. -/
structure AllOrNothing (cfg : Config η) (s : ProxyBus η) : Prop where
  /-- When the acceptor returns from starting a session, the session is registered. -/
  started : ∀ ev x, .returned .accept none ∈
      (s.dispatch (host cfg) (some fun _ => pure ()) ev).2.trace.drop s.trace.length →
    (s.dispatch (host cfg) (some fun _ => pure ()) ev).2.world.sessions s.world.nextSession =
      some x →
    Registered (s.dispatch (host cfg) (some fun _ => pure ()) ev).2 s.world.nextSession x
  /-- It stays so until an event carries an error on one of its descriptors; then it is
  gone. -/
  ends : ∀ sid x, Registered s sid x → ∀ evs t, Passes cfg s evs t →
    if ∃ ev ∈ evs, Fatal x ev then Gone t sid else ∃ y, Registered t sid y ∧ y.fds = x.fds
  /-- When it is gone, it stays so, and none of its callbacks is called. -/
  silent : ∀ sid, Gone s sid → ∀ evs t, Passes cfg s evs t → Gone t sid ∧
    ∃ l, t.trace = s.trace ++ l ∧ ∀ callback ev, .invoked callback ev ∈ l →
      callback.session? ≠ some sid

/-- **Teardown is all or nothing.**  Between any two dispatches of a server's run, every
session that has started has its callbacks on the bus for both of its descriptors, or for
neither; it loses them in the dispatch of the first event that carries an error on one of
them, no callback of it is called after that dispatch, and nobody holds its sockets. -/
theorem teardown_all_or_nothing (cfg : Config η) (opened : List FileDescriptor) :
    (∀ polls, ∃ evs, Handles cfg (startServer cfg opened) evs (runServer cfg opened polls)) ∧
    ∀ before s, Passes cfg (startServer cfg opened) before s → AllOrNothing cfg s := by
  constructor
  · exact handles_runServer cfg opened
  · intro before s hbefore
    obtain ⟨hs, hclear⟩ := hbefore.settled (settled_startServer cfg opened) rfl
    constructor
    · exact fun _ _ hreturned hx => registered_of_returned hs hclear hreturned hx
    · exact fun _ _ hregistered _ _ hrun => hregistered.passes hs hclear hrun
    · exact fun _ hgone _ _ hrun => hgone.passes hs hclear hrun

end Server

set_option maxRecDepth 4000 in
/-- A client connects, and its session is registered.  Then the target's socket fails, and
the session is gone. -/
theorem teardown_of_client :
    let s := ((startServer reusingServer [0, 1, 2, 4]).dispatch (host reusingServer)
      (some fun _ => pure ()) ⟨3, Flags.in'⟩).2
    let t := (s.dispatch (host reusingServer) (some fun _ => pure ()) ⟨6, Flags.error⟩).2
    (∃ x, Registered s 0 x) ∧ Gone t 0 := by
  intro s t
  have hall := (teardown_all_or_nothing reusingServer [0, 1, 2, 4]).2
  have hsession : (s.world.sessions 0).map Session.fds = some [5, 6] := by decide
  obtain ⟨x, hx, hfds⟩ := Option.map_eq_some_iff.mp hsession
  have hregistered : Registered s 0 x :=
    (hall [] _ .start).started ⟨3, Flags.in'⟩ x (by decide) hx
  refine ⟨⟨x, hregistered⟩, ?_⟩
  have hends := (hall _ s (Passes.start.dispatched ⟨3, Flags.in'⟩)).ends 0 x hregistered _ t
    (Passes.start.dispatched ⟨6, Flags.error⟩)
  have hfatal : Fatal x ⟨6, Flags.error⟩ := by
    rw [Fatal, hfds]
    decide
  rw [if_pos ⟨_, List.mem_append_right _ (List.mem_singleton.mpr rfl), hfatal⟩] at hends
  exact hends

end Proxy
end PsqlTcpProxy
