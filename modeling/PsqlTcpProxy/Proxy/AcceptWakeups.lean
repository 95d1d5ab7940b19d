import Mathlib.Data.Option.Basic
import PsqlTcpProxy.Proxy.Listening

/-!
# Wake-ups of the acceptor

The listening descriptor is watched edge-triggered, and one event accepts one
client; so the acceptor enqueues an event for the next one, after an `accept` that
succeeds and after one that only asks for patience.  It does not when it throws: after
any other `errno`, and after an event with an error.  Then the clients of the backlog
wait until somebody else connects.

What comes after the `accept` does not matter: the event is enqueued before the session
is made.
-/

namespace PsqlTcpProxy
namespace Proxy

open Library Io Server

variable {η : Type} {cfg : Config η}

/-- While clients wait, the descriptor will be reported, or an event for it is to come. -/
def Awake (cfg : Config η) (w : Listening η) : Prop :=
  w.backlog ≠ 0 → w.edge = true ∨ Wakes cfg w.toCome

instance (cfg : Config η) (w : Listening η) : Decidable (Awake cfg w) :=
  inferInstanceAs (Decidable (w.backlog ≠ 0 → w.edge = true ∨ Wakes cfg w.toCome))

/-- If an event for the listening descriptor is refused, nobody waits or there is another
wake-up besides it. -/
def Spared (cfg : Config η) (w : Listening η) (ev : Event) (rest : List Event) : Prop :=
  ForListener cfg ev → refuses cfg w.bus.world ev = true →
    w.backlog = 0 ∨ w.edge = true ∨ Wakes cfg (rest ++ w.bus.events)

/-- The condition, for the turns that dispatch an event. -/
def Rearms (cfg : Config η) (w : Listening η) : Turn → Prop
  | .deliver =>
    match w.loop with
    | .delivering (ev :: batch) => Spared cfg w ev batch
    | _ => True
  | .next =>
    match w.loop with
    | .draining (ev :: queue) => Spared cfg w ev queue
    | _ => True
  | _ => True

/-- A refused event takes no client off the backlog. -/
theorem backlogAfter_of_refuses {w : World η} {ev : Event} (h : refuses cfg w ev = true)
    (backlog : ℕ) : backlogAfter cfg w ev backlog = some backlog := by
  unfold backlogAfter
  split
  · rename_i hand
    rw [refuses, hand.2, Bool.false_or] at h
    rcases haccept : (cfg.kernel w.tick).accept w.opened with errno | conn
    · rfl
    · rw [haccept] at h
      cases h
  · rfl

/-- An event for another descriptor takes none either. -/
theorem backlogAfter_of_ne {w : World η} {ev : Event} (h : ¬ ForListener cfg ev) (backlog : ℕ) :
    backlogAfter cfg w ev backlog = some backlog :=
  if_neg fun hand => h hand.1

/-- **A dispatch.** -/
theorem handled_awake_iff {w : Listening η} {ev : Event} (loop : Loop) (hcalm : w.Calm cfg)
    (hloop : w.loop.toCome = ev :: loop.toCome) (hawake : Awake cfg w) {entry : Entry Callback}
    (hentry : Between entry) :
    (∀ backlog ∈ backlogAfter cfg w.bus.world ev w.backlog,
      Awake cfg (w.handled cfg entry ev loop backlog)) ↔ Spared cfg w ev loop.toCome := by
  obtain ⟨hsettled, hclear⟩ :=
    (Passes.start.noted entry hentry).settled hcalm.settled hcalm.clear
  by_cases hev : ForListener cfg ev
  · rcases hrefuses : refuses cfg w.bus.world ev with _ | _
    · refine iff_of_true (fun _ _ _ => Or.inr (wakes_append.mpr (Or.inr ?_))) fun _ href => ?_
      · exact dispatch_accepts hsettled hclear hev hrefuses
      · rw [hrefuses] at href
        cases href
    · have hsame := (dispatch_refused hsettled hclear hev hrefuses).1
      rw [backlogAfter_of_refuses hrefuses]
      constructor
      · intro h _ _
        have hawake' := h _ rfl
        rw [Awake, Listening.toCome, Listening.handled, hsame] at hawake'
        exact or_iff_not_imp_left.mpr hawake'
      · rintro h _ ⟨⟩
        rw [Awake, Listening.toCome, Listening.handled, hsame]
        exact (h hev hrefuses).resolve_left
  · refine iff_of_true ?_ fun hlistener => absurd hlistener hev
    rw [backlogAfter_of_ne hev]
    rintro _ ⟨⟩ hne
    obtain ⟨l, hemits, -, -⟩ :=
      (Bus.dispatches (silent_server cfg) ev (w.bus.log entry)).lines
    refine (hawake hne).imp_right fun hwakes => ?_
    rw [Listening.toCome, hloop] at hwakes
    rw [Listening.toCome, Listening.handled, hemits.events, ← List.append_assoc]
    exact wakes_append.mpr (Or.inl ((wakes_cons.mp hwakes).resolve_left hev))

/-- **A turn without a dispatch.** -/
theorem Awake.turned {w w' : Listening η} {turn : Turn} (hawake : Awake cfg w)
    (hturn : Turned cfg w turn w') (hdeliver : turn ≠ .deliver) (hnext : turn ≠ .next) :
    Awake cfg w' := by
  cases hturn with
  | arrive => exact fun _ => Or.inl rfl
  | leave => exact fun hne => hawake fun hzero => hne (by simp [hzero])
  | poll s backlog edge batch hedge =>
    intro hne
    rcases hawake hne with hedge' | hwakes
    · obtain rfl : edge = true := hedge'
      by_cases hbatch : Wakes cfg batch
      · exact Or.inr (wakes_append.mpr (Or.inl hbatch))
      · refine Or.inl ?_
        show (true && !decide (Wakes cfg batch)) = true
        rw [decide_eq_false hbatch]
        rfl
    · exact Or.inr (wakes_append.mpr (Or.inr hwakes))
  | interrupt | fail | again => exact hawake
  | swap => exact fun hne => (hawake hne).imp_right fun hwakes => wakes_append.mpr (Or.inl hwakes)
  | deliver => exact absurd rfl hdeliver
  | next => exact absurd rfl hnext

/-- **One turn.** -/
theorem awake_turn_iff {w : Listening η} (hcalm : w.Calm cfg) (hawake : Awake cfg w)
    (turn : Turn) :
    (∀ w', listen cfg w turn = some w' → Awake cfg w') ↔ Rearms cfg w turn := by
  cases turn with
  | deliver =>
    obtain ⟨s, loop, backlog, edge⟩ := w
    rcases loop with _ | (_ | ⟨ev, batch⟩) | queue
    · exact iff_of_true nofun trivial
    · exact iff_of_true nofun trivial
    · exact Option.forall_mem_map.trans
        (handled_awake_iff (.delivering batch) hcalm rfl hawake trivial)
    · exact iff_of_true nofun trivial
  | next =>
    obtain ⟨s, loop, backlog, edge⟩ := w
    rcases loop with _ | batch | (_ | ⟨ev, queue⟩)
    · exact iff_of_true nofun trivial
    · exact iff_of_true nofun trivial
    · exact iff_of_true nofun trivial
    · exact Option.forall_mem_map.trans
        (handled_awake_iff (.draining queue) hcalm rfl hawake trivial)
  | arrive | leave | poll _ | interrupt | fail _ | swap | again =>
    refine iff_of_true (fun w' hlisten => ?_) trivial
    exact hawake.turned (turned_of_listen hlisten) nofun nofun

/-- **No wake-up is lost exactly if every refused event is spared.**  In every run of a server,
with clients that come and go and whatever `accept` answers, there is an edge or an event for the
listening descriptor in every state in which the backlog is not empty, if and only if an event for
it is refused only while nobody waits or another wake-up is to come. -/
theorem wakeups_kept_iff (cfg : Config η) (opened : List FileDescriptor) :
    (∀ polls, ∃ w, Leads cfg (listening cfg opened) w ∧ w.loop = .waiting ∧
      w.bus = runServer cfg opened polls) ∧
    ∀ turns, Meets (listen cfg) (fun w turn => ∀ w', listen cfg w turn = some w' → Awake cfg w')
        (listening cfg opened) turns ↔
      Meets (listen cfg) (Rearms cfg) (listening cfg opened) turns := by
  refine ⟨leads_runServer cfg opened, fun turns => ?_⟩
  refine meets_congr (J := fun w => w.Calm cfg ∧ Awake cfg w)
    (fun w turn hw => awake_turn_iff hw.1 hw.2 turn) ?_ ?_ turns
  · exact fun w turn w' hw hawake hlisten =>
      ⟨hw.1.turned (turned_of_listen hlisten), hawake w' hlisten⟩
  · exact ⟨calm_listening cfg opened, fun hne => absurd rfl hne⟩

/-- The process has no descriptor left when the first client is to be accepted. -/
def crowdedServer : Config Unit where
  kernel tick :=
    { recv := .failed EAGAIN
      send := fun _ => .failed EAGAIN
      accept := fun opened => if tick = 0 then .error 24 else lowestFree opened
      socket := lowestFree
      connect := none
      epollCtl := none
      shutdown := none
      close := none }
  listener := 3
  epfd := 4
  addresses := 1
  handlers _ := []
  handlerState _ := ()
  memory _ := 0

/-- A client connects, `accept` fails, and the next calls of `epoll_wait` report nothing. -/
def crowdedTurns : List Turn :=
  [.arrive, .poll [⟨3, Flags.in'⟩], .deliver, .swap, .again, .poll [], .swap, .again]

/-- **A wake-up is lost.**  The client waits, though `accept` would succeed now. -/
theorem wakeup_lost :
    ∃ w, run (listen crowdedServer) (listening crowdedServer [0, 1, 2, 4]) crowdedTurns = some w ∧
      w.loop = .waiting ∧ ¬ Awake crowdedServer w ∧
      refuses crowdedServer w.bus.world ⟨3, Flags.in'⟩ = false := by
  refine ⟨_, rfl, rfl, ?_, rfl⟩
  decide

end Proxy
end PsqlTcpProxy
