import PsqlTcpProxy.Proxy.Announced
import PsqlTcpProxy.Psql.Service

/-!
# Clients that terminate

A Terminate packet is the client's goodbye.  The handler enqueues an error event for the
client's descriptor and does nothing else, it does not even stop reading; the session's own
callback takes the event, later, for the end of the connection.

`terminate_ends`: however the packet is cut into reads, whatever comes behind it and whatever
the other sessions do meanwhile, the session ends.
-/

namespace PsqlTcpProxy
namespace Psql

open Library Io Server
open Proxy (Config ProxyBus Session SessionRule Registered Fatal Gone Succeeds Heard
  Announces midBatch runServer serve)

/-- There is a Terminate packet in the stream, and no packet in front of it is refused. -/
def Terminates (stream : List UInt8) : Prop :=
  ∃ gs p, gs ++ [p] <+: (parse false stream).frames ∧ (∀ q ∈ gs, q.Accepted) ∧
    p.code = Terminate.MESSAGE_CODE

/-- The handler has come to a Terminate packet. -/
def Terminated (x : Session Inspector) : Prop :=
  Effect.enqueueEvent ⟨x.client, Flags.error⟩ ∈ effectsOf x

variable {cfg : Config Unit} {beyond : FileDescriptor → ℕ → List UInt8 → ℕ → UInt8}

/-- A Terminate packet has no payload that could be refused. -/
theorem accepted_terminate {p : Packet} (hcode : p.code = Terminate.MESSAGE_CODE) :
    p.Accepted := by
  intro beyond err h
  rw [Packet.make, hcode] at h
  cases h

/-- **The handler comes to the packet.** -/
theorem Inspected.terminated {x : Session Inspector} (h : Inspected x)
    (hstream : Terminates x.lr.received) : Terminated x := by
  obtain ⟨gs, p, hfront, hok, hcode⟩ := hstream
  have hall : ∀ q ∈ gs ++ [p], q.Accepted := by
    intro q hq
    rcases List.mem_append.mp hq with hq | hq
    · exact hok q hq
    · obtain rfl := List.mem_singleton.mp hq
      exact accepted_terminate hcode
  rw [← h.stream] at hfront
  have hdone := run_accepted_prefix (h := Handler.init x.client) rfl (callsOf x) hfront hall
  refine hdone.subset ?_
  rw [List.flatMap_append, List.flatMap_singleton]
  refine List.mem_append_right _ ?_
  rw [Packet.effects, hcode]
  exact List.mem_singleton.mpr rfl

/-! ## The event is enqueued at once -/

/-- What an input callback enqueues is enqueued. -/
theorem mem_events_of_input {η : Type} {c : Channel η} {e : ChannelEvent} {o : Outcome η}
    (h : c.handle e = some o) {ev : Event} (herror : ev.flags.test Flags.error = true)
    (hev : ev ∈ c.inputEvents o) : ev ∈ o.events := by
  cases e with
  | left fd mask read write => exact (Channel.mem_events_left h herror).mpr (Or.inr hev)
  | right fd mask write => exact (Channel.mem_events_right h herror).mpr (Or.inr hev)

/-- An event of the channel from the client that brings the handler to a Terminate packet. -/
theorem Inspected.announced {x : Session Inspector} (h : Inspected x)
    (hattached : x.Attached (psqlServer cfg beyond)) {e : ChannelEvent} {o : Outcome Inspector}
    (ho : x.lr.channel.handle e = some o) (hnew : Terminated (x.setFlow .lr (x.lr.after o))) :
    Terminated x ∨ ⟨x.client, Flags.error⟩ ∈ o.events := by
  have hhandlers : x.lr.channel.handlers = [Inspector.call (beyond x.client)] := hattached
  have hcaptured : o.channel.handlerState = x.lr.channel.capturedAfter o :=
    Channel.handle_captured ho
  have hmem : Effect.enqueueEvent ⟨x.client, Flags.error⟩ ∈
      ((Handler.init x.client).run o.channel.handlerState.calls).effects := hnew
  rcases hcall : o.readCall with _ | res
  · refine Or.inl ?_
    rw [hcaptured, Channel.capturedAfter, hcall] at hmem
    exact hmem
  · obtain ⟨-, heffects⟩ := SharedLog.run_concat (Handler.init x.client) (callsOf x)
      ⟨beyond x.client (callsOf x).length, res⟩
    rw [← h.handler] at heffects
    have hcalls : o.channel.handlerState.calls =
        callsOf x ++ [⟨beyond x.client (callsOf x).length, res⟩] := by
      rw [hcaptured, Channel.capturedAfter, hcall]
      simp only [hhandlers, runHandlers_singleton]
      rfl
    rw [hcalls, heffects] at hmem
    refine (List.mem_append.mp hmem).imp_right fun hmem => ?_
    refine mem_events_of_input ho Flags.test_error_error ?_
    rw [Channel.inputEvents, hcall]
    simp only [hhandlers, runHandlers_singleton, Option.map_some, Option.getD_some]
    exact List.mem_filterMap.mpr ⟨_, hmem, rfl⟩

/-- **A Terminate packet is announced.** -/
theorem announces_terminated (cfg : Config Unit)
    (beyond : FileDescriptor → ℕ → List UInt8 → ℕ → UInt8) :
    Announces (psqlServer cfg beyond) Inspected Terminated := fun D => by
  refine ⟨fun {sid x evs evs'} h hmore => ?_, fun sid client target n evs => ?_,
    fun {sid x evs} n h => ?_, fun {sid x dir e o evs} hattached h ho => ?_⟩
  · refine ⟨h.1, h.2.imp_right fun hheard hx => ?_⟩
    obtain ⟨e, he, hfatal⟩ := hheard hx
    exact ⟨e, hmore e he, hfatal⟩
  · refine ⟨⟨rfl, rfl⟩, Or.inr fun hx => ?_⟩
    exact absurd hx List.not_mem_nil
  · exact ⟨⟨h.1.handler, h.1.stream⟩, h.2⟩
  · refine ⟨h.1.event hattached ho, h.2.imp_right fun hheard hx => ?_⟩
    have hold : Terminated x → ∃ e ∈ evs ++ o.events, Fatal x e := by
      intro hx
      obtain ⟨e, he, hfatal⟩ := hheard hx
      exact ⟨e, List.mem_append_left _ he, hfatal⟩
    have hboth : ∃ e ∈ evs ++ o.events, Fatal x e := by
      cases dir with
      | rl => exact hold hx
      | lr =>
        rcases h.1.announced hattached ho hx with hx | hmem
        · exact hold hx
        · exact ⟨_, List.mem_append_right _ hmem, Proxy.Session.mem_fds.mpr (Or.inl rfl),
            Flags.test_error_error⟩
    obtain ⟨e, he, hfatal⟩ := hboth
    exact ⟨e, he, hfatal.of_fds (Proxy.Session.setFlow_fds x dir _)⟩

/-- **A Terminate packet ends the session.**  In the middle of any batch of any run of the
server: if a Terminate packet is among what has been read from the client of a session that
still has its callbacks, with no refused packet in front of it, then an error event for the
session is in the queue; and the session is gone when `wait_events` returns, and stays so. -/
theorem terminate_ends (cfg : Config Unit)
    (beyond : FileDescriptor → ℕ → List UInt8 → ℕ → UInt8) (opened : List FileDescriptor)
    (polls : List (Except ℤ (List Event))) (pre post : List Event) {sid : SessionId}
    {x : Session Inspector}
    (hx : Registered (midBatch (psqlServer cfg beyond) opened polls pre post) sid x)
    (hstream : Terminates x.lr.received) :
    (∃ e ∈ (midBatch (psqlServer cfg beyond) opened polls pre post).events, Fatal x e) ∧
      ∀ later, Gone (serve (psqlServer cfg beyond)
        (runServer (psqlServer cfg beyond) opened polls) (.ok (pre ++ post) :: later)) sid := by
  have hterminates := announces_terminated cfg beyond
  obtain ⟨D, hwatched, -⟩ := Proxy.heeded_midBatch hterminates opened polls pre post
  obtain ⟨-, hinspected, -⟩ := hwatched.heard.attached hwatched.settled hx
  exact hterminates.ends opened polls pre post hx (hinspected.terminated hstream)

/-! ## A client that says goodbye at once -/

/-- A startup packet and a Terminate packet. -/
def goodbyeBytes : List UInt8 := [0, 0, 0, 8, 0, 3, 0, 0, 88, 0, 0, 0, 4]

theorem terminates_goodbye : Terminates goodbyeBytes := by
  have hstartup : nextPacket false goodbyeBytes =
      some (⟨0, .be, [0, 3, 0, 0]⟩, true, [88, 0, 0, 0, 4]) := by decide
  have hterminate : nextPacket true [88, 0, 0, 0, 4] = some (⟨88, .be, []⟩, true, []) := by decide
  refine ⟨[⟨0, .be, [0, 3, 0, 0]⟩], ⟨88, .be, []⟩, ?_, ?_, rfl⟩
  · rw [parse_of_some hstartup, parse_of_some hterminate]
    exact List.prefix_append _ _
  · intro q hq
    obtain rfl := List.mem_singleton.mp hq
    exact Packet.accepted_of (by decide) (by decide) (by decide)

/-- The server of this client. -/
def goodbyeServer : Config Inspector :=
  psqlServer (oneClient goodbyeBytes (by decide)) fun _ _ _ _ => 0

/-- The client has connected, and its bytes arrive. -/
def goodbyeRead : ProxyBus Inspector :=
  midBatch goodbyeServer [0, 1, 2, 4] [.ok [⟨3, Flags.in'⟩]] [⟨5, Flags.in'⟩] []

theorem goodbyeRead_session :
    (goodbyeRead.world.sessions 0).map (fun x => (x.references, x.lr.received)) =
      some (6, goodbyeBytes) := by
  decide +kernel

/-- **The session ends.** -/
theorem terminate_ends_goodbye : ∃ x, Registered goodbyeRead 0 x ∧ Terminates x.lr.received ∧
    (∃ e ∈ goodbyeRead.events, Fatal x e) ∧
      ∀ later, Gone (serve goodbyeServer
        (runServer goodbyeServer [0, 1, 2, 4] [.ok [⟨3, Flags.in'⟩]])
        (.ok [⟨5, Flags.in'⟩] :: later)) 0 := by
  obtain ⟨x, hx, hvalues⟩ := Option.map_eq_some_iff.mp goodbyeRead_session
  obtain ⟨hreferences, hreceived⟩ := Prod.mk.inj hvalues
  have hterminated : Announces goodbyeServer Inspected Terminated := announces_terminated _ _
  obtain ⟨D, hwatched, -⟩ := Proxy.heeded_midBatch hterminated [0, 1, 2, 4] [.ok [⟨3, Flags.in'⟩]]
    [⟨5, Flags.in'⟩] []
  have hregistered : Registered goodbyeRead 0 x := hwatched.settled.registered hx hreferences
  have hterminates : Terminates x.lr.received := by
    rw [hreceived]
    exact terminates_goodbye
  exact ⟨x, hregistered, hterminates,
    terminate_ends _ _ _ _ [⟨5, Flags.in'⟩] [] hregistered hterminates⟩

end Psql
end PsqlTcpProxy
