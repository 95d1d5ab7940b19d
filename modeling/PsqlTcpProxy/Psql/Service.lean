import PsqlTcpProxy.Proxy.SessionRule
import PsqlTcpProxy.Psql.Inspection
import PsqlTcpProxy.Psql.LogFile

/-!
# The proxy server of PostgreSQL

`psql_proxy/server.cpp` and `psql_proxy/session.cpp`: a proxy server whose channel from the
client to the target has one input callback, a handler that belongs to the session.

`inspected_everywhere` ties the handler to the session.  It has been called on all that the
channel has read, no more and no less and in this order, whatever the kernel answers, however
the events of the sessions interleave, and whether or not the bytes could be sent on.  With it
the statements about runs of a handler become statements about the server:

* `session_inspected`: what is logged for a client is what its bytes parse to.
* `server_log_file`: when the lines of the file that is left behind are the queries of all
  clients.
-/

namespace PsqlTcpProxy
namespace Psql

open Library Io Server
open Proxy (Config ProxyBus Session SessionRule Everywhere ServerMoment runServer)

/-! ## The server -/

/-- `psql_proxy::handler` as a channel captures it. -/
structure Inspector where
  handler : Handler
  /-- Not in the source: its calls so far. -/
  calls : List HandlerCall

namespace Inspector

/-- Nothing has been read. -/
def init (fd : FileDescriptor) : Inspector := ⟨.init fd, []⟩

/-- `inspect`, with the calls written down. -/
def call (beyond : ℕ → List UInt8 → ℕ → UInt8) : InputCallback Inspector := fun s res =>
  let r := inspect beyond (s.handler, s.calls.length) res
  { state := ⟨r.state.1, s.calls ++ [⟨beyond s.calls.length, res⟩]⟩
    events := r.events
    thrown := r.thrown }

/-- The handler keeps its descriptor, and its events are for it. -/
theorem call_fd (beyond : ℕ → List UInt8 → ℕ → UInt8) (s : Inspector) (res : InputResult) :
    (call beyond s res).state.handler.fd = s.handler.fd ∧
      ∀ ev ∈ (call beyond s res).events, ev.fd = s.handler.fd := by
  obtain ⟨fs, -, -, -, heffects, -, hfd⟩ := call_frames s.handler ⟨beyond s.calls.length, res⟩
  refine ⟨hfd, fun ev hev => ?_⟩
  have hev' : ev ∈ enqueued (s.handler.call (beyond s.calls.length) res).effects := hev
  rw [heffects] at hev'
  obtain ⟨effect, heffect, hevent⟩ := List.mem_filterMap.mp hev'
  obtain ⟨p, -, hp⟩ := List.mem_flatMap.mp heffect
  unfold Packet.effects at hp
  split at hp
  · rw [List.mem_singleton.mp hp] at hevent
    cases hevent
  · split at hp
    · rw [List.mem_singleton.mp hp] at hevent
      obtain rfl := Option.some.inj hevent
      rfl
    · cases hp

end Inspector

/-- `psql_proxy::server`, on a kernel and a network; `beyond` is the memory behind what the
handlers are given. -/
def psqlServer (cfg : Config Unit) (beyond : FileDescriptor → ℕ → List UInt8 → ℕ → UInt8) :
    Config Inspector :=
  { cfg.toServerConfig with
    addresses := cfg.addresses
    handlers := fun fd => [Inspector.call (beyond fd)]
    handlerState := Inspector.init
    memory := cfg.memory }

/-- The calls of a session's handler. -/
def callsOf (x : Session Inspector) : List HandlerCall := x.lr.channel.handlerState.calls

/-- What the handler of a session has asked for. -/
def effectsOf (x : Session Inspector) : List Effect :=
  ((Handler.init x.client).run (callsOf x)).effects

/-! ## What the handler has been called on -/

/-- The handler has come from a new one by its calls, and they are what has been read. -/
structure Inspected (x : Session Inspector) : Prop where
  handler : x.lr.channel.handlerState.handler = ((Handler.init x.client).run (callsOf x)).handler
  stream : streamOf (callsOf x) = x.lr.received

theorem streamOf_concat (calls : List HandlerCall) (c : HandlerCall) :
    streamOf (calls ++ [c]) = streamOf calls ++ c.result.bytes := by
  rw [streamOf, List.flatMap_append, List.flatMap_singleton]
  rfl

variable {cfg : Config Unit} {beyond : FileDescriptor → ℕ → List UInt8 → ℕ → UInt8}

/-- What an event of the channel from the client does to the handler. -/
theorem capturedAfter_inspector {x : Session Inspector} (h : x.Attached (psqlServer cfg beyond))
    (o : Outcome Inspector) :
    (o.readCall = none ∧ x.lr.channel.capturedAfter o = x.lr.channel.handlerState) ∨
      ∃ res, o.readCall = some res ∧ x.lr.channel.capturedAfter o =
        (Inspector.call (beyond x.client) x.lr.channel.handlerState res).state := by
  have hhandlers : x.lr.channel.handlers = [Inspector.call (beyond x.client)] := h
  unfold Channel.capturedAfter
  rcases o.readCall with _ | res
  · exact Or.inl ⟨rfl, rfl⟩
  · refine Or.inr ⟨res, rfl, ?_⟩
    simp only [hhandlers, runHandlers_singleton]

theorem Inspected.event {x : Session Inspector} (h : Inspected x)
    (hattached : x.Attached (psqlServer cfg beyond)) {dir : Direction} {e : ChannelEvent}
    {o : Outcome Inspector} (ho : (x.flow dir).channel.handle e = some o) :
    Inspected (x.setFlow dir ((x.flow dir).after o)) := by
  cases dir with
  | rl => exact ⟨h.handler, h.stream⟩
  | lr =>
    have hcaptured : o.channel.handlerState = x.lr.channel.capturedAfter o :=
      Channel.handle_captured ho
    rcases capturedAfter_inspector hattached o with ⟨hnone, hsame⟩ | ⟨res, hres, hcalled⟩
    · rw [hsame] at hcaptured
      refine ⟨?_, ?_⟩
      · show o.channel.handlerState.handler =
          ((Handler.init x.client).run o.channel.handlerState.calls).handler
        rw [hcaptured]
        exact h.handler
      · show streamOf o.channel.handlerState.calls = x.lr.received ++ o.received
        rw [hcaptured, Outcome.received, hnone]
        exact h.stream.trans (List.append_nil _).symm
    · rw [hcalled] at hcaptured
      obtain ⟨hhandler, -⟩ := SharedLog.run_concat (Handler.init x.client) (callsOf x)
        ⟨beyond x.client (callsOf x).length, res⟩
      rw [← h.handler] at hhandler
      refine ⟨?_, ?_⟩
      · show o.channel.handlerState.handler =
          ((Handler.init x.client).run o.channel.handlerState.calls).handler
        rw [hcaptured]
        exact hhandler.symm
      · show streamOf o.channel.handlerState.calls = x.lr.received ++ o.received
        rw [hcaptured, Outcome.received, hres, ← h.stream]
        exact streamOf_concat _ _

/-- **The handler is told everything.** -/
theorem sessionRule_inspected (cfg : Config Unit)
    (beyond : FileDescriptor → ℕ → List UInt8 → ℕ → UInt8) :
    SessionRule (psqlServer cfg beyond) fun _ x _ => Inspected x where
  more := fun h _ => h
  attached := fun _ _ _ _ _ => ⟨rfl, rfl⟩
  counted := fun _ h => ⟨h.handler, h.stream⟩
  event := fun hattached h ho => h.event hattached ho

/-- **At every moment of every run** the handler of a session has been called on what its
channel has read. -/
theorem inspected_everywhere {opened : List FileDescriptor} {s : ProxyBus Inspector}
    (hs : ServerMoment (psqlServer cfg beyond) opened s) :
    Everywhere (psqlServer cfg beyond) (fun _ x _ => Inspected x) s :=
  Proxy.session_rule (sessionRule_inspected cfg beyond) hs

/-! ## What is logged -/

/-- The texts of the queries among packets. -/
def queries (frames : List Packet) : List Text :=
  frames.filterMap fun p => if p.code = Query.MESSAGE_CODE then some p.payload.dropLast else none

/-- Of what packets ask for, the queries are logged. -/
theorem logged_flatMap_effects (fd : FileDescriptor) (frames : List Packet) :
    logged (frames.flatMap (Packet.effects fd)) = queries frames := by
  induction frames with
  | nil => rfl
  | cons p frames ih =>
    rw [List.flatMap_cons, logged_append, ih]
    unfold Packet.effects queries
    rw [List.filterMap_cons]
    split
    · rfl
    · split
      · rfl
      · rfl

/-- What the log of a client has to do with the client's bytes. -/
structure Records (stream : List UInt8) (texts : List Text) : Prop where
  /-- What is logged stands in the stream, behind a length field that reads as its length. -/
  sits : ∀ text ∈ texts, Sits stream text
  /-- The queries in front of the first packet that is refused are logged first. -/
  front : ∀ gs, gs <+: (parse false stream).frames → (∀ p ∈ gs, p.Accepted) → queries gs <+: texts
  /-- If none is refused, they are all. -/
  exact : (∀ p ∈ (parse false stream).frames, p.Accepted) →
    texts = queries (parse false stream).frames

/-- **What a handler logs.** -/
theorem records_run (fd : FileDescriptor) (calls : List HandlerCall) :
    Records (streamOf calls) (logged ((Handler.init fd).run calls).effects) := by
  refine ⟨fun text htext => run_sits _ calls htext, fun gs hgs hok => ?_, fun hok => ?_⟩
  · obtain ⟨more, hmore⟩ := run_accepted_prefix (h := Handler.init fd) rfl calls hgs hok
    rw [← logged_flatMap_effects fd gs, ← hmore, logged_append]
    exact List.prefix_append _ _
  · rw [run_eq (h := Handler.init fd) rfl calls hok]
    exact logged_flatMap_effects fd _

/-- The descriptors of the clients. -/
def clientAt (s : ProxyBus Inspector) (sid : SessionId) : FileDescriptor :=
  ((s.world.sessions sid).map Session.client).getD (-1)

/-- The results that the handler of a session has been called on. -/
def resultsAt (s : ProxyBus Inspector) (sid : SessionId) : List InputResult :=
  ((s.world.sessions sid).map fun x => (callsOf x).map HandlerCall.result).getD []

/-- What has been read from the client of a session that has started. -/
def readAt (s : ProxyBus Inspector) (sid : SessionId) : List UInt8 :=
  match s.world.sessions sid with
  | some x => if x.lr.channel.handlers.isEmpty then [] else x.lr.received
  | none => []

/-- The queries that have been read from the client. -/
def queriesAt (s : ProxyBus Inspector) (sid : SessionId) : List Text :=
  queries (parse false (readAt s sid)).frames

theorem streamOf_eq_flatMap (calls : List HandlerCall) :
    streamOf calls = (calls.map HandlerCall.result).flatMap ResultType.bytes := by
  rw [List.flatMap_map]
  rfl

/-- **The handlers are called on what is read.** -/
theorem bytes_resultsAt {opened : List FileDescriptor} {s : ProxyBus Inspector}
    (hs : ServerMoment (psqlServer cfg beyond) opened s) (sid : SessionId) :
    (resultsAt s sid).flatMap ResultType.bytes = readAt s sid := by
  unfold resultsAt readAt
  rcases hx : s.world.sessions sid with _ | x
  · rfl
  · rw [Option.map_some, Option.getD_some, ← streamOf_eq_flatMap]
    rcases inspected_everywhere hs sid x hx with hbare | ⟨hattached, hinspected⟩
    · have hnone : callsOf x = [] := congrArg Inspector.calls hbare.handlerState
      have hempty : x.lr.channel.handlers.isEmpty = true := List.isEmpty_iff.mpr hbare.handlers
      simp only [hnone, hempty, if_true]
      rfl
    · have hsome : x.lr.channel.handlers = [Inspector.call (beyond x.client)] := hattached
      simp only [hsome, List.isEmpty_cons, Bool.false_eq_true, if_false]
      exact hinspected.stream

/-- **What the handlers log is the clients' queries**, if no packet is refused. -/
theorem texts_eq_queries {opened : List FileDescriptor} {s : ProxyBus Inspector}
    (hs : ServerMoment (psqlServer cfg beyond) opened s) {log : SharedLog SessionId}
    (hresults : ∀ sid, (log.calls sid).map HandlerCall.result = resultsAt s sid)
    (haccepted : ∀ sid, ∀ p ∈ (parse false (readAt s sid)).frames, p.Accepted) :
    log.texts (clientAt s) = queriesAt s := by
  ext sid : 1
  have hstream : streamOf (log.calls sid) = readAt s sid := by
    rw [streamOf_eq_flatMap, hresults]
    exact bytes_resultsAt hs sid
  have hexact := (records_run (clientAt s sid) (log.calls sid)).exact
  rw [hstream] at hexact
  exact hexact (haccepted sid)

/-- **The log file of a server.**  The handlers are called by a run of the server, until a
signal comes and the main thread is at the join; the two threads interleave in any way.  If no
request of the query processor and no packet is refused, then once the writer thread is behind
its loop the lines of the file are woven from the queries that the clients' bytes parse to, if
and only if no query contains a newline and all that was unwritten when the main thread came to
the join is what the writer thread was then going to write. -/
theorem server_log_file (cfg : Config Unit)
    (beyond : FileDescriptor → ℕ → List UInt8 → ℕ → UInt8) (opened : List FileDescriptor)
    (polls : List (Except ℤ (List Event))) (data : ℕ → UInt8) (turns : List (FileTurn SessionId))
    {s : ProxyBus Inspector} (hs : s = runServer (psqlServer cfg beyond) opened polls)
    (hgrants : Meets LogFile.step (LogFile.Answers QueryQueue.Grants)
      (.start data QueryQueue.NEWLINE (clientAt s)) turns)
    {f : LogFile SessionId}
    (hrun : run LogFile.step (.start data QueryQueue.NEWLINE (clientAt s)) turns = some f)
    (hjoining : f.joining = true)
    (hresults : ∀ sid, (f.shared.calls sid).map HandlerCall.result = resultsAt s sid)
    (haccepted : ∀ sid, ∀ p ∈ (parse false (readAt s sid)).frames, p.Accepted)
    {more : List (FileTurn SessionId)}
    (hmore : QueryProcessor.BUFF_SZ + 8 ≤ more.countP FileTurn.isWriter) :
    ∃ t, run LogFile.step f more = some t ∧ t.pc = .returned ∧
      (Woven (queriesAt s) (fields QueryQueue.NEWLINE t.file) ↔
        (∀ sid, ∀ text ∈ queriesAt s sid, QueryQueue.NEWLINE ∉ text) ∧
          f.writer.coming = f.writer.unwritten.length) := by
  have hmoment := Proxy.moment_runServer (psqlServer cfg beyond) opened polls
  rw [← hs] at hmoment
  have hcomplete := LogFile.complete_iff hrun hgrants hjoining hmore
  rw [texts_eq_queries hmoment hresults haccepted] at hcomplete
  exact hcomplete

/-! ## A server with one client -/

deriving instance DecidableEq for ResultType

/-- A client connects, and all that it sends at a time is `chunk`. -/
def oneClient (chunk : List UInt8) (h : chunk.length ≤ CHUNK_SZ) : Config Unit where
  kernel tick :=
    { recv := .received ⟨chunk, h⟩
      send := fun offered => .sent (Fin.last offered.length)
      accept := fun opened => if tick = 0 then Proxy.lowestFree opened else .error EAGAIN
      socket := Proxy.lowestFree
      connect := none
      epollCtl := none
      shutdown := none
      close := none }
  listener := 3
  epfd := 4
  addresses := 1
  handlers _ := []
  handlerState _ := ()
  memory _ := 0

/-- A startup packet and the query `a` arrive. -/
def letterServer : ProxyBus Inspector :=
  runServer (psqlServer (oneClient SharedLog.letterBytes (by decide)) fun _ _ _ _ => 0) [0, 1, 2, 4]
    [.ok [⟨3, Flags.in'⟩], .ok [⟨5, Flags.in'⟩]]

theorem letterServer_session :
    letterServer.world.nextSession = 1 ∧
      (letterServer.world.sessions 0).map (fun x => ((callsOf x).map HandlerCall.result,
        x.lr.channel.handlers.isEmpty, x.lr.received)) =
      some ([.success SharedLog.letterBytes], false, SharedLog.letterBytes) := by
  decide +kernel

/-- There is no other session. -/
theorem unborn_letter {sid : SessionId} (hne : sid ≠ 0) :
    letterServer.world.sessions sid = none := by
  refine (Proxy.moment_runServer _ _ _).lives.world.unborn sid ?_
  show letterServer.world.nextSession ≤ sid
  rw [letterServer_session.1]
  exact Nat.one_le_iff_ne_zero.mpr hne

/-- All that was read came from the one client. -/
theorem readAt_letter (sid : SessionId) :
    readAt letterServer sid = if sid = 0 then SharedLog.letterBytes else [] := by
  obtain ⟨-, hsession⟩ := letterServer_session
  obtain ⟨x, hx, hvalues⟩ := Option.map_eq_some_iff.mp hsession
  rw [Prod.mk.injEq, Prod.mk.injEq] at hvalues
  obtain ⟨-, hhandlers, hreceived⟩ := hvalues
  by_cases hsid : sid = 0
  · simp only [hsid, readAt, hx, hhandlers, hreceived, if_true, Bool.false_eq_true, if_false]
  · simp only [readAt, unborn_letter hsid, if_neg hsid]

theorem frames_letter {sid : SessionId} {p : Packet}
    (hp : p ∈ (parse false (readAt letterServer sid)).frames) :
    p ∈ (parse false SharedLog.letterBytes).frames := by
  rw [readAt_letter] at hp
  split at hp
  · exact hp
  · rw [parse_of_none rfl] at hp
    exact absurd hp List.not_mem_nil

/-- The handlers of the log have been called as those of the server. -/
theorem results_letter {calls : SessionId → List HandlerCall}
    (hcalls : calls = Function.update (fun _ => []) 0 [SharedLog.letterCall]) (sid : SessionId) :
    (calls sid).map HandlerCall.result = resultsAt letterServer sid := by
  obtain ⟨-, hsession⟩ := letterServer_session
  obtain ⟨x, hx, hvalues⟩ := Option.map_eq_some_iff.mp hsession
  rw [Prod.mk.injEq, Prod.mk.injEq] at hvalues
  obtain ⟨hresults, -⟩ := hvalues
  rw [hcalls]
  by_cases hsid : sid = 0
  · subst hsid
    rw [Function.update_self, resultsAt, hx, Option.map_some, Option.getD_some, hresults]
    rfl
  · rw [Function.update_of_ne hsid, resultsAt, unborn_letter hsid]
    rfl

theorem newlineFree_letter :
    ∀ sid, ∀ text ∈ queriesAt letterServer sid, QueryQueue.NEWLINE ∉ text := by
  intro sid text htext
  obtain ⟨p, hp, hquery⟩ := List.mem_filterMap.mp htext
  have hmem := frames_letter hp
  rw [SharedLog.parse_letter] at hmem
  simp only [List.mem_cons, List.not_mem_nil, or_false] at hmem
  rcases hmem with rfl | rfl
  · cases hquery
  · obtain rfl := Option.some.inj hquery
    decide

/-- **One line in the file.** -/
theorem server_log_file_letter : ∃ f t,
    run LogFile.step (.start (fun _ => 0) QueryQueue.NEWLINE (clientAt letterServer))
        (LogFile.letterTurns 0) = some f ∧
      run LogFile.step f (List.replicate (QueryProcessor.BUFF_SZ + 8) .writer) = some t ∧
      Woven (queriesAt letterServer) (fields QueryQueue.NEWLINE t.file) := by
  obtain ⟨f, hrun, hjoining, hcoming, hcalls⟩ := LogFile.letter_ends (clientAt letterServer) 0
  obtain ⟨t, hrest, -, hlines⟩ := server_log_file _ _ _ _ _ _ rfl
    (LogFile.grants_letter (clientAt letterServer) 0) hrun hjoining (results_letter hcalls)
    (fun _ p hp => SharedLog.accepted_letter p (frames_letter hp)) LogFile.writers_enough
  exact ⟨f, t, hrun, hrest, hlines.mpr ⟨newlineFree_letter, hcoming⟩⟩

end Psql
end PsqlTcpProxy
