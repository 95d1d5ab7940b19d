import PsqlTcpProxy.Io.ChannelPrompt
import PsqlTcpProxy.Psql.LoggedTexts

/-!
# Inspection and forwarding

The handler of the client's stream is an input callback of the channel from the
client to the server.  It gets the bytes by constant reference, but it is called
between the read and the write, so an exception of it takes the write of the event
away.

Two channels that differ only in the handler are given the same events with the
same results, and an onlooker compares what they offer to the server and what
their buffers hold.  `inspection_transparent_iff` says when nothing can be told
apart: exactly when no packet among the bytes that are read is refused by
`make_message`.  The events may go on behind a Terminate packet; nothing depends
on it.
-/

namespace PsqlTcpProxy
namespace Psql

open Library Io

/-! ## The handler as an input callback -/

/-- The events among the effects. -/
def enqueued (effects : List Effect) : List Event :=
  effects.filterMap fun
    | .addMessage _ => none
    | .enqueueEvent ev => some ev

/-- `psql_proxy::handler` as a channel calls it, with the number of its calls so
far; the memory behind the bytes may change from call to call. -/
def inspect (beyond : ℕ → List UInt8 → ℕ → UInt8) : InputCallback (Handler × ℕ) := fun s res =>
  let r := s.1.call (beyond s.2) res
  { state := (r.handler, s.2 + 1), events := enqueued r.effects, thrown := r.thrown }

/-! ## What an onlooker sees -/

/-- What can be seen of an event from the server's side. -/
structure Seen where
  /-- What is offered to `async_write_some`, if it is called. -/
  offered : Option (List UInt8)
  /-- The buffer after the event. -/
  buffer : BipartiteBuffer UInt8 Io.BUFF_SZ

/-- What is seen of an outcome. -/
def seen {η : Type} (o : Outcome η) : Seen :=
  { offered := o.writeCall.map WriteCall.offered, buffer := o.channel.buffer }

/-- What is seen of a channel, event after event.  `none` is a failed assertion. -/
def watch {η : Type} (c : Channel η) : List ChannelEvent → Option (List Seen)
  | [] => some []
  | e :: es => (c.handle e).bind fun o => (watch o.channel es).map fun rest => seen o :: rest

/-! ## A channel with and without a callback -/

section

variable {η : Type}

/-- The channel with one input callback. -/
def attach (c : Channel Unit) (callback : InputCallback η) (s : η) : Channel η :=
  { buffer := c.buffer, left := c.left, right := c.right, handlers := [callback]
    handlerState := s }

/-- The callback run on the result of the read, if there was one. -/
def called (callback : InputCallback η) (s : η) : Option InputResult → CallbackResult η
  | none => ⟨s, [], none⟩
  | some res => callback s res

/-- A read with the callback run on its result. -/
def readWith (callback : InputCallback η) (s : η) (o : Outcome Unit) : Outcome η :=
  { channel := attach o.channel callback (called callback s o.readCall).state
    events := o.events ++ (called callback s o.readCall).events
    thrown := (called callback s o.readCall).thrown
    readCall := o.readCall }

/-- One callback is called alone. -/
theorem runHandlers_singleton (callback : InputCallback η) (s : η) (res : InputResult) :
    runHandlers [callback] s res = callback s res := by
  unfold runHandlers
  rcases callback s res with ⟨s', evs, _ | err⟩
  · simp only [runHandlers, List.append_nil]
  · rfl

variable {c : Channel Unit} {callback : InputCallback η} {s : η} {fd : FileDescriptor}

@[simp] theorem attach_buffer : (attach c callback s).buffer = c.buffer := rfl

/-- The read does not depend on the callback. -/
theorem readPart_attach (hc : c.handlers = []) (read : ReadResult CHUNK_SZ) :
    (attach c callback s).readPart fd read = (c.readPart fd read).map (readWith callback s) := by
  have hafter : ∀ (b : BipartiteBuffer UInt8 Io.BUFF_SZ) (res : InputResult) (evs : List Event),
      ({ attach c callback s with buffer := b } : Channel η).afterRead res evs =
        readWith callback s (({ c with buffer := b } : Channel Unit).afterRead res evs) := by
    intro b res evs
    simp only [Channel.afterRead, attach, runHandlers_singleton, hc, runHandlers, readWith, called,
      List.append_nil]
  unfold Channel.readPart
  rw [attach_buffer]
  rcases c.buffer.writeAcquire CHUNK_SZ with ⟨_ | wbuf, b⟩
  · rfl
  · cases read with
    | error err => exact congrArg some (hafter b _ _)
    | success bytes =>
      rcases hrel : (b.store wbuf bytes.1).writeRelease bytes.1.length with _ | b'
      · simp only [hrel, Option.map_none]
      · simp only [hrel, Option.map_some, hafter]

/-- The write does not depend on the callback. -/
theorem writePart_attach (write : (offered : List UInt8) → WriteResult offered.length) :
    (attach c callback s).writePart fd write = (c.writePart fd write).map fun o =>
      { channel := attach o.channel callback s, events := o.events, writeCall := o.writeCall } := by
  unfold Channel.writePart
  rw [attach_buffer]
  rcases c.buffer.readAcquire with ⟨_ | rbuf, len, b⟩
  · rfl
  · simp only
    split
    · rcases write (region b.data rbuf len) with n | err
      · rcases hrel : b.readRelease n with _ | b'
        · simp only [hrel, Option.map_none]
        · simp only [hrel, Option.map_some]
          rfl
      · rfl
    · rfl

theorem writePart_readCall {write : (offered : List UInt8) → WriteResult offered.length}
    {o : Outcome Unit} (h : c.writePart fd write = some o) : o.readCall = none := by
  obtain ⟨b, events, writeCall, rfl, -⟩ := Channel.writePart_inv h
  rfl

/-- A left event with a read that no callback objects to. -/
theorem handleLeft_quiet {c : Channel η} {mask : Flags} {read : ReadResult CHUNK_SZ}
    {write : (offered : List UInt8) → WriteResult offered.length} {o₁ o₂ : Outcome η}
    (hin : mask.test Flags.in' = true) (ho₁ : c.readPart fd read = some o₁)
    (hquiet : o₁.thrown = none) (ho₂ : o₁.channel.writePart fd write = some o₂) :
    c.handleLeftIoEvent fd mask read write =
      some { o₂ with events := o₁.events ++ o₂.events, readCall := o₁.readCall } := by
  rw [Channel.handleLeftIoEvent, if_pos hin, ho₁, Option.bind_some, hquiet, ho₂]
  rfl

/-- A left event that a callback leaves. -/
theorem handleLeft_loud {c : Channel η} {mask : Flags} {read : ReadResult CHUNK_SZ}
    {write : (offered : List UInt8) → WriteResult offered.length} {o₁ : Outcome η}
    (hin : mask.test Flags.in' = true) (ho₁ : c.readPart fd read = some o₁)
    (hloud : o₁.thrown ≠ none) : c.handleLeftIoEvent fd mask read write = some o₁ := by
  obtain ⟨err, herr⟩ := Option.ne_none_iff_exists'.mp hloud
  rw [Channel.handleLeftIoEvent, if_pos hin, ho₁, Option.bind_some, herr]
  rfl

/-- What an event with and one without a callback have to do with each other.
Unless the callback throws, the event looks the same.  When it throws, nothing is
offered, although what has been read would be. -/
structure Alike (callback : InputCallback η) (s : η) (o : Outcome Unit) (o' : Outcome η) :
    Prop where
  quiet : (called callback s o.readCall).thrown = none → seen o' = seen o ∧
    o'.channel = attach o.channel callback (called callback s o.readCall).state
  loud : (called callback s o.readCall).thrown ≠ none → o'.writeCall = none ∧
    (o.received ≠ [] → o.writeCall ≠ none)

/-- **One event with and without a callback.** -/
theorem handle_attach (hsound : c.Sound) (hc : c.handlers = []) (callback : InputCallback η)
    (s : η) (e : ChannelEvent) :
    ∃ o o', c.handle e = some o ∧ (attach c callback s).handle e = some o' ∧
      o.channel.Sound ∧ o.channel.handlers = [] ∧ Alike callback s o o' := by
  obtain ⟨o, ho, hsound', -⟩ := Channel.handle_correct hsound e
  have hhandlers := (Channel.handle_handlers ho).trans hc
  cases e with
  | right fd mask write =>
    by_cases hout : mask.test Flags.out = true
    · simp only [Channel.handle, Channel.handleRightIoEvent, if_pos hout] at ho ⊢
      have hread := writePart_readCall ho
      refine ⟨o, _, ho, by rw [writePart_attach, ho]; rfl, hsound', hhandlers, ?_, ?_⟩
      · rw [hread]
        exact fun _ => ⟨rfl, rfl⟩
      · rw [hread]
        exact fun h => absurd rfl h
    · simp only [Channel.handle, Channel.handleRightIoEvent, if_neg hout] at ho ⊢
      obtain rfl := Option.some.inj ho
      exact ⟨_, _, rfl, rfl, hsound', hhandlers, fun _ => ⟨rfl, rfl⟩, fun h => absurd rfl h⟩
  | left fd mask read write =>
    by_cases hin : mask.test Flags.in' = true
    · obtain ⟨o₁, ho₁, hsound₁, hheld, -⟩ := Channel.readPart_correct hsound fd read
      have hsteady : Steady c.handlers := by
        rw [hc]
        exact fun handler hmem => absurd hmem List.not_mem_nil
      have hthrown := (Channel.readPart_handlers ho₁).2 hsteady
      obtain ⟨o₂, ho₂, -⟩ := Channel.writePart_correct hsound₁ fd write
      have ho' : c.handle (.left fd mask read write) = _ := handleLeft_quiet hin ho₁ hthrown ho₂
      obtain rfl := Option.some.inj (ho'.symm.trans ho)
      have hread : (attach c callback s).readPart fd read = some (readWith callback s o₁) := by
        rw [readPart_attach hc, ho₁]
        rfl
      by_cases hquiet : (called callback s o₁.readCall).thrown = none
      · have hwrite : (readWith callback s o₁).channel.writePart fd write = _ :=
          writePart_attach write
        rw [ho₂] at hwrite
        refine ⟨_, _, ho, handleLeft_quiet hin hread hquiet hwrite, hsound', hhandlers,
          fun _ => ⟨rfl, rfl⟩, fun h => absurd hquiet h⟩
      · refine ⟨_, _, ho, handleLeft_loud hin hread hquiet, hsound', hhandlers,
          fun h => absurd h hquiet, fun _ => ⟨rfl, fun hne => ?_⟩⟩
        -- what has been read is in the buffer, so a region of it is offered
        obtain ⟨-, -, -, ⟨-, hnil, -⟩ | ⟨offered, -, hcall, -⟩⟩ :=
          Channel.writePart_cases hsound₁ ho₂
        · rw [hheld] at hnil
          exact absurd (List.append_eq_nil_iff.mp hnil).2 hne
        · show o₂.writeCall ≠ none
          rw [hcall]
          exact Option.some_ne_none _
    · simp only [Channel.handle, Channel.handleLeftIoEvent, hin] at ho ⊢
      obtain rfl := Option.some.inj ho
      exact ⟨_, _, rfl, rfl, hsound', hhandlers, fun _ => ⟨rfl, rfl⟩, fun h => absurd rfl h⟩

end

/-! ## The handler on what has been read -/

section

variable {beyond : ℕ → List UInt8 → ℕ → UInt8} {h : Handler} {n : ℕ}

/-- A handler that does not throw has taken in what has been read. -/
theorem called_quiet (hstuck : nextPacket h.firstMsgHandled h.buffer = none)
    {readCall : Option InputResult}
    (hquiet : (called (inspect beyond) (h, n) readCall).thrown = none) :
    let pending := h.buffer ++ (readCall.map ResultType.bytes).getD []
    (∀ p ∈ (parse h.firstMsgHandled pending).frames, p.Accepted) ∧
      (called (inspect beyond) (h, n) readCall).state.1 = (h.expected pending).handler := by
  have hnone : (∀ p ∈ (parse h.firstMsgHandled (h.buffer ++ [])).frames, p.Accepted) ∧
      h = (h.expected (h.buffer ++ [])).handler := by
    rw [List.append_nil, parse_of_none hstuck, Handler.expected_of_none hstuck]
    exact ⟨fun p hp => absurd hp List.not_mem_nil, rfl⟩
  rcases readCall with _ | bytes | err
  · exact hnone
  · rcases rejects_or_accepted h.firstMsgHandled (h.buffer ++ bytes) with
      ⟨passed, before, packet, rest, hrejects⟩ | hok
    · exact absurd hquiet (thrown_of_rejects hrejects (beyond n))
    · refine ⟨hok, ?_⟩
      have hcall := call_eq hstuck ⟨beyond n, .success bytes⟩ hok
      exact congrArg Handled.handler hcall
  · exact hnone

/-- A handler that throws has been given bytes, and met a refused packet. -/
theorem called_loud (hstuck : nextPacket h.firstMsgHandled h.buffer = none)
    {readCall : Option InputResult}
    (hloud : (called (inspect beyond) (h, n) readCall).thrown ≠ none) :
    (readCall.map ResultType.bytes).getD [] ≠ [] ∧
      ∃ p ∈ (parse h.firstMsgHandled (h.buffer ++ (readCall.map ResultType.bytes).getD [])).frames,
        ¬ p.Accepted := by
  rcases readCall with _ | bytes | err
  · exact absurd rfl hloud
  · obtain ⟨passed, before, packet, rest, hrejects⟩ := rejects_of_thrown hloud
    obtain ⟨-, p, more, hframes, hrefused⟩ := hrejects.frames
    have hmem : p ∈ (parse h.firstMsgHandled (h.buffer ++ bytes)).frames := by
      rw [hframes]
      exact List.mem_append_right _ List.mem_cons_self
    refine ⟨?_, p, hmem, hrefused⟩
    rintro hnil
    obtain rfl : bytes = [] := hnil
    rw [List.append_nil, parse_of_none hstuck] at hmem
    exact absurd hmem List.not_mem_nil
  · exact absurd rfl hloud

end

/-! ## Runs -/

theorem watch_total {η : Type} {c : Channel η} (hc : c.Sound) (es : List ChannelEvent) :
    ∃ seen, watch c es = some seen := by
  induction es generalizing c with
  | nil => exact ⟨[], rfl⟩
  | cons e es ih =>
    obtain ⟨o, ho, hsound, -⟩ := Channel.handle_correct hc e
    obtain ⟨rest, hrest⟩ := ih hsound
    exact ⟨seen o :: rest, by rw [watch, ho, Option.bind_some, hrest, Option.map_some]⟩

/-- **When the handler cannot be noticed**, from any point of a run at which the
handler waits for more bytes. -/
theorem watch_attach_iff (beyond : ℕ → List UInt8 → ℕ → UInt8) {f : Flow Unit}
    (hsound : f.channel.Sound) (hc : f.channel.handlers = []) {h : Handler}
    (hstuck : nextPacket h.firstMsgHandled h.buffer = none) (n : ℕ) (es : List ChannelEvent) :
    ∃ f' more, run Flow.step f es = some f' ∧ f'.received = f.received ++ more ∧
      (watch (attach f.channel (inspect beyond) (h, n)) es = watch f.channel es ↔
        ∀ p ∈ (parse h.firstMsgHandled (h.buffer ++ more)).frames, p.Accepted) := by
  induction es generalizing f h n with
  | nil =>
    refine ⟨f, [], rfl, (List.append_nil _).symm, fun _ => ?_, fun _ => rfl⟩
    rw [List.append_nil, parse_of_none hstuck]
    exact fun p hp => absurd hp List.not_mem_nil
  | cons e es ih =>
    obtain ⟨o, o', ho, ho', hsound', hhandlers, hquiet, hloud⟩ :=
      handle_attach hsound hc (inspect beyond) (h, n) e
    have hstep : Flow.step f e = some (f.after o) := by
      rw [Flow.step, ho]
      rfl
    have hpending : ∀ more, (parse h.firstMsgHandled (h.buffer ++ (o.received ++ more))).frames =
        (parse h.firstMsgHandled (h.buffer ++ o.received)).frames ++
          (parse (parse h.firstMsgHandled (h.buffer ++ o.received)).state
            ((parse h.firstMsgHandled (h.buffer ++ o.received)).rest ++ more)).frames := by
      intro more
      rw [← List.append_assoc, parse_append]
    rw [watch, watch, ho, ho', Option.bind_some, Option.bind_some]
    by_cases hthrown : (called (inspect beyond) (h, n) o.readCall).thrown = none
    · obtain ⟨hseen, hchannel⟩ := hquiet hthrown
      obtain ⟨hok, hstate⟩ := called_quiet hstuck hthrown
      obtain ⟨n', hcalled⟩ : ∃ n', (called (inspect beyond) (h, n) o.readCall).state =
          ((h.expected (h.buffer ++ o.received)).handler, n') := ⟨_, Prod.ext hstate rfl⟩
      obtain ⟨f', more, hrun, hreceived, hiff⟩ := ih (f := f.after o) hsound' hhandlers
        (h := (h.expected (h.buffer ++ o.received)).handler) (nextPacket_rest _ _) n'
      refine ⟨f', o.received ++ more, ?_, ?_, ?_⟩
      · rw [run_cons, hstep, Option.bind_some, hrun]
      · rw [hreceived, ← List.append_assoc]
        rfl
      · rw [hpending, List.forall_mem_append, hchannel, hseen, hcalled,
          (Option.map_injective List.cons_injective).eq_iff]
        exact hiff.trans (and_iff_right hok).symm
    · obtain ⟨hnone, hoffered⟩ := hloud hthrown
      obtain ⟨hne, p, hp, hrefused⟩ := called_loud hstuck hthrown
      obtain ⟨f', more, hrun, hreceived, -⟩ :=
        ih (f := f.after o) hsound' hhandlers (h := ⟨[], true, 0⟩) rfl 0
      obtain ⟨rest, hrest⟩ := watch_total hsound' es
      refine ⟨f', o.received ++ more, ?_, ?_, fun heq => ?_, fun hall => ?_⟩
      · rw [run_cons, hstep, Option.bind_some, hrun]
      · rw [hreceived, ← List.append_assoc]
        rfl
      · -- without the handler something is offered in this event, with it nothing
        rw [hrest, Option.map_some] at heq
        obtain ⟨rest', -, hcons⟩ := Option.map_eq_some_iff.mp heq
        have hsame := congrArg Seen.offered (List.cons.inj hcons).1
        simp only [seen, hnone, Option.map_none] at hsame
        exact absurd (Option.map_eq_none_iff.mp hsame.symm) (hoffered hne)
      · rw [hpending, List.forall_mem_append] at hall
        exact absurd (hall.1 p hp) hrefused

/-- **When inspection is transparent.**  A channel from a client to the server with
the handler and the same channel without it, on the same events in any order with
any masks and results: they offer the same bytes in the same events and hold the
same buffer after every event if and only if no packet among the bytes that are
read is refused. -/
theorem inspection_transparent_iff (data : ℕ → UInt8) (left right fd : FileDescriptor)
    (beyond : ℕ → List UInt8 → ℕ → UInt8) (es : List ChannelEvent) :
    ∃ f, run Flow.step (Flow.start (Channel.make data left right [] ())) es = some f ∧
      (watch (Channel.make data left right [inspect beyond] (Handler.init fd, 0)) es =
          watch (Channel.make data left right [] ()) es ↔
        ∀ p ∈ (parse false f.received).frames, p.Accepted) := by
  obtain ⟨f, more, hrun, hreceived, hiff⟩ := watch_attach_iff beyond
    (f := Flow.start (Channel.make data left right [] ()))
    (Channel.sound_make data left right [] ()) rfl (h := Handler.init fd) rfl 0 es
  refine ⟨f, hrun, ?_⟩
  have hmore : f.received = more := hreceived
  rw [hmore]
  exact hiff

/-- A client whose first packet has no version. -/
def refusedEvent : ChannelEvent :=
  .left 5 Flags.in' (.success ⟨refusedStartup, Nat.le_of_ble_eq_true rfl⟩)
    fun offered => .success (Fin.last offered.length)

/-- Its channel without the handler. -/
def plainChannel : Channel Unit := .make (fun _ => 0) 5 6 [] ()

/-- Its channel with the handler. -/
def inspectedChannel : Channel (Handler × ℕ) :=
  .make (fun _ => 0) 5 6 [inspect fun _ _ _ => 0] (Handler.init 5, 0)

/-- **A packet that is withheld.**  Without the handler the four bytes are offered
to the server at once, with it they are not. -/
theorem refused_startup_withheld :
    (watch plainChannel [refusedEvent]).map (List.map Seen.offered) = some [some refusedStartup] ∧
      (watch inspectedChannel [refusedEvent]).map (List.map Seen.offered) = some [none] ∧
      watch inspectedChannel [refusedEvent] ≠ watch plainChannel [refusedEvent] := by
  have hplain : (watch plainChannel [refusedEvent]).map (List.map Seen.offered) =
      some [some refusedStartup] := by rfl
  have hinspected : (watch inspectedChannel [refusedEvent]).map (List.map Seen.offered) =
      some [none] := by
    obtain ⟨o, o', ho, ho', -, -, -, hloud⟩ := handle_attach (c := plainChannel)
      (Channel.sound_make _ 5 6 [] ()) rfl (inspect fun _ _ _ => 0) (Handler.init 5, 0) refusedEvent
    have hread : (plainChannel.handle refusedEvent).map Outcome.readCall =
        some (some (.success refusedStartup)) := by rfl
    rw [ho] at hread
    have hnext : nextPacket false (refusedStartup ++ []) = some (⟨0, .be, []⟩, true, []) := by
      decide
    have hrejects : Rejects false (refusedStartup ++ []) [] false refusedStartup [] :=
      .here hnext fun hok => hok (fun _ => 0) (.std "startup message bad length") rfl
    have hthrown :
        (called (inspect fun _ _ _ => 0) (Handler.init 5, 0) o.readCall).thrown ≠ none := by
      rw [Option.some.inj hread]
      exact thrown_of_rejects (h := Handler.init 5) hrejects _
    have hhandle : inspectedChannel.handle refusedEvent = some o' := ho'
    rw [watch, hhandle, Option.bind_some, watch, Option.map_some, Option.map_some, List.map_cons,
      seen, (hloud hthrown).1]
    rfl
  refine ⟨hplain, hinspected, fun heq => ?_⟩
  rw [heq, hplain] at hinspected
  cases hinspected

end Psql
end PsqlTcpProxy
