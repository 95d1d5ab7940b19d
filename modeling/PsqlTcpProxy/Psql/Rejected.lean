import PsqlTcpProxy.Psql.Parser
import PsqlTcpProxy.Psql.Payload

/-!
# Packets that are refused

`make_message` throws for a startup packet without a version and for a query
without even its final NUL.  The exception leaves `operator()` from the middle of
a loop, and the two branches have updated their state at different points: the
branch for an empty buffer has copied nothing yet, so the whole rest of the chunk
is lost; the other branch still has the refused packet at the front of `_buffer`,
so every later call refuses it again.

`Rejects` says, in terms of the reference parser, which packet is the first that is refused
and what is behind it.  `parseChunk_rejects` and `parseBuffer_rejects` say what
either branch leaves behind; they never agree.
-/

namespace PsqlTcpProxy
namespace Psql

open Library Io

/-! ## The first refused packet -/

/-- In a stream, read with `first` as `_first_msg_handled`, the first packet that
`make_message` refuses is `packet`; `passed` are the packets before it, `before` is
the flag when it is reached and `rest` are the bytes behind it. -/
inductive Rejects : (first : Bool) → (stream : List UInt8) → (passed : List Packet) →
    (before : Bool) → (packet rest : List UInt8) → Prop
  | here {first : Bool} {p : Packet} {t : Bool} {packet rest : List UInt8}
      (next : nextPacket first (packet ++ rest) = some (p, t, rest)) (refused : ¬ p.Accepted) :
      Rejects first (packet ++ rest) [] first packet rest
  | later {first before t : Bool} {p : Packet} {passed : List Packet}
      {stream stream' packet rest : List UInt8}
      (next : nextPacket first stream = some (p, t, stream')) (accepted : p.Accepted)
      (behind : Rejects t stream' passed before packet rest) :
      Rejects first stream (p :: passed) before packet rest

/-- Which packets are refused. -/
theorem Packet.refused {p : Packet} (hlen : p.payload.length < 2 ^ 32) (h : ¬ p.Accepted) :
    p.code = StartupMessage.MESSAGE_CODE ∧ p.payload.length < 4 ∨
      p.code = Query.MESSAGE_CODE ∧ p.payload = [] := by
  by_contra hno
  rw [not_or, not_and, not_and, Nat.not_lt] at hno
  exact h (Packet.accepted_of hlen hno.1 hno.2)

/-- A refused packet is refused with one exception, whatever is behind it. -/
theorem Packet.make_of_refused {p : Packet} (hlen : p.payload.length < 2 ^ 32)
    (h : ¬ p.Accepted) : ∃ err, ∀ beyond, p.make beyond = .error err := by
  obtain ⟨code, endianness, payload⟩ := p
  rcases Packet.refused hlen h with ⟨hcode, hshort⟩ | ⟨hcode, hnil⟩
  · obtain rfl : code = StartupMessage.MESSAGE_CODE := hcode
    refine ⟨.std "startup message bad length", fun beyond => ?_⟩
    rw [Packet.make, makeMessage_startup, makeStartupMsg_short hshort]
    rfl
  · obtain rfl : code = Query.MESSAGE_CODE := hcode
    obtain rfl : payload = [] := hnil
    refine ⟨.std "basic_string::_M_create", fun beyond => ?_⟩
    rw [Packet.make, makeMessage_query, List.length_nil, makeQueryMsg_zero]
    rfl

/-- The exception of a refused packet, made where the packet lies. -/
theorem make_header_refused {p : Packet} (hlen : p.payload.length < 2 ^ 32) (h : ¬ p.Accepted)
    (rest : List UInt8) : ∃ err, ∀ beyond,
      makeMessage (p.header rest).msgCode (memory beyond (p.header rest).pos)
        (p.header rest).payloadLength (p.header rest).endianness = .error err := by
  obtain ⟨err, herr⟩ := Packet.make_of_refused hlen h
  refine ⟨err, fun beyond => ?_⟩
  rw [← herr (blit (beyond (p.payload ++ rest)) (0 + p.payload.length) rest)]
  exact congrArg (fun m => makeMessage p.code m p.payload.length p.endianness)
    (memory_append beyond p.payload rest)

theorem Rejects.packet_ne_nil {first before : Bool} {passed : List Packet}
    {stream packet rest : List UInt8}
    (h : Rejects first stream passed before packet rest) : packet ≠ [] := by
  induction h with
  | here next refused =>
    rintro rfl
    obtain ⟨taken, hne, heq⟩ := packetFramer.takes next
    exact hne (List.append_left_eq_self.mp heq.symm)
  | later next accepted behind ih => exact ih

/-! ## What the branches leave behind -/

section

variable {first before : Bool} {passed : List Packet} {stream packet rest : List UInt8}

/-- **The branch for an empty buffer forgets the packet and all that is behind
it.** -/
theorem parseChunk_rejects (h : Rejects first stream passed before packet rest) :
    ∃ err, ∀ beyond fd,
      Handler.parseChunk beyond ⟨[], first, fd⟩ stream =
        ⟨⟨[], before, fd⟩, passed.flatMap (Packet.effects fd), some err⟩ := by
  induction h with
  | @here first p t packet rest next refused =>
    obtain ⟨err, hmake⟩ := make_header_refused (nextPacket_payload_lt next) refused rest
    refine ⟨err, fun beyond fd => ?_⟩
    have hhd := readHeader_of_next beyond next
    rw [Handler.parseChunk_of_error (h := ⟨[], first, fd⟩) hhd (hmake beyond)]
    rfl
  | @later first before t p passed stream stream' packet rest next accepted behind ih =>
    obtain ⟨err, hrest⟩ := ih
    refine ⟨err, fun beyond fd => ?_⟩
    obtain rfl := nextPacket_state next
    obtain ⟨msg, hmake, heffects⟩ :=
      make_header accepted beyond stream' (nextPacket_payload_lt next) fd
    have hhd := readHeader_of_next beyond next
    rw [Handler.parseChunk_of_some (h := ⟨[], first, fd⟩) hhd hmake, p.drop_header, heffects,
      hrest]
    rfl

/-- **The branch for a non-empty buffer keeps the packet at the front.** -/
theorem parseBuffer_rejects (h : Rejects first stream passed before packet rest) :
    ∃ err, ∀ beyond fd,
      Handler.parseBuffer beyond ⟨stream, first, fd⟩ =
        ⟨⟨packet ++ rest, before, fd⟩, passed.flatMap (Packet.effects fd), some err⟩ := by
  induction h with
  | @here first p t packet rest next refused =>
    obtain ⟨err, hmake⟩ := make_header_refused (nextPacket_payload_lt next) refused rest
    refine ⟨err, fun beyond fd => ?_⟩
    have hhd := readHeader_of_next beyond next
    rw [Handler.parseBuffer_of_error (h := ⟨packet ++ rest, first, fd⟩) hhd (hmake beyond)]
    rfl
  | @later first before t p passed stream stream' packet rest next accepted behind ih =>
    obtain ⟨err, hrest⟩ := ih
    refine ⟨err, fun beyond fd => ?_⟩
    obtain rfl := nextPacket_state next
    obtain ⟨msg, hmake, heffects⟩ :=
      make_header accepted beyond stream' (nextPacket_payload_lt next) fd
    have hhd := readHeader_of_next beyond next
    rw [Handler.parseBuffer_of_some (h := ⟨stream, first, fd⟩) hhd hmake, heffects]
    simp only [p.drop_header]
    rw [hrest]
    rfl

/-- A stream has a first refused packet, or none is refused. -/
theorem rejects_or_accepted (first : Bool) (stream : List UInt8) :
    (∃ passed before packet rest, Rejects first stream passed before packet rest) ∨
      ∀ p ∈ (parse first stream).frames, p.Accepted := by
  induction first, stream using packet_induction with
  | stuck first stream next =>
    right
    rw [parse_of_none next]
    exact fun p hp => absurd hp List.not_mem_nil
  | packet first stream p t rest next ih =>
    by_cases hok : p.Accepted
    · rcases ih with ⟨passed, before, packet, rest', h⟩ | h
      · exact Or.inl ⟨p :: passed, before, packet, rest', .later next hok h⟩
      · right
        rw [parse_of_some next]
        exact List.forall_mem_cons.mpr ⟨hok, h⟩
    · obtain ⟨packet, -, rfl⟩ := packetFramer.takes next
      exact Or.inl ⟨[], first, packet, rest, .here next hok⟩

end

/-! ## Recovery -/

/-- What is asked of a call that throws with the bytes `pending` before it: both
branches leave the same state behind, and that state goes on at the byte behind
the refused packet. -/
def Recovers (beyond : List UInt8 → ℕ → UInt8) (h : Handler) (pending : List UInt8) : Prop :=
  let chunk := Handler.parseChunk beyond { h with buffer := [] } pending
  let buffered := Handler.parseBuffer beyond { h with buffer := pending }
  chunk.handler = buffered.handler ∧
    ∀ passed before packet rest, Rejects h.firstMsgHandled pending passed before packet rest →
      chunk.handler = { h with buffer := rest, firstMsgHandled := true }

/-- A call that throws has met a refused packet. -/
theorem rejects_of_thrown {beyond : List UInt8 → ℕ → UInt8} {h : Handler} {chunk : List UInt8}
    (hthrown : (h.call beyond (.success chunk)).thrown ≠ none) :
    ∃ passed before packet rest,
      Rejects h.firstMsgHandled (h.buffer ++ chunk) passed before packet rest := by
  rcases rejects_or_accepted h.firstMsgHandled (h.buffer ++ chunk) with hrejects | hok
  · exact hrejects
  · rw [call_success_eq hok] at hthrown
    exact absurd rfl hthrown

/-- What a call leaves behind that meets a refused packet, in either branch. -/
theorem call_rejects {h : Handler} {chunk packet rest : List UInt8} {passed : List Packet}
    {before : Bool}
    (hrejects : Rejects h.firstMsgHandled (h.buffer ++ chunk) passed before packet rest)
    (beyond : List UInt8 → ℕ → UInt8) :
    ∃ err, h.call beyond (.success chunk) =
      ⟨⟨if h.buffer = [] then [] else packet ++ rest, before, h.fd⟩,
        passed.flatMap (Packet.effects h.fd), some err⟩ := by
  obtain ⟨err, hchunk⟩ := parseChunk_rejects hrejects
  obtain ⟨err', hbuffer⟩ := parseBuffer_rejects hrejects
  obtain ⟨buffer, first, fd⟩ := h
  simp only [Handler.call]
  split
  · rename_i hnil
    cases hnil
    exact ⟨err, hchunk beyond fd⟩
  · exact ⟨err', hbuffer beyond fd⟩

theorem thrown_of_rejects {h : Handler} {chunk packet rest : List UInt8} {passed : List Packet}
    {before : Bool}
    (hrejects : Rejects h.firstMsgHandled (h.buffer ++ chunk) passed before packet rest)
    (beyond : List UInt8 → ℕ → UInt8) : (h.call beyond (.success chunk)).thrown ≠ none := by
  obtain ⟨err, hcall⟩ := call_rejects hrejects beyond
  rw [hcall]
  exact Option.some_ne_none err

/-- **A refused packet always corrupts the parser.**  Whenever `make_message`
throws in a call, in whatever state and for whatever chunk, the state that is left
behind depends on the branch. -/
theorem rejected_packet_corrupts (beyond : List UInt8 → ℕ → UInt8) (h : Handler)
    (chunk : List UInt8) (hthrown : (h.call beyond (.success chunk)).thrown ≠ none) :
    ¬ Recovers beyond h (h.buffer ++ chunk) := by
  obtain ⟨passed, before, packet, rest, hrejects⟩ := rejects_of_thrown hthrown
  obtain ⟨_, hchunk⟩ := parseChunk_rejects hrejects
  obtain ⟨_, hbuffer⟩ := parseBuffer_rejects hrejects
  rintro ⟨hsame, -⟩
  obtain ⟨buffer, first, fd⟩ := h
  rw [hchunk beyond fd, hbuffer beyond fd] at hsame
  have hnil := List.append_eq_nil_iff.mp (congrArg Handler.buffer hsame).symm
  exact hrejects.packet_ne_nil hnil.1

/-- A first packet of length 4 has no version; a query is behind it. -/
def refusedStartup : List UInt8 := [0, 0, 0, 4]

/-- The query `a`. -/
def queryBehind : List UInt8 := [81, 0, 0, 0, 6, 97, 0]

theorem rejects_refusedStartup :
    Rejects false (refusedStartup ++ queryBehind) [] false refusedStartup queryBehind := by
  have hnext : nextPacket false (refusedStartup ++ queryBehind) =
      some (⟨0, .be, []⟩, true, queryBehind) := by decide
  refine .here hnext fun hok => ?_
  exact hok (fun _ => 0) (.std "startup message bad length") rfl

theorem rejected_packet_corrupts_startup :
    ¬ Recovers (fun _ _ => 0) (Handler.init 7) (refusedStartup ++ queryBehind) :=
  rejected_packet_corrupts (fun _ _ => 0) (Handler.init 7) (refusedStartup ++ queryBehind)
    (thrown_of_rejects (h := Handler.init 7) rejects_refusedStartup _)

/-- **A packet that corrupts the parser.**  Read in one chunk, the packet is
forgotten together with the query behind it; read behind its own first byte, both
stay in the buffer. -/
theorem refused_startup_diverges :
    ¬ (∀ (beyond : List UInt8 → ℕ → UInt8) (h : Handler) (chunk : List UInt8),
        (h.call beyond (.success chunk)).thrown ≠ none → Recovers beyond h (h.buffer ++ chunk)) ∧
      ((Handler.init 7).run [⟨fun _ _ => 0, .success (refusedStartup ++ queryBehind)⟩]).handler =
        ⟨[], false, 7⟩ ∧
      ((Handler.init 7).run [⟨fun _ _ => 0, .success (refusedStartup.take 1)⟩,
        ⟨fun _ _ => 0, .success (refusedStartup.drop 1 ++ queryBehind)⟩]).handler =
          ⟨refusedStartup ++ queryBehind, false, 7⟩ := by
  obtain ⟨err, hchunk⟩ := parseChunk_rejects rejects_refusedStartup
  obtain ⟨err', hbuffer⟩ := parseBuffer_rejects rejects_refusedStartup
  have hfirst : ((Handler.init 7).call (fun _ _ => 0) (.success (refusedStartup.take 1))).handler =
      ⟨[0], false, 7⟩ := by
    show (Handler.parseChunk (fun _ _ => 0) ⟨[], false, 7⟩ [0]).handler = _
    rw [Handler.parseChunk_of_none (List.cons_ne_nil _ _) rfl]
  refine ⟨fun h => ?_, ?_, ?_⟩
  · have hrecovers := h (fun _ _ => 0) (Handler.init 7) (refusedStartup ++ queryBehind)
      (thrown_of_rejects (h := Handler.init 7) rejects_refusedStartup _)
    have hleft : (Handler.parseChunk (fun _ _ => 0) ⟨[], false, 7⟩
      (refusedStartup ++ queryBehind)).handler = _ := congrArg Handled.handler (hchunk _ 7)
    have hright : (Handler.parseBuffer (fun _ _ => 0)
      ⟨refusedStartup ++ queryBehind, false, 7⟩).handler = _ :=
        congrArg Handled.handler (hbuffer _ 7)
    have hbuffers := congrArg Handler.buffer (hleft.symm.trans (hrecovers.1.trans hright))
    exact List.cons_ne_nil _ _ hbuffers.symm
  · exact congrArg Handled.handler (hchunk (fun _ _ => 0) 7)
  · show (((Handler.init 7).call (fun _ _ => 0) (.success (refusedStartup.take 1))).handler.call
      (fun _ _ => 0) (.success (refusedStartup.drop 1 ++ queryBehind))).handler = _
    rw [hfirst]
    exact congrArg Handled.handler (hbuffer (fun _ _ => 0) 7)

/-! ## Afterwards -/

/-- With a refused packet at the front of the buffer, every call throws, does
nothing and keeps the packet. -/
theorem run_front_refused {before t : Bool} {p : Packet} {packet rest : List UInt8}
    (hnext : nextPacket before (packet ++ rest) = some (p, t, rest)) (hrefused : ¬ p.Accepted)
    (beyond : List UInt8 → ℕ → UInt8) (fd : FileDescriptor) (chunks : List (List UInt8)) :
    let r := Handler.run ⟨packet ++ rest, before, fd⟩
      (chunks.map fun chunk => ⟨beyond, .success chunk⟩)
    r.handler = ⟨packet ++ (rest ++ chunks.flatten), before, fd⟩ ∧ r.effects = [] ∧
      r.thrown.length = chunks.length := by
  induction chunks generalizing rest with
  | nil =>
    rw [List.flatten_nil, List.append_nil]
    exact ⟨rfl, rfl, rfl⟩
  | cons chunk chunks ih =>
    have hnext' := packetFramer.append hnext chunk
    rw [List.append_assoc] at hnext'
    obtain ⟨err, hmake⟩ :=
      make_header_refused (nextPacket_payload_lt hnext) hrefused (rest ++ chunk)
    have hhd := readHeader_of_next beyond hnext'
    have hne : packet ++ rest ≠ [] :=
      List.append_ne_nil_of_left_ne_nil (Rejects.here hnext hrefused).packet_ne_nil rest
    have hcall : Handler.call beyond ⟨packet ++ rest, before, fd⟩ (.success chunk) =
        { handler := ⟨packet ++ (rest ++ chunk), before, fd⟩, thrown := some err } := by
      rw [Handler.call, if_neg hne]
      simp only [List.append_assoc]
      exact Handler.parseBuffer_of_error (h := ⟨packet ++ (rest ++ chunk), before, fd⟩) hhd
        (hmake beyond)
    obtain ⟨hleft, heffects, hthrown⟩ := ih hnext'
    rw [List.map_cons, Handler.run, hcall]
    refine ⟨?_, ?_, ?_⟩
    · rw [hleft, List.flatten_cons, List.append_assoc]
    · exact heffects
    · rw [Option.toList_some, List.singleton_append, List.length_cons, hthrown, List.length_cons]

/-- **A packet in the buffer is refused for ever.**  Once the branch for a
non-empty buffer has met a refused packet, every further call throws again and
nothing that the client sends is acted on. -/
theorem refused_again {first before : Bool} {passed : List Packet}
    {stream packet rest : List UInt8}
    (h : Rejects first stream passed before packet rest) (beyond : List UInt8 → ℕ → UInt8)
    (fd : FileDescriptor) (chunks : List (List UInt8)) :
    let r := (Handler.parseBuffer beyond ⟨stream, first, fd⟩).handler.run
      (chunks.map fun chunk => ⟨beyond, .success chunk⟩)
    r.handler = ⟨packet ++ (rest ++ chunks.flatten), before, fd⟩ ∧ r.effects = [] ∧
      r.thrown.length = chunks.length := by
  obtain ⟨_, hleft⟩ := parseBuffer_rejects h
  rw [hleft beyond fd]
  clear hleft
  induction h with
  | here next refused => exact run_front_refused next refused beyond fd chunks
  | later next accepted behind ih => exact ih

end Psql
end PsqlTcpProxy
