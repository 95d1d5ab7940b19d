import PsqlTcpProxy.Psql.Parser

/-!
# The stream of a conforming client

A client sends its length fields in network order.  The handler does not know
that: for every packet it compares the two readings of the length field and takes
the smaller one, because a request "should not be too big".  `decodeLength_eq_iff`
says when the guess is right: when the length is not above its own byte reversal,
which holds of every length below 65536 and fails at 65536.

`client_stream_decoded` is the result: a conforming stream all of whose lengths
are guessed right is decoded, however it is cut.  `oversized_query_truncated` is
the shortest kind of query that is not.
-/

namespace PsqlTcpProxy
namespace Psql

open Library Io

/-! ## The guess -/

/-- A number below `2 ^ 32` in network order. -/
def encodeUint32Be (n : ℕ) : List UInt8 :=
  [UInt8.ofNat (n / 2 ^ 24), UInt8.ofNat (n / 2 ^ 16), UInt8.ofNat (n / 2 ^ 8), UInt8.ofNat n]

/-- The number whose bytes are those of `n` in reverse. -/
def byteSwap (n : ℕ) : ℕ :=
  uint32Of (UInt8.ofNat n) (UInt8.ofNat (n / 2 ^ 8)) (UInt8.ofNat (n / 2 ^ 16))
    (UInt8.ofNat (n / 2 ^ 24))

/-- The length field of a packet of length `n`. -/
def lengthField (n : ℕ) : ℕ → UInt8 :=
  word (UInt8.ofNat (n / 2 ^ 24)) (UInt8.ofNat (n / 2 ^ 16)) (UInt8.ofNat (n / 2 ^ 8))
    (UInt8.ofNat n)

theorem decodeUint32Be_lengthField {n : ℕ} (h : n < 2 ^ 32) :
    (decodeUint32Be (lengthField n)).toNat = n := by
  rw [decodeUint32Be_toNat]
  show uint32Of (UInt8.ofNat (n / 2 ^ 24)) (UInt8.ofNat (n / 2 ^ 16)) (UInt8.ofNat (n / 2 ^ 8))
    (UInt8.ofNat n) = n
  simp only [uint32Of, UInt8.toNat_ofNat']
  omega

theorem decodeUint32Le_lengthField (n : ℕ) :
    (decodeUint32Le (lengthField n)).toNat = byteSwap n := decodeUint32Le_toNat _

/-- What the handler takes a length field for. -/
def decodeLength (n : ℕ) : ℕ :=
  (decodeUint32 (lengthField n) (checkEndiannessByUint32 (lengthField n))).toNat

/-- The handler takes the smaller of the two readings. -/
theorem decodeLength_eq_min {n : ℕ} (h : n < 2 ^ 32) : decodeLength n = min (byteSwap n) n := by
  have hbe := decodeUint32Be_lengthField h
  have hle := decodeUint32Le_lengthField n
  unfold decodeLength checkEndiannessByUint32 decodeUint32
  generalize decodeUint32Be (lengthField n) = be at hbe ⊢
  generalize decodeUint32Le (lengthField n) = le at hle ⊢
  by_cases hcmp : le ≤ be
  · have hnat := UInt32.le_iff_toNat_le.mp hcmp
    simp only [if_pos hcmp, if_true]
    omega
  · have hnat := UInt32.lt_iff_toNat_lt.mp (UInt32.not_le.mp hcmp)
    simp only [if_neg hcmp, reduceCtorEq, if_false]
    omega

/-- **When the guess is right.** -/
theorem decodeLength_eq_iff {n : ℕ} (h : n < 2 ^ 32) : decodeLength n = n ↔ n ≤ byteSwap n := by
  rw [decodeLength_eq_min h]
  omega

/-- The guess is right for every length below 65536. -/
theorem le_byteSwap {n : ℕ} (h : n < 2 ^ 16) : n ≤ byteSwap n := by
  have h₁ : n / 2 ^ 8 % 2 ^ 8 = n / 2 ^ 8 := Nat.mod_eq_of_lt (by omega)
  have h₂ : n / 2 ^ 16 % 2 ^ 8 = 0 := by omega
  have h₃ : n / 2 ^ 24 % 2 ^ 8 = 0 := by omega
  simp only [byteSwap, uint32Of, UInt8.toNat_ofNat', h₁, h₂, h₃]
  omega

/-! ## Conforming streams -/

/-- A packet with a type byte. -/
inductive FrontendPacket where
  /-- A query: a text without a NUL, and one NUL. -/
  | query (text : Text) (nulFree : 0 ∉ text) (length_lt : 4 + (text.length + 1) < 2 ^ 32)
  /-- A packet of any other type. -/
  | other (code : UInt8) (payload : List UInt8) (ne_zero : code ≠ 0)
      (ne_query : code ≠ Query.MESSAGE_CODE) (length_lt : 4 + payload.length < 2 ^ 32)

namespace FrontendPacket

/-- The type byte. -/
def code : FrontendPacket → UInt8
  | query .. => Query.MESSAGE_CODE
  | other code .. => code

/-- The payload. -/
def payload : FrontendPacket → List UInt8
  | query text .. => text ++ [0]
  | other _ payload .. => payload

/-- The value of the length field. -/
def length (p : FrontendPacket) : ℕ := 4 + p.payload.length

/-- The bytes on the wire. -/
def encode (p : FrontendPacket) : List UInt8 := p.code :: (encodeUint32Be p.length ++ p.payload)

/-- What the packet asks of the proxy. -/
def requests (fd : FileDescriptor) : FrontendPacket → List Effect
  | query text .. => [.addMessage text]
  | other code .. => if code = Terminate.MESSAGE_CODE then [.enqueueEvent ⟨fd, Flags.error⟩] else []

theorem length_lt (p : FrontendPacket) : p.length < 2 ^ 32 := by
  cases p with
  | query text _ h => simpa [length, payload] using h
  | other _ _ _ _ h => exact h

end FrontendPacket

/-- What a client sends: a startup packet, then packets with type bytes. -/
structure ClientStream where
  /-- The payload of the startup packet, beginning with the protocol version. -/
  startup : List UInt8
  startup_version : 4 ≤ startup.length
  startup_lt : 4 + startup.length < 2 ^ 32
  packets : List FrontendPacket

namespace ClientStream

/-- The bytes on the wire. -/
def encode (s : ClientStream) : List UInt8 :=
  encodeUint32Be (4 + s.startup.length) ++ s.startup ++ s.packets.flatMap FrontendPacket.encode

/-- What the stream asks of the proxy. -/
def requests (s : ClientStream) (fd : FileDescriptor) : List Effect :=
  s.packets.flatMap (FrontendPacket.requests fd)

/-- No length is above its own byte reversal. -/
structure LengthsReadable (s : ClientStream) : Prop where
  startup : 4 + s.startup.length ≤ byteSwap (4 + s.startup.length)
  packets : ∀ p ∈ s.packets, p.length ≤ byteSwap p.length

end ClientStream

/-- A length field that is read right cuts the payload that was sent. -/
theorem cutPayload_lengthField (code : UInt8) {payload : List UInt8}
    (hlt : 4 + payload.length < 2 ^ 32)
    (hread : 4 + payload.length ≤ byteSwap (4 + payload.length)) (rest : List UInt8) :
    ∃ endianness, cutPayload code (lengthField (4 + payload.length)) (payload ++ rest) =
      some (⟨code, endianness, payload⟩, true, rest) := by
  have hlen : (decodeUint32 (lengthField (4 + payload.length))
      (checkEndiannessByUint32 (lengthField (4 + payload.length)))).toNat = 4 + payload.length :=
    (decodeLength_eq_iff hlt).mpr hread
  refine ⟨checkEndiannessByUint32 (lengthField (4 + payload.length)), ?_⟩
  simp only [cutPayload, hlen, Nat.add_sub_cancel_left]
  rw [if_pos ⟨Nat.le_add_right _ _, by rw [List.length_append]; omega⟩, List.take_left,
    List.drop_left]

/-- **A conforming packet is parsed**, and asks for what it should. -/
theorem nextPacket_encode {p : FrontendPacket} (hread : p.length ≤ byteSwap p.length)
    (rest : List UInt8) :
    ∃ q, nextPacket true (p.encode ++ rest) = some (q, true, rest) ∧ q.Accepted ∧
      ∀ fd, q.effects fd = p.requests fd := by
  obtain ⟨endianness, hcut⟩ := cutPayload_lengthField p.code p.length_lt hread rest
  have hlen : p.payload.length < 2 ^ 32 := Nat.lt_of_le_of_lt (Nat.le_add_left _ 4) p.length_lt
  refine ⟨⟨p.code, endianness, p.payload⟩, ?_, ?_, ?_⟩
  · rw [FrontendPacket.encode, List.cons_append, List.append_assoc]
    exact hcut
  · cases p with
    | query text _ _ =>
      have hcode : Query.MESSAGE_CODE ≠ StartupMessage.MESSAGE_CODE := by decide
      exact Packet.accepted_of hlen (fun h => absurd h hcode)
        fun _ => List.append_ne_nil_of_right_ne_nil text (List.cons_ne_nil 0 [])
    | other code payload hzero hquery _ =>
      exact Packet.accepted_of hlen (fun h => absurd h hzero) fun h => absurd h hquery
  · intro fd
    cases p with
    | query text _ _ =>
      refine (if_pos rfl).trans ?_
      rw [FrontendPacket.payload, List.dropLast_concat]
      rfl
    | other code payload hzero hquery _ =>
      exact if_neg hquery

/-- The packets behind the startup packet. -/
theorem parse_packets {ps : List FrontendPacket} (hread : ∀ p ∈ ps, p.length ≤ byteSwap p.length) :
    ∃ frames, parse true (ps.flatMap FrontendPacket.encode) = ⟨frames, true, []⟩ ∧
      (∀ q ∈ frames, q.Accepted) ∧
      ∀ fd, frames.flatMap (Packet.effects fd) = ps.flatMap (FrontendPacket.requests fd) := by
  induction ps with
  | nil => exact ⟨[], parse_of_none rfl, by simp, fun _ => rfl⟩
  | cons p ps ih =>
    obtain ⟨frames, hframes, hok, heffects⟩ := ih fun q hq => hread q (List.mem_cons_of_mem p hq)
    obtain ⟨q, hnext, hq, hqe⟩ :=
      nextPacket_encode (hread p List.mem_cons_self) (ps.flatMap FrontendPacket.encode)
    refine ⟨q :: frames, ?_, ?_, fun fd => ?_⟩
    · rw [List.flatMap_cons, parse_of_some hnext, hframes]
    · exact List.forall_mem_cons.mpr ⟨hq, hok⟩
    · rw [List.flatMap_cons, List.flatMap_cons, hqe, heffects]

/-- **A conforming stream is decoded** when its lengths are guessed right: every
query is logged once, in order, with exactly its text, every Terminate packet
enqueues one error event, the other packets do nothing, and nothing is left
over. -/
theorem client_stream_decoded (fd : FileDescriptor) (s : ClientStream) (hread : s.LengthsReadable)
    (calls : List HandlerCall) (hcut : streamOf calls = s.encode) :
    ((Handler.init fd).run calls).effects = s.requests fd ∧
      ((Handler.init fd).run calls).thrown = [] ∧
      ((Handler.init fd).run calls).handler = ⟨[], true, fd⟩ := by
  obtain ⟨frames, hframes, hok, heffects⟩ := parse_packets hread.packets
  obtain ⟨endianness, hstartup⟩ := cutPayload_lengthField 0 s.startup_lt hread.startup
    (s.packets.flatMap FrontendPacket.encode)
  have hnext : nextPacket false s.encode =
      some (⟨0, endianness, s.startup⟩, true, s.packets.flatMap FrontendPacket.encode) := by
    rw [ClientStream.encode, List.append_assoc]
    exact hstartup
  have hparse := parse_of_some hnext
  rw [hframes, ← hcut] at hparse
  have hstartup_lt : s.startup.length < 2 ^ 32 :=
    Nat.lt_of_le_of_lt (Nat.le_add_left _ 4) s.startup_lt
  have hrun := run_eq (h := Handler.init fd) rfl calls <| by
    show ∀ p ∈ (parse false (streamOf calls)).frames, p.Accepted
    rw [hparse]
    have hcode : StartupMessage.MESSAGE_CODE ≠ Query.MESSAGE_CODE := by decide
    exact List.forall_mem_cons.mpr
      ⟨Packet.accepted_of hstartup_lt (fun _ => s.startup_version) fun h => absurd h hcode, hok⟩
  rw [hrun]
  refine ⟨?_, rfl, ?_⟩
  · show (parse false (streamOf calls)).frames.flatMap (Packet.effects fd) = s.requests fd
    rw [hparse, List.flatMap_cons, heffects]
    rfl
  · show (⟨(parse false (streamOf calls)).rest, (parse false (streamOf calls)).state, fd⟩ : Handler)
      = _
    rw [hparse]

/-- A client that asks one thing and leaves. -/
def shortSession : ClientStream where
  startup := [0, 3, 0, 0]
  startup_version := by decide
  startup_lt := by decide
  packets := [.query [97] (by decide) (by decide), .other 88 [] (by decide) (by decide) (by decide)]

theorem client_stream_decoded_short :
    ((Handler.init 7).run [⟨fun _ _ => 0, .success shortSession.encode⟩]).effects =
      [.addMessage [97], .enqueueEvent ⟨7, Flags.error⟩] :=
  (client_stream_decoded 7 shortSession
    ⟨le_byteSwap (by decide), fun p hp => by
      rcases List.mem_cons.mp hp with rfl | hp
      · exact le_byteSwap (by decide)
      · rw [List.mem_singleton.mp hp]
        exact le_byteSwap (by decide)⟩
    [⟨fun _ _ => 0, .success shortSession.encode⟩] (List.append_nil _)).1

/-! ## A query that is not decoded -/

theorem nul_not_mem_replicate (n : ℕ) : (0 : UInt8) ∉ List.replicate n 97 := fun h =>
  absurd (List.eq_of_mem_replicate h) (by decide)

/-- A query of 65531 letters. -/
def oversizedQuery : FrontendPacket :=
  .query (List.replicate 65531 97) (nul_not_mem_replicate _) (by rw [List.length_replicate]; decide)

/-- A client that sends it. -/
def oversizedSession : ClientStream where
  startup := [0, 3, 0, 0]
  startup_version := by decide
  startup_lt := by decide
  packets := [oversizedQuery]

theorem oversizedQuery_payload : oversizedQuery.payload = List.replicate 65531 97 ++ [0] := rfl

/-- Its packet has the length 65536. -/
theorem oversizedQuery_encode : oversizedQuery.encode =
    81 :: 0 :: 1 :: 0 :: 0 :: (List.replicate 65531 97 ++ [0]) := by
  have hfield : encodeUint32Be oversizedQuery.length = [0, 1, 0, 0] := by
    rw [FrontendPacket.length, oversizedQuery_payload, List.length_append, List.length_replicate]
    decide
  rw [FrontendPacket.encode, hfield, oversizedQuery_payload]
  rfl

/-- The length 65536 is read as 256. -/
theorem cutPayload_oversized {payload : List UInt8} (h : 252 ≤ payload.length) :
    cutPayload 81 (word 0 1 0 0) payload =
      some (⟨81, .le, payload.take 252⟩, true, payload.drop 252) := by
  have hguess : checkEndiannessByUint32 (word 0 1 0 0) = .le := by decide
  have hlen : (decodeUint32 (word 0 1 0 0) .le).toNat = 256 := by decide
  simp only [cutPayload, hguess, hlen]
  exact if_pos ⟨by decide, h⟩

/-- Letters are no packet: their length field is beyond them. -/
theorem nextPacket_letters {rest : List UInt8} (h : rest.length < 1633771869) :
    nextPacket true (List.replicate 5 97 ++ rest) = none := by
  have hlen : (decodeUint32 (word 97 97 97 97) (checkEndiannessByUint32 (word 97 97 97 97))).toNat =
      1633771873 := by decide
  show cutPayload 97 (word 97 97 97 97) rest = none
  simp only [cutPayload, hlen]
  exact if_neg (by omega)

/-- What the parser makes of the oversized query: 251 letters, then nothing. -/
theorem parse_oversized : ∃ endianness, parse false oversizedSession.encode =
    ⟨[⟨0, endianness, [0, 3, 0, 0]⟩, ⟨81, .le, List.replicate 252 97⟩], true,
      List.replicate 5 97 ++ (List.replicate 65274 97 ++ [0])⟩ := by
  have hletters : List.replicate 65531 (97 : UInt8) ++ [0] =
      List.replicate 252 97 ++ (List.replicate 5 97 ++ (List.replicate 65274 97 ++ [0])) := by
    rw [show 65531 = 252 + (5 + 65274) from rfl, List.replicate_add, List.replicate_add,
      List.append_assoc, List.append_assoc]
  have hlen : 252 ≤ (List.replicate 65531 (97 : UInt8) ++ [0]).length := by
    rw [List.length_append, List.length_replicate]
    decide
  have hencode : oversizedSession.packets.flatMap FrontendPacket.encode =
      81 :: 0 :: 1 :: 0 :: 0 :: (List.replicate 65531 97 ++ [0]) := by
    rw [show oversizedSession.packets = [oversizedQuery] from rfl, List.flatMap_singleton,
      oversizedQuery_encode]
  obtain ⟨endianness, hstartup⟩ := cutPayload_lengthField 0 oversizedSession.startup_lt
    (le_byteSwap (by decide)) (oversizedSession.packets.flatMap FrontendPacket.encode)
  have hfirst : nextPacket false oversizedSession.encode =
    some (⟨0, endianness, [0, 3, 0, 0]⟩, true,
      81 :: 0 :: 1 :: 0 :: 0 :: (List.replicate 65531 97 ++ [0])) := by
    rw [hencode] at hstartup
    rw [ClientStream.encode, List.append_assoc, hencode]
    exact hstartup
  have hsecond : nextPacket true (81 :: 0 :: 1 :: 0 :: 0 :: (List.replicate 65531 97 ++ [0]))
      = some (⟨81, .le, List.replicate 252 97⟩, true,
        List.replicate 5 97 ++ (List.replicate 65274 97 ++ [0])) := by
    refine (cutPayload_oversized hlen).trans ?_
    rw [hletters, List.take_left' List.length_replicate, List.drop_left' List.length_replicate]
  have hrest :
      nextPacket true (List.replicate 5 97 ++ (List.replicate 65274 97 ++ [0])) = none := by
    refine nextPacket_letters ?_
    rw [List.length_append, List.length_replicate]
    decide
  exact ⟨endianness, by rw [parse_of_some hfirst, parse_of_some hsecond, parse_of_none hrest]⟩

/-- **A conforming stream that is not decoded.**  Of the query only the first 251
letters are logged. -/
theorem oversized_query_truncated : ∃ calls, streamOf calls = oversizedSession.encode ∧
    ((Handler.init 7).run calls).effects = [.addMessage (List.replicate 251 97)] ∧
    ((Handler.init 7).run calls).effects ≠ oversizedSession.requests 7 := by
  let calls : List HandlerCall := [⟨fun _ _ => 0, .success oversizedSession.encode⟩]
  have hstream : streamOf calls = oversizedSession.encode := List.append_nil _
  obtain ⟨endianness, hparse⟩ := parse_oversized
  rw [← hstream] at hparse
  have hlogged : ((Handler.init 7).run calls).effects = [.addMessage (List.replicate 251 97)] := by
    have hrun := run_eq (h := Handler.init 7) rfl calls <| by
      show ∀ p ∈ (parse false (streamOf calls)).frames, p.Accepted
      rw [hparse]
      refine List.forall_mem_cons.mpr ⟨?_, List.forall_mem_cons.mpr ⟨?_, by simp⟩⟩
      · exact Packet.accepted_of (by decide : [0, 3, 0, 0].length < 2 ^ 32)
          (fun _ => (by decide : 4 ≤ [0, 3, 0, 0].length)) fun _ => List.cons_ne_nil _ _
      · exact Packet.accepted_of (by rw [List.length_replicate]; decide)
          (fun h => absurd (show (81 : UInt8) = 0 from h) (by decide)) fun _ => List.cons_ne_nil _ _
    have hquery : Packet.effects 7 ⟨81, .le, List.replicate 252 97⟩ =
        [.addMessage (List.replicate 251 97)] := by
      refine (if_pos rfl).trans ?_
      rw [List.dropLast_replicate]
    rw [hrun]
    show (parse false (streamOf calls)).frames.flatMap (Packet.effects 7) = _
    rw [hparse, List.flatMap_cons, List.flatMap_cons, hquery]
    rfl
  refine ⟨calls, hstream, hlogged, fun heq => ?_⟩
  rw [hlogged] at heq
  have htexts := Effect.addMessage.inj (List.cons.inj heq).1
  have hlengths := congrArg List.length htexts
  rw [List.length_replicate, List.length_replicate] at hlengths
  exact absurd hlengths (by decide)

end Psql
end PsqlTcpProxy
