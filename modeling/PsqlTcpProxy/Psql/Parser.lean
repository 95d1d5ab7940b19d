import PsqlTcpProxy.Library.Framing
import PsqlTcpProxy.Psql.Handler

/-!
# The packets of a stream

What the handler is for, said once: `parse` cuts a stream into packets.  The
first packet has no type byte, the others have one; four bytes give the length,
in the order `check_endianness_by_uint32` guesses from them; a length below 4
stops the parser for good.

`handler_run` is the refinement.  However the stream is cut into results, and
whichever of its two branches each result takes, the handler does what the
packets of the whole stream ask for, in order, and keeps the bytes behind the
last whole packet.  Both branches are compared with `parse`, never with each
other (`parseChunk_eq`, `parseBuffer_eq`).
-/

namespace PsqlTcpProxy
namespace Psql

open Library Io

/-! ## The reference parser -/

/-- A packet of the protocol. -/
structure Packet where
  /-- The type byte; 0 for the first packet, which has none. -/
  code : UInt8
  /-- The byte order its length was read in. -/
  endianness : Endianness
  payload : List UInt8
  deriving DecidableEq

/-- The memory that four bytes are. -/
def word (b₀ b₁ b₂ b₃ : UInt8) : ℕ → UInt8 := fun k => [b₀, b₁, b₂, b₃].getD k 0

/-- The packet with the given type byte and length field, if its payload is
there. -/
def cutPayload (code : UInt8) (lengthField : ℕ → UInt8) (rest : List UInt8) :
    Option (Packet × Bool × List UInt8) :=
  let endianness := checkEndiannessByUint32 lengthField
  let length := (decodeUint32 lengthField endianness).toNat
  if 4 ≤ length ∧ length - 4 ≤ rest.length then
    some (⟨code, endianness, rest.take (length - 4)⟩, true, rest.drop (length - 4))
  else none

/-- The packet at the front of a stream, whether a packet has been read after
it, and the bytes behind it. -/
def nextPacket : (firstMsgHandled : Bool) → List UInt8 → Option (Packet × Bool × List UInt8)
  | true, code :: b₀ :: b₁ :: b₂ :: b₃ :: rest => cutPayload code (word b₀ b₁ b₂ b₃) rest
  | false, b₀ :: b₁ :: b₂ :: b₃ :: rest => cutPayload 0 (word b₀ b₁ b₂ b₃) rest
  | _, _ => none

theorem cutPayload_eq_some {code : UInt8} {lengthField : ℕ → UInt8} {rest rest' : List UInt8}
    {p : Packet} {t : Bool} (h : cutPayload code lengthField rest = some (p, t, rest')) :
    4 ≤ (decodeUint32 lengthField (checkEndiannessByUint32 lengthField)).toNat ∧
      p.payload.length =
        (decodeUint32 lengthField (checkEndiannessByUint32 lengthField)).toNat - 4 ∧
      p.code = code ∧ p.endianness = checkEndiannessByUint32 lengthField ∧ t = true ∧
      rest = p.payload ++ rest' := by
  simp only [cutPayload, Option.ite_none_right_eq_some, Option.some.injEq, Prod.mk.injEq] at h
  obtain ⟨⟨hfour, hlen⟩, rfl, rfl, rfl⟩ := h
  exact ⟨hfour, List.length_take_of_le hlen, rfl, rfl, rfl, (List.take_append_drop _ _).symm⟩

theorem cutPayload_append {code : UInt8} {lengthField : ℕ → UInt8} {rest rest' : List UInt8}
    {p : Packet} {t : Bool} (h : cutPayload code lengthField rest = some (p, t, rest'))
    (ys : List UInt8) : cutPayload code lengthField (rest ++ ys) = some (p, t, rest' ++ ys) := by
  simp only [cutPayload, Option.ite_none_right_eq_some, Option.some.injEq, Prod.mk.injEq] at h ⊢
  obtain ⟨⟨hfour, hlen⟩, rfl, rfl, rfl⟩ := h
  refine ⟨⟨hfour, by rw [List.length_append]; omega⟩, ?_, rfl, ?_⟩
  · rw [List.take_append_of_le_length hlen]
  · rw [List.drop_append_of_le_length hlen]

/-- A packet is the type byte if there is one, the length field, and the
payload. -/
theorem nextPacket_eq_some {first : Bool} {xs rest : List UInt8} {p : Packet} {t : Bool}
    (h : nextPacket first xs = some (p, t, rest)) :
    ∃ b₀ b₁ b₂ b₃ tail,
      xs = (if first then [p.code] else []) ++ (b₀ :: b₁ :: b₂ :: b₃ :: tail) ∧
      (first = false → p.code = 0) ∧
      cutPayload p.code (word b₀ b₁ b₂ b₃) tail = some (p, t, rest) := by
  unfold nextPacket at h
  split at h
  · rename_i code b₀ b₁ b₂ b₃ tail
    obtain rfl : p.code = code := (cutPayload_eq_some h).2.2.1
    exact ⟨b₀, b₁, b₂, b₃, tail, rfl, by simp, h⟩
  · rename_i b₀ b₁ b₂ b₃ tail
    have hcode : p.code = 0 := (cutPayload_eq_some h).2.2.1
    exact ⟨b₀, b₁, b₂, b₃, tail, rfl, fun _ => hcode, by rw [hcode]; exact h⟩
  · cases h

/-- The packets of a stream as frames. -/
def packetFramer : Framer Bool UInt8 Packet where
  next := nextPacket
  takes := fun {first xs p t rest} h => by
    obtain ⟨b₀, b₁, b₂, b₃, tail, rfl, -, hcut⟩ := nextPacket_eq_some h
    obtain ⟨-, -, -, -, -, rfl⟩ := cutPayload_eq_some hcut
    exact ⟨(if first then [p.code] else []) ++ (b₀ :: b₁ :: b₂ :: b₃ :: p.payload), by simp,
      by simp⟩
  append := fun {first xs p t rest} h ys => by
    unfold nextPacket at h
    split at h
    · exact cutPayload_append h ys
    · exact cutPayload_append h ys
    · cases h

/-- The packets of a stream, and the bytes behind the last one. -/
def parse (firstMsgHandled : Bool) (stream : List UInt8) : Decoded Bool UInt8 Packet :=
  packetFramer.decode firstMsgHandled stream

theorem parse_of_none {first : Bool} {xs : List UInt8} (h : nextPacket first xs = none) :
    parse first xs = ⟨[], first, xs⟩ :=
  Framer.decode_of_none (F := packetFramer) h

theorem parse_of_some {first : Bool} {xs rest : List UInt8} {p : Packet} {t : Bool}
    (h : nextPacket first xs = some (p, t, rest)) :
    parse first xs = ⟨p :: (parse t rest).frames, (parse t rest).state, (parse t rest).rest⟩ :=
  Framer.decode_of_some (F := packetFramer) h

theorem parse_append (first : Bool) (xs ys : List UInt8) :
    parse first (xs ++ ys) =
      ⟨(parse first xs).frames ++
          (parse (parse first xs).state ((parse first xs).rest ++ ys)).frames,
        (parse (parse first xs).state ((parse first xs).rest ++ ys)).state,
        (parse (parse first xs).state ((parse first xs).rest ++ ys)).rest⟩ :=
  Framer.decode_append (F := packetFramer) first xs ys

/-- The parser has stopped: no packet is whole. -/
theorem nextPacket_rest (first : Bool) (xs : List UInt8) :
    nextPacket (parse first xs).state (parse first xs).rest = none :=
  Framer.next_rest (F := packetFramer) first xs

/-- Induction along the packets of a stream. -/
theorem packet_induction {P : Bool → List UInt8 → Prop}
    (stuck : ∀ first xs, nextPacket first xs = none → P first xs)
    (packet : ∀ first xs p t rest, nextPacket first xs = some (p, t, rest) → P t rest → P first xs)
    (first : Bool) (xs : List UInt8) : P first xs :=
  Framer.frame_induction (F := packetFramer) stuck packet first xs

namespace Packet

/-- `make_message` on a packet, in a memory that is `beyond` outside its payload. -/
def make (p : Packet) (beyond : ℕ → UInt8) : Except Exception (Option Message) :=
  makeMessage p.code (blit beyond 0 p.payload) p.payload.length p.endianness

/-- `make_message` does not throw for the packet. -/
def Accepted (p : Packet) : Prop := ∀ beyond err, p.make beyond ≠ .error err

/-- What a packet asks for. -/
def effects (fd : FileDescriptor) (p : Packet) : List Effect :=
  if p.code = Query.MESSAGE_CODE then [.addMessage p.payload.dropLast]
  else if p.code = Terminate.MESSAGE_CODE then [.enqueueEvent ⟨fd, Flags.error⟩]
  else []

end Packet

/-! ## The head of a packet -/

/-- The memory seen from a payload is the payload and something. -/
theorem memory_append (beyond : List UInt8 → ℕ → UInt8) (xs ys : List UInt8) :
    memory beyond (xs ++ ys) = blit (blit (beyond (xs ++ ys)) (0 + xs.length) ys) 0 xs :=
  blit_append _ _ _ _

theorem memory_word (beyond : List UInt8 → ℕ → UInt8) (b₀ b₁ b₂ b₃ : UInt8) (tail : List UInt8) :
    ∀ k < 4, memory beyond (b₀ :: b₁ :: b₂ :: b₃ :: tail) k = word b₀ b₁ b₂ b₃ k
  | 0, _ | 1, _ | 2, _ | 3, _ => rfl

theorem four_or_short (xs : List UInt8) :
    xs.length < 4 ∨ ∃ b₀ b₁ b₂ b₃ tail, xs = b₀ :: b₁ :: b₂ :: b₃ :: tail := by
  match xs with
  | [] | [_] | [_, _] | [_, _, _] => exact Or.inl (by simp)
  | b₀ :: b₁ :: b₂ :: b₃ :: tail => exact Or.inr ⟨b₀, b₁, b₂, b₃, tail, rfl⟩

/-- The head of a packet with `rest` behind it. -/
def Packet.header (p : Packet) (rest : List UInt8) : Header :=
  { msgCode := p.code, endianness := p.endianness, payloadLength := p.payload.length,
    pos := p.payload ++ rest }

/-- Given a type byte, if there is one, and a length field, the code cuts the
payload. -/
theorem readHeader_cut (beyond : List UInt8 → ℕ → UInt8) (first : Bool)
    (code b₀ b₁ b₂ b₃ : UInt8) (tail : List UInt8) :
    readHeader beyond first ((if first then [code] else []) ++ (b₀ :: b₁ :: b₂ :: b₃ :: tail)) =
      (cutPayload (if first then code else 0) (word b₀ b₁ b₂ b₃) tail).map
        fun q => q.1.header q.2.2 := by
  let bytes := (if first then [code] else []) ++ (b₀ :: b₁ :: b₂ :: b₃ :: tail)
  have hpos : (if first then bytes.tail else bytes) = b₀ :: b₁ :: b₂ :: b₃ :: tail := by
    cases first <;> rfl
  have hcode : (if first then bytes.headD 0 else 0) = if first then code else 0 := by
    cases first <;> rfl
  have hmem := memory_word beyond b₀ b₁ b₂ b₃ tail
  have hfour : ¬ (b₀ :: b₁ :: b₂ :: b₃ :: tail).length < 4 := by simp
  simp only [readHeader, bytes, hpos, hcode, checkEndianness_congr hmem, decodeUint32_congr hmem,
    if_neg hfour, List.drop_succ_cons, List.drop_zero, cutPayload]
  generalize (if first then code else 0) = msgCode
  generalize checkEndiannessByUint32 (word b₀ b₁ b₂ b₃) = endianness
  generalize decodeUint32 (word b₀ b₁ b₂ b₃) endianness = length
  by_cases hlt : length < 4
  · have hlt' : length.toNat < 4 := UInt32.lt_iff_toNat_lt.mp hlt
    rw [if_pos hlt, if_neg (by omega)]
    rfl
  · have hle : (4 : UInt32) ≤ length := UInt32.not_lt.mp hlt
    have hle' : 4 ≤ length.toNat := UInt32.le_iff_toNat_le.mp hle
    have hsub : (length - 4).toNat = length.toNat - 4 := UInt32.toNat_sub_of_le length 4 hle
    rw [if_neg hlt, hsub]
    by_cases hshort : tail.length < length.toNat - 4
    · rw [if_pos hshort, if_neg (by omega)]
      rfl
    · rw [if_neg hshort, if_pos (by omega), Option.map_some, Packet.header,
        List.length_take_of_le (Nat.not_lt.mp hshort), List.take_append_drop]

/-- Without a whole length field there is no packet. -/
theorem nextPacket_of_short {first : Bool} {bytes : List UInt8}
    (h : (if first then bytes.tail else bytes).length < 4) : nextPacket first bytes = none := by
  unfold nextPacket
  split
  · exact absurd h (by simp)
  · exact absurd h (by simp)
  · rfl

/-- **The code reads the head of the next packet.** -/
theorem readHeader_eq (beyond : List UInt8 → ℕ → UInt8) (first : Bool) (bytes : List UInt8) :
    readHeader beyond first bytes = (nextPacket first bytes).map fun q => q.1.header q.2.2 := by
  by_cases hshort : (if first then bytes.tail else bytes).length < 4
  · rw [nextPacket_of_short hshort]
    exact if_pos hshort
  · cases first with
    | false =>
      rcases four_or_short bytes with h | ⟨b₀, b₁, b₂, b₃, tail, rfl⟩
      · exact absurd h hshort
      · exact readHeader_cut beyond false 0 b₀ b₁ b₂ b₃ tail
    | true =>
      cases bytes with
      | nil => exact absurd (by decide) hshort
      | cons code bytes =>
        rcases four_or_short bytes with h | ⟨b₀, b₁, b₂, b₃, tail, rfl⟩
        · exact absurd h hshort
        · exact readHeader_cut beyond true code b₀ b₁ b₂ b₃ tail

/-- A whole packet in front. -/
theorem readHeader_of_next (beyond : List UInt8 → ℕ → UInt8) {first : Bool}
    {bytes rest : List UInt8} {p : Packet} {t : Bool}
    (h : nextPacket first bytes = some (p, t, rest)) :
    readHeader beyond first bytes = some (p.header rest) := by
  rw [readHeader_eq, h]
  rfl

/-- No whole packet. -/
theorem readHeader_of_stuck (beyond : List UInt8 → ℕ → UInt8) {first : Bool}
    {bytes : List UInt8} (h : nextPacket first bytes = none) :
    readHeader beyond first bytes = none := by
  rw [readHeader_eq, h]
  rfl

/-- What lies behind the payload. -/
theorem Packet.drop_header (p : Packet) (rest : List UInt8) :
    (p.header rest).pos.drop (p.header rest).payloadLength = rest := List.drop_left

/-! ## The branches -/

theorem nextPacket_state {first : Bool} {xs rest : List UInt8} {p : Packet} {t : Bool}
    (h : nextPacket first xs = some (p, t, rest)) : t = true := by
  obtain ⟨b₀, b₁, b₂, b₃, tail, -, -, hcut⟩ := nextPacket_eq_some h
  exact (cutPayload_eq_some hcut).2.2.2.2.1

theorem nextPacket_payload_lt {first : Bool} {xs rest : List UInt8} {p : Packet} {t : Bool}
    (h : nextPacket first xs = some (p, t, rest)) : p.payload.length < 2 ^ 32 := by
  obtain ⟨b₀, b₁, b₂, b₃, tail, -, -, hcut⟩ := nextPacket_eq_some h
  rw [(cutPayload_eq_some hcut).2.1]
  have := (decodeUint32 (word b₀ b₁ b₂ b₃) (checkEndiannessByUint32 (word b₀ b₁ b₂ b₃))).toNat_lt
  omega

/-- A query without its last character, whatever is behind the payload. -/
theorem region_dropLast (beyond : ℕ → UInt8) (payload : List UInt8) :
    region (blit beyond 0 payload) 0 (payload.length - 1) = payload.dropLast := by
  rw [List.dropLast_eq_take, ← take_region (Nat.sub_le _ _), region_blit_self]

/-- **A message that is made acts as its packet asks.** -/
theorem Packet.visit_make {p : Packet} {beyond : ℕ → UInt8} {msg : Option Message}
    (h : p.make beyond = .ok msg) (hlen : p.payload.length < 2 ^ 32) (fd : FileDescriptor) :
    (msg.map (visit fd)).getD [] = p.effects fd := by
  unfold Packet.make makeMessage at h
  split at h
  · rename_i hcode
    rcases hm : makeStartupMsg (blit beyond 0 p.payload) p.payload.length p.endianness with err | m
    · rw [hm] at h
      cases h
    · rw [hm] at h
      cases h
      rw [Packet.effects, hcode]
      rfl
  split at h
  · rename_i hcode
    cases h
    rw [Packet.effects, hcode]
    rfl
  split at h
  · rename_i hcode
    rcases Nat.eq_zero_or_pos p.payload.length with hzero | hpos
    · rw [hzero, makeQueryMsg_zero] at h
      cases h
    · rw [makeQueryMsg_eq hpos hlen, region_dropLast] at h
      cases h
      rw [Packet.effects, if_pos hcode]
      rfl
  split at h
  · rename_i hcode
    cases h
    rw [Packet.effects, hcode]
    rfl
  · rename_i _ _ hquery hterminate
    cases h
    rw [Packet.effects, if_neg hquery, if_neg hterminate]
    rfl

/-- A packet is accepted unless it is a startup packet without a version or a query
without even the final NUL. -/
theorem Packet.accepted_of {p : Packet} (hlen : p.payload.length < 2 ^ 32)
    (hstartup : p.code = StartupMessage.MESSAGE_CODE → 4 ≤ p.payload.length)
    (hquery : p.code = Query.MESSAGE_CODE → p.payload ≠ []) : p.Accepted := by
  intro beyond err h
  unfold Packet.make makeMessage at h
  split at h
  · rename_i hcode
    rw [makeStartupMsg, if_neg (Nat.not_lt.mpr (hstartup hcode))] at h
    cases h
  split at h
  · cases h
  split at h
  · rename_i hcode
    rw [makeQueryMsg_eq (List.length_pos_iff.mpr (hquery hcode)) hlen] at h
    cases h
  split at h <;> cases h

/-- What the handler should do with the bytes it has not consumed. -/
def Handler.expected (h : Handler) (bytes : List UInt8) : Handled :=
  let d := parse h.firstMsgHandled bytes
  { handler := { h with buffer := d.rest, firstMsgHandled := d.state }
    effects := d.frames.flatMap (Packet.effects h.fd) }

theorem Handler.expected_of_none {h : Handler} {bytes : List UInt8}
    (hnext : nextPacket h.firstMsgHandled bytes = none) :
    h.expected bytes = { handler := { h with buffer := bytes } } := by
  rw [expected, parse_of_none hnext]
  rfl

theorem Handler.expected_of_some {h : Handler} {bytes rest : List UInt8} {p : Packet} {t : Bool}
    (hnext : nextPacket h.firstMsgHandled bytes = some (p, t, rest)) (buffer : List UInt8) :
    h.expected bytes =
      let after := Handler.expected { h with firstMsgHandled := true, buffer } rest
      { after with effects := p.effects h.fd ++ after.effects } := by
  obtain rfl := nextPacket_state hnext
  rw [expected, parse_of_some hnext]
  rfl

/-- **The message of the next packet**, made where the packet lies. -/
theorem make_header {p : Packet} (hok : p.Accepted) (beyond : List UInt8 → ℕ → UInt8)
    (rest : List UInt8) (hlen : p.payload.length < 2 ^ 32) (fd : FileDescriptor) :
    ∃ msg, makeMessage (p.header rest).msgCode (memory beyond (p.header rest).pos)
        (p.header rest).payloadLength (p.header rest).endianness = .ok msg ∧
      (msg.map (visit fd)).getD [] = p.effects fd := by
  have hmem := memory_append beyond p.payload rest
  rcases hmake : p.make (blit (beyond (p.payload ++ rest)) (0 + p.payload.length) rest)
    with err | msg
  · exact absurd hmake (hok _ _)
  · refine ⟨msg, ?_, Packet.visit_make hmake hlen fd⟩
    rw [← hmake]
    exact congrArg (fun m => makeMessage p.code m p.payload.length p.endianness) hmem

/-- **The branch for an empty buffer** parses the chunk. -/
theorem parseChunk_eq (beyond : List UInt8 → ℕ → UInt8) (fd : FileDescriptor) (first : Bool)
    (bytes : List UInt8) (hok : ∀ p ∈ (parse first bytes).frames, p.Accepted) :
    Handler.parseChunk beyond ⟨[], first, fd⟩ bytes = Handler.expected ⟨[], first, fd⟩ bytes := by
  induction first, bytes using packet_induction with
  | stuck first bytes hnext =>
    rw [Handler.expected_of_none (h := ⟨[], first, fd⟩) hnext]
    rcases eq_or_ne bytes [] with rfl | hne
    · exact Handler.parseChunk_nil beyond _
    · exact Handler.parseChunk_of_none hne (readHeader_of_stuck beyond hnext)
  | packet first bytes p t rest hnext ih =>
    obtain rfl := nextPacket_state hnext
    rw [parse_of_some hnext] at hok
    obtain ⟨msg, hmake, heffects⟩ :=
      make_header (hok p List.mem_cons_self) beyond rest (nextPacket_payload_lt hnext) fd
    have hhd := readHeader_of_next beyond hnext
    rw [Handler.parseChunk_of_some (h := ⟨[], first, fd⟩) hhd hmake,
      Handler.expected_of_some (h := ⟨[], first, fd⟩) hnext [], heffects, p.drop_header,
      ih fun q hq => hok q (List.mem_cons_of_mem p hq)]

/-- **The branch for a non-empty buffer** parses the buffer. -/
theorem parseBuffer_eq (beyond : List UInt8 → ℕ → UInt8) (fd : FileDescriptor) (first : Bool)
    (bytes : List UInt8) (hok : ∀ p ∈ (parse first bytes).frames, p.Accepted) :
    Handler.parseBuffer beyond ⟨bytes, first, fd⟩ = Handler.expected ⟨bytes, first, fd⟩ bytes := by
  induction first, bytes using packet_induction with
  | stuck first bytes hnext =>
    rw [Handler.expected_of_none (h := ⟨bytes, first, fd⟩) hnext]
    exact Handler.parseBuffer_of_none (readHeader_of_stuck beyond hnext)
  | packet first bytes p t rest hnext ih =>
    obtain rfl := nextPacket_state hnext
    rw [parse_of_some hnext] at hok
    obtain ⟨msg, hmake, heffects⟩ :=
      make_header (hok p List.mem_cons_self) beyond rest (nextPacket_payload_lt hnext) fd
    have hhd := readHeader_of_next beyond hnext
    rw [Handler.parseBuffer_of_some (h := ⟨bytes, first, fd⟩) hhd hmake,
      Handler.expected_of_some (h := ⟨bytes, first, fd⟩) hnext rest, heffects]
    simp only [p.drop_header]
    rw [ih fun q hq => hok q (List.mem_cons_of_mem p hq)]

/-! ## Runs -/

/-- One call of the handler: what lies behind the bytes it parses, and the result
it is called with. -/
structure HandlerCall where
  beyond : List UInt8 → ℕ → UInt8
  result : InputResult

/-- What a run of calls did. -/
structure HandlerRun where
  handler : Handler
  effects : List Effect
  thrown : List Exception

/-- Call the handler with one result after the other.  An exception leaves one
call, not the run. -/
def Handler.run (h : Handler) : List HandlerCall → HandlerRun
  | [] => ⟨h, [], []⟩
  | c :: cs =>
    let r := h.call c.beyond c.result
    let rest := r.handler.run cs
    ⟨rest.handler, r.effects ++ rest.effects, r.thrown.toList ++ rest.thrown⟩

/-- The stream that was cut into the results. -/
def streamOf (calls : List HandlerCall) : List UInt8 := calls.flatMap fun c => c.result.bytes

/-- One call with a chunk, whichever branch it takes. -/
theorem call_success_eq {h : Handler} {chunk : List UInt8}
    (hok : ∀ p ∈ (parse h.firstMsgHandled (h.buffer ++ chunk)).frames, p.Accepted)
    (beyond : List UInt8 → ℕ → UInt8) :
    h.call beyond (.success chunk) = h.expected (h.buffer ++ chunk) := by
  obtain ⟨buffer, first, fd⟩ := h
  simp only [Handler.call]
  split
  · rename_i hnil
    cases hnil
    exact parseChunk_eq beyond fd first chunk hok
  · exact parseBuffer_eq beyond fd first (buffer ++ chunk) hok

/-- One call, with a chunk or with an error. -/
theorem call_eq {h : Handler} (hstuck : nextPacket h.firstMsgHandled h.buffer = none)
    (c : HandlerCall)
    (hok : ∀ p ∈ (parse h.firstMsgHandled (h.buffer ++ c.result.bytes)).frames, p.Accepted) :
    h.call c.beyond c.result = h.expected (h.buffer ++ c.result.bytes) := by
  obtain ⟨beyond, bytes | err⟩ := c
  · exact call_success_eq hok beyond
  · simp only [Handler.call, ResultType.bytes, List.append_nil]
    rw [Handler.expected_of_none hstuck]

theorem run_eq {h : Handler} (hstuck : nextPacket h.firstMsgHandled h.buffer = none)
    (calls : List HandlerCall)
    (hok : ∀ p ∈ (parse h.firstMsgHandled (h.buffer ++ streamOf calls)).frames, p.Accepted) :
    h.run calls =
      let e := h.expected (h.buffer ++ streamOf calls)
      ⟨e.handler, e.effects, []⟩ := by
  induction calls generalizing h with
  | nil =>
    rw [streamOf, List.flatMap_nil, List.append_nil, Handler.expected_of_none hstuck]
    rfl
  | cons c cs ih =>
    have hstream :
        h.buffer ++ streamOf (c :: cs) = (h.buffer ++ c.result.bytes) ++ streamOf cs := by
      rw [streamOf, List.flatMap_cons, List.append_assoc]
      rfl
    have hcut := parse_append h.firstMsgHandled (h.buffer ++ c.result.bytes) (streamOf cs)
    rw [hstream] at hok ⊢
    rw [hcut] at hok
    have hcall := call_eq hstuck c fun p hp => hok p (List.mem_append_left _ hp)
    have hrest := ih (h := (h.call c.beyond c.result).handler)
      (by rw [hcall]; exact nextPacket_rest _ _)
      (by rw [hcall]; exact fun p hp => hok p (List.mem_append_right _ hp))
    rw [Handler.run, hrest, hcall]
    simp only [Handler.expected, hcut, List.flatMap_append, Option.toList_none,
      List.nil_append]

/-- **The two branches are one parser.**  For every stream without a packet that
`make_message` refuses and every way to cut it into results, with errors and
empty chunks in between, the effects are those of the packets of the whole
stream, no call throws, and the handler is left with the state of the parser and
the end of the stream behind the last whole packet. -/
theorem handler_run (fd : FileDescriptor) (calls : List HandlerCall)
    (hok : ∀ p ∈ (parse false (streamOf calls)).frames, p.Accepted) :
    ((Handler.init fd).run calls).effects =
        (parse false (streamOf calls)).frames.flatMap (Packet.effects fd) ∧
      ((Handler.init fd).run calls).thrown = [] ∧
      ((Handler.init fd).run calls).handler.firstMsgHandled =
        (parse false (streamOf calls)).state ∧
      ((Handler.init fd).run calls).handler.buffer = (parse false (streamOf calls)).rest ∧
      ((Handler.init fd).run calls).handler.buffer <:+ streamOf calls := by
  have hrun := run_eq (h := Handler.init fd) rfl calls hok
  rw [hrun]
  exact ⟨rfl, rfl, rfl, rfl, Framer.rest_suffix (F := packetFramer) false _⟩

/-- A startup packet, a query and the start of a third packet, cut inside a length
field, inside a payload and at nothing, with an error in between. -/
def cutCalls : List HandlerCall :=
  [.success [0, 0, 0], .success [], .error ⟨"recv failed", 7, 4⟩,
    .success [8, 0, 3, 0, 0, 81, 0, 0], .success [0, 6, 97, 0, 88, 0]].map
      fun result => ⟨fun _ _ => 0, result⟩

theorem handler_run_cut : ((Handler.init 7).run cutCalls).effects = [.addMessage [97]] ∧
    ((Handler.init 7).run cutCalls).thrown = [] ∧
    ((Handler.init 7).run cutCalls).handler.buffer = [88, 0] := by
  have hparse : parse false (streamOf cutCalls) =
      ⟨[⟨0, .be, [0, 3, 0, 0]⟩, ⟨81, .be, [97, 0]⟩], true, [88, 0]⟩ := by
    have hstartup : nextPacket false (streamOf cutCalls) =
        some (⟨0, .be, [0, 3, 0, 0]⟩, true, [81, 0, 0, 0, 6, 97, 0, 88, 0]) := by decide
    have hquery : nextPacket true [81, 0, 0, 0, 6, 97, 0, 88, 0] =
        some (⟨81, .be, [97, 0]⟩, true, [88, 0]) := by decide
    rw [parse_of_some hstartup, parse_of_some hquery, parse_of_none (by decide)]
  have hok : ∀ p ∈ (parse false (streamOf cutCalls)).frames, p.Accepted := by
    rw [hparse]
    simp only [List.forall_mem_cons]
    exact ⟨Packet.accepted_of (by decide) (by decide) (by decide),
      Packet.accepted_of (by decide) (by decide) (by decide), by simp⟩
  obtain ⟨heffects, hthrown, -, hbuffer, -⟩ := handler_run 7 cutCalls hok
  rw [hparse] at heffects hbuffer
  exact ⟨heffects, hthrown, hbuffer⟩

end Psql
end PsqlTcpProxy
