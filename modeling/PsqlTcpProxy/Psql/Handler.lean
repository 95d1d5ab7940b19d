import PsqlTcpProxy.Io.Channel
import PsqlTcpProxy.Psql.Protocol

/-!
# The handler of the client's stream

`psql_proxy/handler.cpp`: an input callback that cuts what the client sends into
packets and acts on some of them.  `operator()` has two branches.  With an empty
`_buffer` it parses the chunk where it lies (`parseChunk`) and copies what is
left at the end; otherwise it appends the chunk to `_buffer` and parses that
(`parseBuffer`), dropping each packet from the front.

Both read the head of a packet in the same words, which are `readHeader`; the
three places where they give up are its `none`.  Everything behind the bytes that
are parsed is memory too, and `make_message` gets a pointer: `beyond` says what
it would find there.

Log lines are left out.  The logger and the bus appear as `Effect`s, in order.
-/

namespace PsqlTcpProxy
namespace Psql

open Library Io

/-- What the handler does to the logger and to the bus. -/
inductive Effect where
  /-- `_message_logger->add_message(text)` -/
  | addMessage (text : Text)
  /-- `_bus->enqueue_event(fd, flags)` -/
  | enqueueEvent (ev : Event)
  deriving DecidableEq

/-- `PSQL_Message_Visitor` -/
def visit (fd : FileDescriptor) : Message → List Effect
  | .startup _ => []
  | .query m => [.addMessage m.query]
  | .terminate => [.enqueueEvent ⟨fd, Flags.error⟩]
  | .parameterStatus _ => []

/-- `psql_proxy::handler` -/
structure Handler where
  /-- `_buffer` -/
  buffer : List UInt8
  /-- `_first_msg_handled` -/
  firstMsgHandled : Bool
  /-- `_fd` -/
  fd : FileDescriptor
  deriving DecidableEq

/-- What a call of the handler did. -/
structure Handled where
  handler : Handler
  effects : List Effect := []
  /-- The exception the call was left with. -/
  thrown : Option Exception := none

/-- The memory seen from the first of `pos`. -/
def memory (beyond : List UInt8 → ℕ → UInt8) (pos : List UInt8) : ℕ → UInt8 :=
  blit (beyond pos) 0 pos

/-- The head of a packet. -/
structure Header where
  /-- `msg_code` -/
  msgCode : UInt8
  /-- `endianness` -/
  endianness : Endianness
  /-- `payload_length` -/
  payloadLength : ℕ
  /-- From `pos` to `end`: the payload and what follows it. -/
  pos : List UInt8

/-- From `std::byte msg_code{'\0'}` to the check of `payload_length`: the head of
the packet at the front of `bytes`, unless bytes are missing or the length does
not count itself. -/
def readHeader (beyond : List UInt8 → ℕ → UInt8) (firstMsgHandled : Bool) (bytes : List UInt8) :
    Option Header :=
  let msgCode := if firstMsgHandled then bytes.headD 0 else 0
  let pos := if firstMsgHandled then bytes.tail else bytes
  if pos.length < 4 then none
  else
    let endianness := checkEndiannessByUint32 (memory beyond pos)
    let payloadLengthWithLength := decodeUint32 (memory beyond pos) endianness
    if payloadLengthWithLength < 4 then none
    else
      let payloadLength := (payloadLengthWithLength - 4).toNat
      let pos := pos.drop 4
      if pos.length < payloadLength then none
      else some { msgCode, endianness, payloadLength, pos }

theorem readHeader_shorter {beyond : List UInt8 → ℕ → UInt8} {first : Bool} {bytes : List UInt8}
    {hd : Header} (h : readHeader beyond first bytes = some hd) :
    hd.pos.length < bytes.length := by
  simp only [readHeader, Option.ite_none_left_eq_some, Option.some.injEq] at h
  obtain ⟨hfour, -, -, rfl⟩ := h
  have hdrop := List.length_drop (i := 4) (l := if first then bytes.tail else bytes)
  have hle : (if first then bytes.tail else bytes).length ≤ bytes.length := by
    split
    · rw [List.length_tail]
      exact Nat.sub_le _ _
    · exact Nat.le_refl _
  simp only
  omega

namespace Handler

/-- The constructor. -/
def init (fd : FileDescriptor) : Handler := { buffer := [], firstMsgHandled := false, fd }

/-- The branch for an empty `_buffer`, at `pos_orig`. -/
def parseChunk (beyond : List UInt8 → ℕ → UInt8) (h : Handler) (posOrig : List UInt8) : Handled :=
  if 0 < posOrig.length then
    match hhd : readHeader beyond h.firstMsgHandled posOrig with
    | none => { handler := { h with buffer := posOrig } }
    | some hd =>
      match makeMessage hd.msgCode (memory beyond hd.pos) hd.payloadLength hd.endianness with
      | .error err => { handler := h, thrown := some err }
      | .ok msg =>
        have := readHeader_shorter hhd
        let rest := parseChunk beyond { h with firstMsgHandled := true }
          (hd.pos.drop hd.payloadLength)
        { rest with effects := (msg.map (visit h.fd)).getD [] ++ rest.effects }
  else { handler := h }
termination_by posOrig.length

/-- The branch for a non-empty `_buffer`, from the `do` on. -/
def parseBuffer (beyond : List UInt8 → ℕ → UInt8) (h : Handler) : Handled :=
  if h.buffer.length = 0 then { handler := h }
  else
    match hhd : readHeader beyond h.firstMsgHandled h.buffer with
    | none => { handler := h }
    | some hd =>
      match makeMessage hd.msgCode (memory beyond hd.pos) hd.payloadLength hd.endianness with
      | .error err => { handler := h, thrown := some err }
      | .ok msg =>
        have := readHeader_shorter hhd
        let effects := (msg.map (visit h.fd)).getD []
        let h' := { h with firstMsgHandled := true, buffer := hd.pos.drop hd.payloadLength }
        if 0 < (hd.pos.drop hd.payloadLength).length then
          let rest := parseBuffer beyond h'
          { rest with effects := effects ++ rest.effects }
        else { handler := h', effects }
termination_by h.buffer.length

/-- `operator()` -/
def call (beyond : List UInt8 → ℕ → UInt8) (h : Handler) : InputResult → Handled
  | .error _ => { handler := h }
  | .success bytes =>
    if h.buffer = [] then h.parseChunk beyond bytes
    else parseBuffer beyond { h with buffer := h.buffer ++ bytes }

/-! ## One packet of each branch -/

variable {beyond : List UInt8 → ℕ → UInt8} {h : Handler} {bytes : List UInt8} {hd : Header}

theorem parseChunk_nil (beyond : List UInt8 → ℕ → UInt8) (h : Handler) :
    h.parseChunk beyond [] = { handler := h } := by
  rw [parseChunk]
  rfl

/-- Without a whole packet the chunk is copied to `_buffer`. -/
theorem parseChunk_of_none (hne : bytes ≠ [])
    (hhd : readHeader beyond h.firstMsgHandled bytes = none) :
    h.parseChunk beyond bytes = { handler := { h with buffer := bytes } } := by
  rw [parseChunk, if_pos (List.length_pos_iff.mpr hne)]
  split
  · rfl
  · rename_i heq
    rw [hhd] at heq
    cases heq

/-- A whole packet, whether a message can be made of it or not. -/
theorem parseChunk_of_header (hhd : readHeader beyond h.firstMsgHandled bytes = some hd) :
    h.parseChunk beyond bytes =
      match makeMessage hd.msgCode (memory beyond hd.pos) hd.payloadLength hd.endianness with
      | .error err => { handler := h, thrown := some err }
      | .ok msg =>
        let rest := parseChunk beyond { h with firstMsgHandled := true }
          (hd.pos.drop hd.payloadLength)
        { rest with effects := (msg.map (visit h.fd)).getD [] ++ rest.effects } := by
  have hpos : 0 < bytes.length := Nat.zero_lt_of_lt (readHeader_shorter hhd)
  rw [parseChunk, if_pos hpos]
  split
  · rename_i heq
    rw [hhd] at heq
    cases heq
  · rename_i heq
    rw [hhd] at heq
    cases heq
    rfl

theorem parseChunk_of_some (hhd : readHeader beyond h.firstMsgHandled bytes = some hd)
    {msg : Option Message}
    (hmake : makeMessage hd.msgCode (memory beyond hd.pos) hd.payloadLength hd.endianness =
      .ok msg) :
    h.parseChunk beyond bytes =
      let rest := parseChunk beyond { h with firstMsgHandled := true }
        (hd.pos.drop hd.payloadLength)
      { rest with effects := (msg.map (visit h.fd)).getD [] ++ rest.effects } := by
  rw [parseChunk_of_header hhd, hmake]

theorem parseChunk_of_error (hhd : readHeader beyond h.firstMsgHandled bytes = some hd)
    {err : Exception}
    (hmake : makeMessage hd.msgCode (memory beyond hd.pos) hd.payloadLength hd.endianness =
      .error err) :
    h.parseChunk beyond bytes = { handler := h, thrown := some err } := by
  rw [parseChunk_of_header hhd, hmake]

theorem parseBuffer_of_none (hhd : readHeader beyond h.firstMsgHandled h.buffer = none) :
    h.parseBuffer beyond = { handler := h } := by
  rw [parseBuffer]
  split
  · rfl
  split
  · rfl
  · rename_i heq
    rw [hhd] at heq
    cases heq

/-- The loop ends when the packet was the whole of `_buffer`. -/
theorem parseBuffer_of_header (hhd : readHeader beyond h.firstMsgHandled h.buffer = some hd) :
    h.parseBuffer beyond =
      match makeMessage hd.msgCode (memory beyond hd.pos) hd.payloadLength hd.endianness with
      | .error err => { handler := h, thrown := some err }
      | .ok msg =>
        let rest := parseBuffer beyond
          { h with firstMsgHandled := true, buffer := hd.pos.drop hd.payloadLength }
        { rest with effects := (msg.map (visit h.fd)).getD [] ++ rest.effects } := by
  have hpos : ¬ h.buffer.length = 0 := Nat.ne_of_gt (Nat.zero_lt_of_lt (readHeader_shorter hhd))
  rw [parseBuffer, if_neg hpos]
  split
  · rename_i heq
    rw [hhd] at heq
    cases heq
  · rename_i heq
    rw [hhd] at heq
    cases heq
    rcases makeMessage hd.msgCode (memory beyond hd.pos) hd.payloadLength hd.endianness
      with err | msg
    · rfl
    · simp only
      split
      · rfl
      · rename_i hlen
        have hnil : hd.pos.drop hd.payloadLength = [] :=
          List.length_eq_zero_iff.mp (Nat.eq_zero_of_not_pos hlen)
        rw [parseBuffer, if_pos (by rw [hnil]; rfl), hnil, List.append_nil]

theorem parseBuffer_of_some (hhd : readHeader beyond h.firstMsgHandled h.buffer = some hd)
    {msg : Option Message}
    (hmake : makeMessage hd.msgCode (memory beyond hd.pos) hd.payloadLength hd.endianness =
      .ok msg) :
    h.parseBuffer beyond =
      let rest := parseBuffer beyond
        { h with firstMsgHandled := true, buffer := hd.pos.drop hd.payloadLength }
      { rest with effects := (msg.map (visit h.fd)).getD [] ++ rest.effects } := by
  rw [parseBuffer_of_header hhd, hmake]

theorem parseBuffer_of_error (hhd : readHeader beyond h.firstMsgHandled h.buffer = some hd)
    {err : Exception}
    (hmake : makeMessage hd.msgCode (memory beyond hd.pos) hd.payloadLength hd.endianness =
      .error err) :
    h.parseBuffer beyond = { handler := h, thrown := some err } := by
  rw [parseBuffer_of_header hhd, hmake]

end Handler

end Psql
end PsqlTcpProxy
