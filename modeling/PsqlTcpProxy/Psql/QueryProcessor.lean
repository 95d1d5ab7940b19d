import PsqlTcpProxy.Io.BipartiteBufSpec
import PsqlTcpProxy.Library.Run
import PsqlTcpProxy.Psql.Protocol

/-!
# The query processor

`psql_proxy/query_processor.cpp`: the queue of characters between the thread
that decodes queries and the thread that writes the log.  `_add_message` does
not store a message at once.  It cuts it into pieces, and every piece and then
the separator is a `write_acquire` of its own; one that fails is skipped without
a word.

Two details of the cut: a piece that is not the last has `CHUNK_SZ + 1`
characters (`std::next(pos + CHUNK_SZ)`), and the loop is a `do … while`, so the
empty message is one piece of no characters.
-/

namespace PsqlTcpProxy
namespace Psql

open Library Io

namespace QueryProcessor

/-- `query_processor::CHUNK_SZ` -/
abbrev CHUNK_SZ : ℕ := 1024

/-- `query_processor::BUFF_SZ` -/
abbrev BUFF_SZ : ℕ := 2 * CHUNK_SZ

/-- `query_buffer_t` -/
abbrev QueryBuffer := BipartiteBuffer UInt8 BUFF_SZ

end QueryProcessor

/-- `query_processor` -/
structure QueryProcessor where
  /-- `_query_buffer` -/
  queryBuffer : QueryProcessor.QueryBuffer
  /-- `_separator` -/
  separator : UInt8

namespace QueryProcessor

/-- The constructor. -/
def init (data : ℕ → UInt8) (separator : UInt8) : QueryProcessor :=
  { queryBuffer := .init data, separator }

/-! ## Adding a message -/

/-- `std::distance(pos, last)` for the `n` characters from `pos` to `end`. -/
def pieceLength (n : ℕ) : ℕ := if CHUNK_SZ < n then CHUNK_SZ + 1 else n

/-- Unless nothing is left, the loop moves on. -/
theorem sub_pieceLength_lt {pos : Text} (h : pos.drop (pieceLength pos.length) ≠ []) :
    pos.length - pieceLength pos.length < pos.length := by
  have hpos : 0 < pos.length := by
    rcases pos with _ | ⟨c, pos⟩
    · exact absurd List.drop_nil h
    · exact Nat.zero_lt_succ _
  have hlen : 0 < pieceLength pos.length := by
    unfold pieceLength
    split <;> omega
  omega

/-- One `write_acquire`, `std::copy`, `write_release`; nothing when the first
returns `nullptr`. -/
def writePiece (b : QueryBuffer) (piece : Text) :
    Option (QueryBuffer) :=
  match b.writeAcquire piece.length with
  | (some wbuf, b) => (b.store wbuf piece).writeRelease piece.length
  | (none, b) => some b

/-- The loop of `_add_message`, at `pos`. -/
def addPieces (b : QueryBuffer) (pos : Text) :
    Option (QueryBuffer) :=
  (writePiece b (pos.take (pieceLength pos.length))).bind fun b =>
    if h : pos.drop (pieceLength pos.length) = [] then some b
    else
      have := sub_pieceLength_lt h
      addPieces b (pos.drop (pieceLength pos.length))
termination_by pos.length

/-- `_add_message` -/
def addMessage (q : QueryProcessor) (message : Text) : Option QueryProcessor :=
  (addPieces q.queryBuffer message).bind fun b =>
    (writePiece b [q.separator]).map fun b => { q with queryBuffer := b }

/-- The pieces the loop of `_add_message` cuts a message into. -/
def messagePieces (pos : Text) : List Text :=
  if h : pos.drop (pieceLength pos.length) = [] then [pos.take (pieceLength pos.length)]
  else
    have := sub_pieceLength_lt h
    pos.take (pieceLength pos.length) :: messagePieces (pos.drop (pieceLength pos.length))
termination_by pos.length

/-- What `_add_message` asks room for, one after the other. -/
def requests (separator : UInt8) (message : Text) : List Text :=
  messagePieces message ++ [[separator]]

/-- A message as a record of the log. -/
def record (separator : UInt8) (message : Text) : Text := message ++ [separator]

theorem messagePieces_of_short {pos : Text} (h : pos.length ≤ CHUNK_SZ) :
    messagePieces pos = [pos] := by
  have hlen : pieceLength pos.length = pos.length := if_neg (Nat.not_lt.mpr h)
  have hrest : pos.drop (pieceLength pos.length) = [] := by rw [hlen, List.drop_length]
  rw [messagePieces, dif_pos hrest, hlen, List.take_length]

/-- One character more than a chunk is still one piece. -/
theorem messagePieces_of_exact {pos : Text} (h : pos.length = CHUNK_SZ + 1) :
    messagePieces pos = [pos] := by
  have hlen : pieceLength pos.length = pos.length := by rw [h, pieceLength, if_pos (by omega)]
  have hrest : pos.drop (pieceLength pos.length) = [] := by rw [hlen, List.drop_length]
  rw [messagePieces, dif_pos hrest, hlen, List.take_length]

theorem messagePieces_of_long {pos : Text} (h : CHUNK_SZ + 1 < pos.length) :
    messagePieces pos = pos.take (CHUNK_SZ + 1) :: messagePieces (pos.drop (CHUNK_SZ + 1)) := by
  have hlen : pieceLength pos.length = CHUNK_SZ + 1 := if_pos (by omega)
  have hrest : pos.drop (pieceLength pos.length) ≠ [] := by
    rw [hlen, ne_eq, List.drop_eq_nil_iff]
    omega
  rw [messagePieces, dif_neg hrest]
  simp only [hlen]

/-- A short message is one piece. -/
theorem requests_of_short (separator : UInt8) {message : Text} (h : message.length ≤ CHUNK_SZ) :
    requests separator message = [message, [separator]] := by
  rw [requests, messagePieces_of_short h, List.singleton_append]

/-- The cut loses nothing. -/
theorem flatten_messagePieces (pos : Text) : (messagePieces pos).flatten = pos := by
  induction pos using messagePieces.induct with
  | case1 pos h =>
    rw [messagePieces, dif_pos h, List.flatten_singleton]
    exact List.take_of_length_le (List.drop_eq_nil_iff.mp h)
  | case2 pos h _ ih =>
    rw [messagePieces, dif_neg h, List.flatten_cons, ih]
    exact List.take_append_drop _ _

theorem flatten_requests (separator : UInt8) (message : Text) :
    (requests separator message).flatten = record separator message := by
  rw [requests, List.flatten_append, flatten_messagePieces, List.flatten_singleton, record]

/-- The loop writes the pieces one after the other. -/
theorem addPieces_eq (b : QueryBuffer) (pos : Text) :
    addPieces b pos = run writePiece b (messagePieces pos) := by
  induction pos using messagePieces.induct generalizing b with
  | case1 pos h =>
    rw [addPieces, messagePieces, dif_pos h, run_cons]
    simp only [dif_pos h, run_nil]
  | case2 pos h _ ih =>
    rw [addPieces, messagePieces, dif_neg h, run_cons]
    simp only [dif_neg h, ih]

/-- **`_add_message` is its requests**, each written or skipped. -/
theorem addMessage_eq (q : QueryProcessor) (message : Text) :
    q.addMessage message =
      (run writePiece q.queryBuffer (requests q.separator message)).map fun b =>
        { q with queryBuffer := b } := by
  rw [addMessage, requests, run_append, addPieces_eq]
  rcases run writePiece q.queryBuffer (messagePieces message) with _ | b
  · rfl
  · show (writePiece b [q.separator]).map _ = ((writePiece b [q.separator]).bind some).map _
    rw [Option.bind_fun_some]

/-- A message of one piece. -/
theorem addMessage_short (q : QueryProcessor) {message : Text} (h : message.length ≤ CHUNK_SZ) :
    q.addMessage message = (run writePiece q.queryBuffer [message, [q.separator]]).map fun b =>
      { q with queryBuffer := b } := by
  rw [addMessage_eq, requests_of_short _ h]

/-! ## Processing what was added -/

/-- `_process`, with a callback that is told the characters offered and returns
how many it has consumed.  The result is `_process`'s own and the processor
afterwards. -/
def process (q : QueryProcessor) (callback : (rbuf : Text) → Fin (rbuf.length + 1)) :
    Option (ℕ × QueryProcessor) :=
  match q.queryBuffer.readAcquire with
  | (some rbuf, len, b) =>
    if 0 < len then
      let writtenChars := callback (region b.data rbuf len)
      (b.readRelease writtenChars).map fun b => (writtenChars, { q with queryBuffer := b })
    else some (0, { q with queryBuffer := b })
  | (none, _, b) => some (0, { q with queryBuffer := b })

end QueryProcessor

end Psql
end PsqlTcpProxy
