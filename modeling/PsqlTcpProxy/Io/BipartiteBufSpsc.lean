import PsqlTcpProxy.Io.BipartiteBufSpec
import PsqlTcpProxy.Library.Run

/-!
# One producer and one consumer

The bipartite buffer shared by two threads: the producer runs `write_acquire`,
fills what it got and runs `write_release`; the consumer runs `read_acquire`,
hands what it got to a callback and runs `read_release`.  A step of either
thread is one load or one store of `_w`, `_r`, `_i`, or one cell of a copy; the
arithmetic between two of them belongs to the first.  The two flags are private
to their threads.

The steps are interleaved in any order, with sequentially consistent memory.  A
local variable of a thread is an argument of the constructor it is live in.
-/

namespace PsqlTcpProxy
namespace Io

open Library

variable {α : Type*} {size : ℕ}

/-- Where the producer is.  `p` is the pointer `write_acquire` returned. -/
inductive ProducerPc (α : Type*) where
  /-- Between two pieces. -/
  | idle
  /-- In `write_acquire`, before the load of `_r`. -/
  | acquiring (piece : List α) (w : ℕ)
  /-- `k` cells of the piece are copied. -/
  | copying (piece : List α) (p k : ℕ)
  /-- In `write_release`, before the load of `_i`. -/
  | loadingI (piece : List α) (p w : ℕ)
  /-- In `write_release`, before the store of `_i`. -/
  | storingI (piece : List α) (p i w : ℕ)
  /-- In `write_release`, before the store of `_w`. -/
  | storingW (piece : List α) (p w : ℕ)

/-- The cells the producer may be writing: from `write_acquire` to the store of
`_w`. -/
def ProducerPc.region : ProducerPc α → Option (ℕ × ℕ)
  | .idle | .acquiring .. => none
  | .copying piece p _ | .loadingI piece p _ | .storingI piece p _ _ | .storingW piece p _ =>
    some (p, piece.length)

/-- Where the consumer is.  `q` and `len` are what `read_acquire` returned. -/
inductive ConsumerPc where
  /-- Between two calls. -/
  | idle
  /-- In `read_acquire`, before the load of `_w`. -/
  | acquiring (r : ℕ)
  /-- In `read_acquire`, before the load of `_i`. -/
  | loadingI (r w : ℕ)
  /-- In the callback, which has consumed `k` cells. -/
  | reading (q len k : ℕ)
  /-- In `read_release`, before the store of `_r`. -/
  | storingR (q len k r : ℕ)

/-- The cells the consumer may be reading: from `read_acquire` to the store of
`_r`. -/
def ConsumerPc.region : ConsumerPc → Option (ℕ × ℕ)
  | .idle | .acquiring _ | .loadingI .. => none
  | .reading q len _ | .storingR q len _ _ => some (q, len)

/-- The shared buffer, the two threads, and what they have done. -/
structure Spsc (α : Type*) (size : ℕ) where
  buffer : BipartiteBuffer α size
  producer : ProducerPc α
  consumer : ConsumerPc
  /-- The pieces the producer is still to write. -/
  todo : List (List α)
  /-- The pieces for which `write_acquire` has succeeded, in order. -/
  accepted : List (List α)
  /-- The cells the callback has consumed, in order. -/
  consumed : List α

/-- Whose turn it is. -/
inductive Turn (α : Type*) where
  /-- The producer is given more pieces. -/
  | post (pieces : List (List α))
  | producer
  /-- A callback that is running consumes one more cell, or returns. -/
  | consumer (more : Bool)

namespace Spsc

/-- Both threads idle on a fresh buffer. -/
def start (data : ℕ → α) : Spsc α size :=
  { buffer := .init data, producer := .idle, consumer := .idle, todo := [], accepted := [],
    consumed := [] }

/-- The consumer behind `if (nullptr != rbuf && len > 0)`. -/
def offered (q len : ℕ) : ConsumerPc := if 0 < len then .reading q len 0 else .idle

/-- One step of the producer.  `none` is a failed assertion. -/
def producerStep (s : Spsc α size) : Option (Spsc α size) :=
  match s.producer with
  | .idle =>
    match s.todo with
    | [] => some s
    | piece :: todo => some { s with todo, producer := .acquiring piece s.buffer.w }
  | .acquiring piece w =>
    match acquireAt size w s.buffer.r piece.length with
    | some (p, true) => some { s with
        buffer := { s.buffer with writeWrapped := true }
        producer := .copying piece p 0
        accepted := s.accepted ++ [piece] }
    | some (p, false) => some { s with
        producer := .copying piece p 0
        accepted := s.accepted ++ [piece] }
    | none => some { s with producer := .idle }
  | .copying piece p k =>
    match piece[k]? with
    | some x => some { s with
        buffer := { s.buffer with data := blit s.buffer.data (p + k) [x] }
        producer := .copying piece p (k + 1) }
    | none =>
      -- the copy is done: `write_release` loads `_w`
      if s.buffer.writeWrapped then
        (releaseAt size 0 s.buffer.w piece.length).map fun iw => { s with
          buffer := { s.buffer with writeWrapped := false }
          producer := .storingI piece p iw.1 iw.2 }
      else some { s with producer := .loadingI piece p s.buffer.w }
  | .loadingI piece p w =>
    (releaseAt size w s.buffer.i piece.length).map fun iw =>
      { s with producer := .storingI piece p iw.1 iw.2 }
  | .storingI piece p i w => some { s with
      buffer := { s.buffer with i }
      producer := .storingW piece p w }
  | .storingW _ _ w => some { s with buffer := { s.buffer with w }, producer := .idle }

/-- One step of the consumer.  `none` is a failed assertion. -/
def consumerStep (s : Spsc α size) (more : Bool) : Option (Spsc α size) :=
  match s.consumer with
  | .idle => some { s with consumer := .acquiring s.buffer.r }
  | .acquiring r =>
    if r = s.buffer.w then some { s with consumer := .idle }
    else if r < s.buffer.w then some { s with consumer := offered r (s.buffer.w - r) }
    else some { s with consumer := .loadingI r s.buffer.w }
  | .loadingI r w =>
    if r = s.buffer.i then some { s with
      buffer := { s.buffer with readWrapped := true }
      consumer := offered 0 w }
    else some { s with consumer := offered r (s.buffer.i - r) }
  | .reading q len k =>
    if more && decide (k < len) then some { s with
      consumer := .reading q len (k + 1)
      consumed := s.consumed ++ [s.buffer.data (q + k)] }
    else
      -- the callback returns `k`: `read_release` loads `_r`
      (readReleaseAt size s.buffer.readWrapped s.buffer.r k).map fun r => { s with
        buffer := { s.buffer with readWrapped := false }
        consumer := .storingR q len k r }
  | .storingR _ _ _ r => some { s with buffer := { s.buffer with r }, consumer := .idle }

/-- One turn. -/
def step (s : Spsc α size) : Turn α → Option (Spsc α size)
  | .post pieces => some { s with todo := s.todo ++ pieces }
  | .producer => s.producerStep
  | .consumer more => s.consumerStep more

end Spsc

/-! ## What the producer still asks for -/

/-- The piece `write_acquire` is being called for. -/
def ProducerPc.requesting : ProducerPc α → List (List α)
  | .acquiring piece _ => [piece]
  | _ => []

namespace Spsc

/-- The pieces `write_acquire` has not answered yet. -/
def waiting (s : Spsc α size) : List (List α) := s.producer.requesting ++ s.todo

/-- The answer of `write_acquire` to a request, once `_w` is loaded. -/
def granted (s : Spsc α size) (piece : List α) (w : ℕ) : Bool :=
  (acquireAt size w s.buffer.r piece.length).isSome

end Spsc

/-! ## The invariant -/

/-- The region `[p, p + n)` that `write_acquire` handed out is free, at the write
index or at the front. -/
inductive Room (size r w n : ℕ) : (wrapped : Bool) → (p : ℕ) → Prop where
  | linear (h : LinearRoom size r w n) : Room size r w n false w
  | wrap (h : WrapRoom r w n) : Room size r w n true 0

/-- A piece that lies in its region, with the indexes `i` and `w` that release
it. -/
def Releasing (b : BipartiteBuffer α size) (piece : List α) (p i w : ℕ) : Prop :=
  ∃ wrapped, Room size b.r b.w piece.length wrapped p ∧
    region b.data p piece.length = piece ∧
    releaseAt size (releaseStart wrapped b.w b.i).1 (releaseStart wrapped b.w b.i).2 piece.length =
      some (i, w)

/-- What the producer relies on. -/
def ProducerOk (b : BipartiteBuffer α size) : ProducerPc α → Prop
  | .idle => b.writeWrapped = false
  | .acquiring _ w => b.writeWrapped = false ∧ w = b.w
  | .copying piece p k => k ≤ piece.length ∧ Room size b.r b.w piece.length b.writeWrapped p ∧
      region b.data p k = piece.take k
  | .loadingI piece p w => b.writeWrapped = false ∧ w = b.w ∧
      Room size b.r b.w piece.length false p ∧ region b.data p piece.length = piece
  | .storingI piece p i w => b.writeWrapped = false ∧ Releasing b piece p i w
  | .storingW piece p w => b.writeWrapped = false ∧ Releasing b piece p b.i w

/-- What the consumer relies on.  Its copy of `_w` may be stale. -/
def ConsumerOk (b : BipartiteBuffer α size) : ConsumerPc → Prop
  | .idle => True
  | .acquiring r => r = b.r
  | .loadingI r w => r = b.r ∧ w ≤ b.w ∧ b.w < b.r
  | .reading q len k => k ≤ len ∧ Offered b.r b.w b.i b.readWrapped q len
  | .storingR q len k r => b.readWrapped = false ∧ k ≤ len ∧
      ∃ wrapped, Offered b.r b.w b.i wrapped q len ∧ readReleaseAt size wrapped b.r k = some r

/-- The piece that is acquired and not yet released. -/
def ProducerPc.inFlight : ProducerPc α → List α
  | .idle | .acquiring .. => []
  | .copying piece .. | .loadingI piece .. | .storingI piece .. | .storingW piece .. => piece

/-- The cells of the queue that are consumed and not yet released. -/
def ConsumerPc.taken : ConsumerPc → ℕ
  | .idle | .acquiring _ | .loadingI .. => 0
  | .reading _ _ k | .storingR _ _ k _ => k

/-- What has been released by the consumer, what is held, and what is in flight
make up what was accepted. -/
def StreamOk (consumed held inFlight : List α) (taken : ℕ) (accepted : List (List α)) : Prop :=
  ∃ released, consumed = released ++ held.take taken ∧
    released ++ held ++ inFlight = accepted.flatten

namespace Spsc

/-- The cells in the buffer that the callback has not consumed. -/
def buffered (s : Spsc α size) : List α := s.buffer.held.drop s.consumer.taken

/-- **The invariant** of every interleaving. -/
structure Inv (s : Spsc α size) : Prop where
  wf : s.buffer.Wf
  producer : ProducerOk s.buffer s.producer
  consumer : ConsumerOk s.buffer s.consumer
  stream : StreamOk s.consumed s.buffer.held s.producer.inFlight s.consumer.taken s.accepted

end Spsc

end Io
end PsqlTcpProxy
