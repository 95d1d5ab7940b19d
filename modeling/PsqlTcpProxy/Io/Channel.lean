import PsqlTcpProxy.Io.BipartiteBuf
import PsqlTcpProxy.Io.Event

/-!
# The channel

`io/channel.hpp` and `io/channel.cpp`: a channel reads from its left object into
a bipartite buffer and writes the buffer to its right object.  It runs only when
the bus delivers an event of one of the two descriptors.

The objects are the outside world: `async_read_some` and `async_write_some` are
parameters of the event handlers, given by the value they return, and the types
`ReadResult` and `WriteResult` admit exactly the results the interface allows.
Everything else a handler does to the world is in its `Outcome`: the events it
enqueues, the exception it leaves with, and the calls it made.

Three places are worth reading against the source.

* The two handlers write in the same way, and both pass on *their own* `fd` when
  a write was short; `writePart` is that code, once.
* A write error is logged and nothing else happens.
* The input callbacks run between the read and the write, and an exception from
  one of them leaves the handler before the write.

Log lines (`IO_DEBUG`, `std::cerr`) are left out.
-/

namespace PsqlTcpProxy
namespace Io

open Library

/-- `channel::CHUNK_SZ` -/
abbrev CHUNK_SZ : ℕ := 64 * 1024 - 1

/-- `channel::BUFF_SZ` -/
abbrev BUFF_SZ : ℕ := 2 * CHUNK_SZ

/-! ## Input callbacks -/

/-- What a call of an input callback does: its state afterwards, the events it
enqueues on the bus, and how it left. -/
structure CallbackResult (η : Type) where
  state : η
  events : List Event
  thrown : Option Exception

/-- `input_object::callback_t`, over a state `η` that the callbacks of one
channel share.  A callback gets the result by constant reference and reads the
bytes it points to. -/
abbrev InputCallback (η : Type) := η → InputResult → CallbackResult η

/-- `for (input_callback_t &handler : _handlers) handler(result);` -/
def runHandlers {η : Type} : List (InputCallback η) → η → InputResult → CallbackResult η
  | [], s, _ => ⟨s, [], none⟩
  | h :: hs, s, res =>
    match h s res with
    | ⟨s', evs, some e⟩ => ⟨s', evs, some e⟩
    | ⟨s', evs, none⟩ =>
      let rest := runHandlers hs s' res
      ⟨rest.state, evs ++ rest.events, rest.thrown⟩

/-! ## The channel and its event handlers -/

/-- `io::channel` -/
structure Channel (η : Type) where
  /-- `_buffer` -/
  buffer : BipartiteBuffer UInt8 BUFF_SZ
  /-- `_left->get_fd()` -/
  left : FileDescriptor
  /-- `_right->get_fd()` -/
  right : FileDescriptor
  /-- `_handlers` -/
  handlers : List (InputCallback η)
  /-- What the handlers have captured. -/
  handlerState : η

/-- One call of `async_write_some`. -/
structure WriteCall where
  offered : List UInt8
  result : WriteResult offered.length

namespace WriteCall

/-- The bytes the right object accepted. -/
def accepted (call : WriteCall) : List UInt8 :=
  match call.result with
  | .success n => call.offered.take n
  | .error _ => []

/-- The call accepted fewer bytes than were offered. -/
def short (call : WriteCall) : Bool :=
  match call.result with
  | .success n => (n : ℕ) < call.offered.length
  | .error _ => false

/-- The call returned an error. -/
def failed (call : WriteCall) : Bool :=
  match call.result with
  | .success _ => false
  | .error _ => true

end WriteCall

/-- What an event handler did. -/
structure Outcome (η : Type) where
  channel : Channel η
  /-- The events enqueued, in order. -/
  events : List Event := []
  /-- The exception the handler was left with. -/
  thrown : Option Exception := none
  /-- The result of `async_read_some`, if it was called. -/
  readCall : Option InputResult := none
  /-- The call of `async_write_some`, if it was made. -/
  writeCall : Option WriteCall := none

namespace Outcome

variable {η : Type}

/-- The bytes the left object returned. -/
def received (o : Outcome η) : List UInt8 := (o.readCall.map ResultType.bytes).getD []

/-- The bytes the right object accepted. -/
def sent (o : Outcome η) : List UInt8 := (o.writeCall.map WriteCall.accepted).getD []

end Outcome

namespace Channel

variable {η : Type}

/-- `make_channel`: an empty buffer between two objects. -/
def make (data : ℕ → UInt8) (left right : FileDescriptor) (handlers : List (InputCallback η))
    (handlerState : η) : Channel η :=
  { buffer := .init data, left, right, handlers, handlerState }

/-- The handlers of a channel, run on a read result. -/
def afterRead (c : Channel η) (res : InputResult) (events : List Event) : Outcome η :=
  let called := runHandlers c.handlers c.handlerState res
  { channel := { c with handlerState := called.state }
    events := events ++ called.events
    thrown := called.thrown
    readCall := some res }

/-- The read in `_handle_left_io_event`: when the buffer has room for a chunk,
read into it, release what came, and show the result to the handlers. -/
def readPart (c : Channel η) (fd : FileDescriptor) (read : ReadResult CHUNK_SZ) :
    Option (Outcome η) :=
  match c.buffer.writeAcquire CHUNK_SZ with
  | (some wbuf, b) =>
    match read with
    | .error err =>
      -- connection closed: force the error handler to close the session
      some (({ c with buffer := b } : Channel η).afterRead (.error err) [⟨fd, Flags.error⟩])
    | .success bytes =>
      ((b.store wbuf bytes.1).writeRelease bytes.1.length).map fun b' =>
        ({ c with buffer := b' } : Channel η).afterRead (.success bytes.1) []
  | (none, b) => some { channel := { c with buffer := b } }

/-- The write in both event handlers: offer the first region of the buffer. -/
def writePart (c : Channel η) (fd : FileDescriptor)
    (write : (offered : List UInt8) → WriteResult offered.length) : Option (Outcome η) :=
  match c.buffer.readAcquire with
  | (some rbuf, len, b) =>
    if 0 < len then
      let offered := region b.data rbuf len
      match write offered with
      | .error err =>
        some { channel := { c with buffer := b }, writeCall := some ⟨offered, .error err⟩ }
      | .success n =>
        (b.readRelease n).map fun b' =>
          { channel := { c with buffer := b' }
            -- try to write more
            events := if (n : ℕ) < len then [⟨fd, Flags.out⟩] else []
            writeCall := some ⟨offered, .success n⟩ }
    else some { channel := { c with buffer := b } }
  | (none, _, b) => some { channel := { c with buffer := b } }

/-- `_handle_left_io_event` -/
def handleLeftIoEvent (c : Channel η) (fd : FileDescriptor) (mask : Flags)
    (read : ReadResult CHUNK_SZ) (write : (offered : List UInt8) → WriteResult offered.length) :
    Option (Outcome η) :=
  if mask.test Flags.in' then
    (c.readPart fd read).bind fun o =>
      if o.thrown.isSome then some o
      else (o.channel.writePart fd write).map fun o' =>
        -- try to write immediately if data received
        { o' with events := o.events ++ o'.events, readCall := o.readCall }
  else some { channel := c }

/-- `_handle_right_io_event` -/
def handleRightIoEvent (c : Channel η) (fd : FileDescriptor) (mask : Flags)
    (write : (offered : List UInt8) → WriteResult offered.length) : Option (Outcome η) :=
  if mask.test Flags.out then c.writePart fd write else some { channel := c }

end Channel

end Io
end PsqlTcpProxy
