import PsqlTcpProxy.Io.Event

/-!
# The socket

`io/socket.cpp`: what `_async_read_some` and `_async_write_some` make of the
answers of `recv` and `send`.  An answer that only asks for patience is a success
of no bytes; no byte from `recv` is an error, the end of the stream.
-/

namespace PsqlTcpProxy
namespace Io

/-- `EINTR` -/
def EINTR : ℤ := 4
/-- `EAGAIN` -/
def EAGAIN : ℤ := 11
/-- `EINPROGRESS` -/
def EINPROGRESS : ℤ := 115

/-- The labels of the `switch (errno)` that only ask for patience. -/
def inProgress (errno : ℤ) : Bool := errno = EINTR || errno = EAGAIN || errno = EINPROGRESS

/-- What `::recv` can answer for a buffer of `bufLen` bytes. -/
inductive Recv (bufLen : ℕ) where
  | received (bytes : { bytes : List UInt8 // bytes.length ≤ bufLen })
  | failed (errno : ℤ)

/-- What `::send` can answer for `bufLen` bytes. -/
inductive Send (bufLen : ℕ) where
  | sent (n : Fin (bufLen + 1))
  | failed (errno : ℤ)

/-- `socket::_async_read_some`; `errno` is what it was before the call. -/
def asyncReadSome (fd : FileDescriptor) (errno : ℤ) {bufLen : ℕ} : Recv bufLen → ReadResult bufLen
  | .received bytes =>
    if fd = -1 then .error ⟨"closed socket used", fd, errno⟩
    else if bytes.1 = [] then .error ⟨"zero bytes read in recv", fd, 0⟩
    else .success bytes
  | .failed err =>
    if fd = -1 then .error ⟨"closed socket used", fd, errno⟩
    else if inProgress err then .success ⟨[], Nat.zero_le _⟩
    else .error ⟨"recv failed", fd, err⟩

/-- `errno` after it. -/
def recvErrno (fd : FileDescriptor) (errno : ℤ) {bufLen : ℕ} : Recv bufLen → ℤ
  | .received _ => if fd = -1 then errno else 0
  | .failed err => if fd = -1 then errno else err

/-- `socket::_async_write_some` -/
def asyncWriteSome (fd : FileDescriptor) (errno : ℤ) {bufLen : ℕ} : Send bufLen → WriteResult bufLen
  | .sent n => if fd = -1 then .error ⟨"closed socket used", fd, errno⟩ else .success n
  | .failed err =>
    if fd = -1 then .error ⟨"closed socket used", fd, errno⟩
    else if inProgress err then .success 0
    else .error ⟨"send failed", fd, err⟩

/-- `errno` after it. -/
def sendErrno (fd : FileDescriptor) (errno : ℤ) {bufLen : ℕ} : Send bufLen → ℤ
  | .sent _ => if fd = -1 then errno else 0
  | .failed err => if fd = -1 then errno else err

end Io
end PsqlTcpProxy
