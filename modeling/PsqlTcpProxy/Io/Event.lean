import Mathlib.Data.Int.Notation
import Mathlib.Data.Nat.Notation

/-!
# Descriptors, flags, errors

The vocabulary that every layer above the bus shares: `io/fd.hpp`,
`io/flags.hpp`, `io/error.hpp`, and the result types of `io/object.hpp`.
-/

namespace PsqlTcpProxy
namespace Io

/-- `io::file_descriptor_t`; `-1` marks a closed socket. -/
abbrev FileDescriptor := ℤ

/-! ## Flags -/

/-- `io::flags`, a set of event bits. -/
structure Flags where
  /-- `_value` -/
  value : UInt8
  deriving DecidableEq

namespace Flags

/-- `flags::empty` -/
def empty : Flags := ⟨0⟩
/-- `flags::in` -/
def in' : Flags := ⟨1⟩
/-- `flags::out` -/
def out : Flags := ⟨2⟩
/-- `flags::inout` -/
def inout : Flags := ⟨3⟩
/-- `flags::error` -/
def error : Flags := ⟨4⟩

/-- `flags::test` -/
def test (fl other : Flags) : Bool :=
  if other.value = 0 then fl.value = 0 else other.value = (fl.value &&& other.value)

/-- `operator|` -/
def or (lh rh : Flags) : Flags := ⟨lh.value ||| rh.value⟩

@[simp] theorem test_out_out : out.test out = true := rfl
@[simp] theorem test_error_error : error.test error = true := rfl
@[simp] theorem test_error_in : error.test in' = false := rfl
@[simp] theorem test_error_out : error.test out = false := rfl
@[simp] theorem test_in_in : in'.test in' = true := rfl
@[simp] theorem test_in_error : in'.test error = false := rfl
@[simp] theorem test_out_in : out.test in' = false := rfl
@[simp] theorem test_out_error : out.test error = false := rfl

end Flags

/-- `bus::event_t`: a descriptor and what happened on it. -/
structure Event where
  /-- `fd` -/
  fd : FileDescriptor
  /-- `flags` -/
  flags : Flags
  deriving DecidableEq

/-! ## Errors -/

/-- `io::error` -/
structure Error where
  /-- `what()` -/
  what : String
  /-- `get_fd()` -/
  fd : FileDescriptor
  /-- `get_errno()` -/
  errno : ℤ
  deriving DecidableEq

/-- What a `catch` ladder of the bus can tell apart: an `io::error`, another
`std::exception`, anything else. -/
inductive Exception where
  | io (err : Error)
  | std (what : String)
  | unknown
  deriving DecidableEq

/-! ## Results of input and output -/

/-- `std::variant<success_result_type, io::error>`. -/
inductive ResultType (β : Type) where
  | success (res : β)
  | error (err : Error)

/-- What a handler sees of `input_object::result_type`: the bytes `buf` points to
(`buf_len` of them), or the error. -/
abbrev InputResult := ResultType (List UInt8)

/-- What `async_read_some(buf, buf_len)` can return: at most `buf_len` bytes. -/
abbrev ReadResult (bufLen : ℕ) := ResultType { bytes : List UInt8 // bytes.length ≤ bufLen }

/-- What `async_write_some(buf, buf_len)` can return: at most `buf_len` bytes
sent. -/
abbrev WriteResult (bufLen : ℕ) := ResultType (Fin (bufLen + 1))

/-- The read result as the handlers get it. -/
def ReadResult.toInput {bufLen : ℕ} : ReadResult bufLen → InputResult
  | .success bytes => .success bytes.1
  | .error err => .error err

/-- The bytes a read delivered. -/
def ResultType.bytes : InputResult → List UInt8
  | .success bytes => bytes
  | .error _ => []

end Io
end PsqlTcpProxy
