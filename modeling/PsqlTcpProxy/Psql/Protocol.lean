import PsqlTcpProxy.Io.Endianness
import PsqlTcpProxy.Io.Event
import PsqlTcpProxy.Library.Region

/-!
# Messages of the frontend protocol

`psql_proxy/message.cpp`, `psql_proxy/endianness.cpp` and `psql_proxy/protocol/`.
A payload is a memory seen from its first byte, together with a length: nothing
stops a constructor from looking further, and `make_startup_msg` does, by the
four bytes of the protocol version.

A `std::string` is the list of its characters.
-/

namespace PsqlTcpProxy
namespace Psql

open Library Io

/-- The characters of a `std::string`. -/
abbrev Text := List UInt8

/-- `check_endianness_by_uint32`: the guess is that the smaller number is meant. -/
def checkEndiannessByUint32 (buffer : ℕ → UInt8) : Endianness :=
  let le := decodeUint32Le buffer
  let be := decodeUint32Be buffer
  if le ≤ be then .le else .be

/-! ## The messages -/

/-- `configuration_parameter` and `runtime_parameter` -/
structure Parameter where
  name : Text
  value : Text
  deriving DecidableEq

/-- `StartupMessage` -/
structure StartupMessage where
  /-- `protocol_version.major` -/
  major : Int16
  /-- `protocol_version.minor` -/
  minor : Int16
  parameters : List Parameter
  deriving DecidableEq

/-- `ParameterStatus` -/
structure ParameterStatus where
  parameters : List Parameter
  deriving DecidableEq

/-- `Query` -/
structure Query where
  query : Text
  deriving DecidableEq

/-- `psql::message` -/
inductive Message where
  | startup (m : StartupMessage)
  | parameterStatus (m : ParameterStatus)
  | query (m : Query)
  | terminate
  deriving DecidableEq

/-- `StartupMessage::MESSAGE_CODE` -/
def StartupMessage.MESSAGE_CODE : UInt8 := 0
/-- `ParameterStatus::MESSAGE_CODE`, the letter S -/
def ParameterStatus.MESSAGE_CODE : UInt8 := 83
/-- `Query::MESSAGE_CODE`, the letter Q -/
def Query.MESSAGE_CODE : UInt8 := 81
/-- `Terminate::MESSAGE_CODE`, the letter X -/
def Terminate.MESSAGE_CODE : UInt8 := 88

/-! ## Their construction -/

/-- The loop over the parameters, from `params_cur` with `remaining` characters
before `params_end`. -/
def readParameters (mem : ℕ → UInt8) : (remaining cur beg : ℕ) → Option Text → List Parameter
  | 0, _, _, _ => []
  | n + 1, cur, beg, paramName =>
    if mem cur = 0 then
      match paramName with
      | none => readParameters mem n (cur + 1) (cur + 1) (some (region mem beg (cur - beg)))
      | some name =>
        ⟨name, region mem beg (cur - beg)⟩ :: readParameters mem n (cur + 1) (cur + 1) none
    else readParameters mem n (cur + 1) beg paramName

/-- `make_startup_msg`.  `params_end` is `payload_len` characters behind
`params_beg`, not behind `payload`. -/
def makeStartupMsg (payload : ℕ → UInt8) (payloadLen : ℕ) (endianness : Endianness) :
    Except Exception StartupMessage :=
  if payloadLen < 4 then .error (.std "startup message bad length")
  else .ok
    { major := (decodeUint16 payload endianness).toInt16
      minor := (decodeUint16 (fun k => payload (2 + k)) endianness).toInt16
      parameters := readParameters payload payloadLen 4 4 none }

/-- `make_param_status_msg` -/
def makeParamStatusMsg (payload : ℕ → UInt8) (payloadLen : ℕ) : ParameterStatus :=
  { parameters := readParameters payload payloadLen 0 0 none }

/-- The longest `std::string`. -/
def maxStringSize : ℕ := 2 ^ 63 - 1

/-- `make_query_msg`.  In `std::max(0ul, payload_len - 1)` the difference is
unsigned and wraps at zero; `std::string` then refuses the range. -/
def makeQueryMsg (payload : ℕ → UInt8) (payloadLen : ℕ) : Except Exception Query :=
  let len := max 0 ((payloadLen + (2 ^ 64 - 1)) % 2 ^ 64)
  if len ≤ maxStringSize then .ok { query := region payload 0 len }
  else .error (.std "basic_string::_M_create")

/-- `make_message` -/
def makeMessage (msgCode : UInt8) (payload : ℕ → UInt8) (payloadLen : ℕ)
    (endianness : Endianness) : Except Exception (Option Message) :=
  if msgCode = StartupMessage.MESSAGE_CODE then
    (makeStartupMsg payload payloadLen endianness).map fun m => some (.startup m)
  else if msgCode = ParameterStatus.MESSAGE_CODE then
    .ok (some (.parameterStatus (makeParamStatusMsg payload payloadLen)))
  else if msgCode = Query.MESSAGE_CODE then
    (makeQueryMsg payload payloadLen).map fun m => some (.query m)
  else if msgCode = Terminate.MESSAGE_CODE then .ok (some .terminate)
  else .ok none

/-! ## What is constructed -/

theorem checkEndianness_congr {buffer buffer' : ℕ → UInt8} (h : ∀ k < 4, buffer k = buffer' k) :
    checkEndiannessByUint32 buffer = checkEndiannessByUint32 buffer' := by
  simp only [checkEndiannessByUint32, decodeUint32Le_congr h, decodeUint32Be_congr h]

/-- A query text is the payload without its last character. -/
theorem makeQueryMsg_eq {payload : ℕ → UInt8} {n : ℕ} (hpos : 0 < n) (hn : n < 2 ^ 32) :
    makeQueryMsg payload n = .ok { query := region payload 0 (n - 1) } := by
  have hlen : max 0 ((n + (2 ^ 64 - 1)) % 2 ^ 64) = n - 1 := by omega
  simp only [makeQueryMsg, hlen]
  exact if_pos (by unfold maxStringSize; omega)

theorem makeQueryMsg_zero (payload : ℕ → UInt8) :
    makeQueryMsg payload 0 = .error (.std "basic_string::_M_create") := rfl

end Psql
end PsqlTcpProxy
