import PsqlTcpProxy.Psql.ParameterList

/-!
# What the constructors read

`make_message` gets a pointer and a length.  A constructor stays inside its
payload when two memories that agree on the payload give the same result, whatever
is before and behind it.

`makeMessage_confined_iff` says when that is so.  `make_startup_msg` lets the
parameters, which begin behind the version, end as far behind `params_beg` as the
payload is long, and so reads four bytes too many; and `make_query_msg` guards
its `payload_len - 1` by a maximum that the unsigned difference never needs, so
an empty payload is refused instead of giving an empty query.
-/

namespace PsqlTcpProxy
namespace Psql

open Library Io

/-- The result does not depend on the memory around the payload, and a query is
its payload without the last character. -/
def ReadsPayload (msgCode : UInt8) (payload : ℕ → UInt8) (payloadLen : ℕ)
    (endianness : Endianness) : Prop :=
  (∀ payload' : ℕ → UInt8, (∀ k < payloadLen, payload k = payload' k) →
    makeMessage msgCode payload payloadLen endianness =
      makeMessage msgCode payload' payloadLen endianness) ∧
    (msgCode = Query.MESSAGE_CODE →
      makeMessage msgCode payload payloadLen endianness =
        .ok (some (.query { query := region payload 0 (payloadLen - 1) })))

/-- Neither a startup message with a version, nor a query that is empty or that no
string can hold. -/
def PayloadCovered (msgCode : UInt8) (payloadLen : ℕ) : Prop :=
  (msgCode = StartupMessage.MESSAGE_CODE → payloadLen < 4) ∧
    (msgCode = Query.MESSAGE_CODE → 0 < payloadLen ∧ payloadLen - 1 ≤ maxStringSize)

/-! ## Each constructor -/

section

variable {payload payload' : ℕ → UInt8} {n : ℕ}

/-- A startup message with a version is made. -/
theorem makeStartupMsg_eq (h : 4 ≤ n) (endianness : Endianness) :
    makeStartupMsg payload n endianness = .ok
      { major := (decodeUint16 payload endianness).toInt16
        minor := (decodeUint16 (fun k => payload (2 + k)) endianness).toInt16
        parameters := decodeParameters (region payload 4 n) } := by
  rw [makeStartupMsg, if_neg (Nat.not_lt.mpr h), readParameters_start]

theorem makeStartupMsg_short (h : n < 4) (endianness : Endianness) :
    makeStartupMsg payload n endianness = .error (.std "startup message bad length") := if_pos h

theorem makeParamStatusMsg_congr (h : ∀ k < n, payload k = payload' k) :
    makeParamStatusMsg payload n = makeParamStatusMsg payload' n := by
  have hregion : region payload 0 n = region payload' 0 n :=
    region_congr fun k _ hk => h k (by omega)
  simp only [makeParamStatusMsg, readParameters_start, hregion]

/-- The length of a query text, for lengths that `std::size_t` has. -/
theorem makeQueryMsg_of_pos (hpos : 0 < n) (hn : n < 2 ^ 64) :
    makeQueryMsg payload n =
      if n - 1 ≤ maxStringSize then .ok { query := region payload 0 (n - 1) }
      else .error (.std "basic_string::_M_create") := by
  have hlen : max 0 ((n + (2 ^ 64 - 1)) % 2 ^ 64) = n - 1 := by omega
  simp only [makeQueryMsg, hlen]

theorem makeQueryMsg_congr (h : ∀ k < n, payload k = payload' k) (hn : n < 2 ^ 64) :
    makeQueryMsg payload n = makeQueryMsg payload' n := by
  rcases Nat.eq_zero_or_pos n with rfl | hpos
  · rw [makeQueryMsg_zero, makeQueryMsg_zero]
  · have hregion : region payload 0 (n - 1) = region payload' 0 (n - 1) :=
      region_congr fun k _ hk => h k (by omega)
    rw [makeQueryMsg_of_pos hpos hn, makeQueryMsg_of_pos hpos hn, hregion]

/-- When a query's text comes out. -/
theorem makeQueryMsg_eq_iff (hn : n < 2 ^ 64) :
    makeQueryMsg payload n = .ok { query := region payload 0 (n - 1) } ↔
      0 < n ∧ n - 1 ≤ maxStringSize := by
  rcases Nat.eq_zero_or_pos n with rfl | hpos
  · rw [makeQueryMsg_zero]
    simp
  · rw [makeQueryMsg_of_pos hpos hn]
    constructor
    · intro h
      split at h
      · rename_i hfits
        exact ⟨hpos, hfits⟩
      · cases h
    · intro h
      exact if_pos h.2

/-! ## The bytes behind a startup message -/

/-- What `params_end` lets the loop read of a payload with `tail` behind it. -/
theorem region_behind (h : 4 ≤ n) {tail : List UInt8} (htail : tail.length = 4) :
    region (blit payload n tail) 4 n = region payload 4 (n - 4) ++ tail := by
  have happend := region_blit_append payload 4 (n - 4) tail
  rwa [htail, Nat.add_sub_of_le h, Nat.sub_add_cancel h] at happend

/-- The number of parameters depends on the four bytes behind the payload. -/
theorem startup_parameters_ne (h : 4 ≤ n) :
    decodeParameters (region (blit payload n [0, 0, 0, 0]) 4 n) ≠
      decodeParameters (region (blit payload n [1, 1, 1, 1]) 4 n) := by
  intro heq
  have hlen := congrArg List.length heq
  rw [decodeParameters, decodeParameters, length_pairUp, length_pairUp, length_fields,
    length_fields, region_behind h rfl, region_behind h rfl, List.count_append,
    List.count_append] at hlen
  have hzeros : List.count (0 : UInt8) [0, 0, 0, 0] = 4 := rfl
  have hones : List.count (0 : UInt8) [1, 1, 1, 1] = 0 := rfl
  omega

/-- Behind every startup message there is something that changes it. -/
theorem startup_reads_behind (h : 4 ≤ n) (endianness : Endianness) :
    ∃ payload' : ℕ → UInt8, (∀ k < n, payload k = payload' k) ∧
      makeStartupMsg payload n endianness ≠ makeStartupMsg payload' n endianness := by
  by_contra hsame
  push Not at hsame
  have hmake := fun tail => hsame (blit payload n tail) fun k hk => (blit_of_lt hk).symm
  have heq := (hmake [0, 0, 0, 0]).symm.trans (hmake [1, 1, 1, 1])
  rw [makeStartupMsg_eq h, makeStartupMsg_eq h] at heq
  injection heq with heq
  injection heq with _ _ heq
  exact startup_parameters_ne h heq

end

/-! ## All of them -/

theorem makeMessage_startup (payload : ℕ → UInt8) (n : ℕ) (endianness : Endianness) :
    makeMessage StartupMessage.MESSAGE_CODE payload n endianness =
      (makeStartupMsg payload n endianness).map fun m => some (.startup m) := rfl

theorem makeMessage_query (payload : ℕ → UInt8) (n : ℕ) (endianness : Endianness) :
    makeMessage Query.MESSAGE_CODE payload n endianness =
      (makeQueryMsg payload n).map fun m => some (.query m) := rfl

/-- Apart from startup messages, the payload determines the result. -/
theorem makeMessage_congr {msgCode : UInt8} {payload payload' : ℕ → UInt8} {n : ℕ}
    (hstartup : msgCode = StartupMessage.MESSAGE_CODE → n < 4) (hn : n < 2 ^ 64)
    (h : ∀ k < n, payload k = payload' k) (endianness : Endianness) :
    makeMessage msgCode payload n endianness = makeMessage msgCode payload' n endianness := by
  unfold makeMessage
  by_cases hcode : msgCode = StartupMessage.MESSAGE_CODE
  · rw [if_pos hcode, if_pos hcode, makeStartupMsg_short (hstartup hcode),
      makeStartupMsg_short (hstartup hcode)]
  · rw [if_neg hcode, if_neg hcode, makeParamStatusMsg_congr h, makeQueryMsg_congr h hn]

/-- **When a message is made from its payload alone.**  For every type byte, every
payload of every length and both byte orders: the memory around the payload does
not matter and a query yields its text, if and only if the packet is not a startup
message of at least four bytes, and, if it is a query, not empty and not longer than a
string can be. -/
theorem makeMessage_confined_iff (msgCode : UInt8) (payload : ℕ → UInt8) (payloadLen : UInt64)
    (endianness : Endianness) :
    ReadsPayload msgCode payload payloadLen.toNat endianness ↔
      PayloadCovered msgCode payloadLen.toNat := by
  have hn : payloadLen.toNat < 2 ^ 64 := payloadLen.toNat_lt
  generalize payloadLen.toNat = n at hn
  have hquery : msgCode = Query.MESSAGE_CODE →
      (makeMessage msgCode payload n endianness =
          .ok (some (.query { query := region payload 0 (n - 1) })) ↔
        0 < n ∧ n - 1 ≤ maxStringSize) := by
    rintro rfl
    rw [makeMessage_query, ← @makeQueryMsg_eq_iff payload n hn]
    rcases makeQueryMsg payload n with err | m <;> simp [Except.map]
  constructor
  · rintro ⟨hconfined, htext⟩
    constructor
    · rintro rfl
      by_contra hfour
      obtain ⟨payload', hagree, hne⟩ :=
        @startup_reads_behind payload n (Nat.not_lt.mp hfour) endianness
      have hsame := hconfined payload' hagree
      rw [makeMessage_startup, makeMessage_startup, makeStartupMsg_eq (Nat.not_lt.mp hfour),
        makeStartupMsg_eq (Nat.not_lt.mp hfour)] at hsame
      rw [makeStartupMsg_eq (Nat.not_lt.mp hfour), makeStartupMsg_eq (Nat.not_lt.mp hfour)] at hne
      injection hsame with hsame
      injection hsame with hsame
      injection hsame with hsame
      exact hne (congrArg Except.ok hsame)
    · intro hcode
      exact (hquery hcode).mp (htext hcode)
  · rintro ⟨hstartup, hlen⟩
    constructor
    · intro payload' hagree
      exact makeMessage_congr hstartup hn hagree endianness
    · intro hcode
      exact (hquery hcode).mpr (hlen hcode)

/-- **A message that is not made from its payload alone.**  Of the startup message
00 03 00 00, zeros behind it make two parameters; and an empty query throws. -/
theorem startup_reads_beyond_payload :
    ¬ (∀ (msgCode : UInt8) (payload : ℕ → UInt8) (payloadLen : UInt64) (endianness : Endianness),
        ReadsPayload msgCode payload payloadLen.toNat endianness) ∧
      makeMessage 0 (blit (fun _ => 0) 0 [0, 3, 0, 0]) 4 .be =
        .ok (some (.startup ⟨3, 0, [⟨[], []⟩, ⟨[], []⟩]⟩)) ∧
      makeMessage 0 (blit (fun _ => 1) 0 [0, 3, 0, 0]) 4 .be = .ok (some (.startup ⟨3, 0, []⟩)) ∧
      makeMessage 81 (fun _ => 0) 0 .be = .error (.std "basic_string::_M_create") := by
  have hzeros : makeMessage 0 (blit (fun _ => 0) 0 [0, 3, 0, 0]) 4 .be =
      .ok (some (.startup ⟨3, 0, [⟨[], []⟩, ⟨[], []⟩]⟩)) := by rfl
  have hones : makeMessage 0 (blit (fun _ => 1) 0 [0, 3, 0, 0]) 4 .be =
      .ok (some (.startup ⟨3, 0, []⟩)) := by rfl
  refine ⟨fun h => ?_, hzeros, hones, rfl⟩
  have hsame := (h 0 (blit (fun _ => 0) 0 [0, 3, 0, 0]) 4 .be).1
    (blit (fun _ => 1) 0 [0, 3, 0, 0]) (by decide)
  rw [show (4 : UInt64).toNat = 4 from rfl, hzeros, hones] at hsame
  injection hsame with hsame
  injection hsame with hsame
  injection hsame with hsame
  injection hsame with _ _ hsame
  exact List.cons_ne_nil _ _ hsame

end Psql
end PsqlTcpProxy
