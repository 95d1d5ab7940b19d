import PsqlTcpProxy.Psql.Payload

/-!
# The startup message read back

A startup message is a version, in two numbers of two bytes, and a list of parameters that
one more NUL ends.  `startup_decoded` says what `make_startup_msg` makes of one: the two
numbers, the parameters, and after them the parameters that it finds in the four bytes behind
the payload, of which the closing NUL begins the first.  In practice these four bytes are the
front of the client's next packet, or what the last read has left there.
-/

namespace PsqlTcpProxy

namespace Io

/-! ## Numbers of two bytes -/

/-- The bytes of a number, in the given order. -/
def encodeUint16 (v : UInt16) : Endianness → List UInt8
  | .be => [(v >>> 8).toUInt8, v.toUInt8]
  | .le => [v.toUInt8, (v >>> 8).toUInt8]

theorem length_encodeUint16 (v : UInt16) (endianness : Endianness) :
    (encodeUint16 v endianness).length = 2 := by
  cases endianness <;> rfl

/-- The two bytes of a number, shifted into place, are the number. -/
theorem shift_or_uint16 (v : UInt16) :
    ((v >>> 8).toUInt8.toUInt16 <<< 8) ||| v.toUInt8.toUInt16 = v := by
  have hv := v.toNat_lt
  have hhigh : v.toNat >>> 8 % 2 ^ 8 = v.toNat / 256 := by
    rw [Nat.shiftRight_eq_div_pow]
    exact Nat.mod_eq_of_lt (by omega)
  have hplace : (v.toNat / 256) <<< 8 % 2 ^ 16 = (v.toNat / 256) <<< 8 := by
    rw [Nat.shiftLeft_eq]
    exact Nat.mod_eq_of_lt (by omega)
  apply UInt16.toNat_inj.mp
  simp only [UInt16.toNat_or, UInt16.toNat_shiftLeft, UInt8.toNat_toUInt16, UInt16.toNat_toUInt8,
    UInt16.toNat_shiftRight, UInt16.reduceToNat, Nat.reduceMod, hhigh, hplace]
  rw [shiftLeft_or_byte (Nat.mod_lt _ (by decide))]
  omega

/-- **A number is read back** from memory that begins with its bytes. -/
theorem decodeUint16_encode {mem : ℕ → UInt8} {v : UInt16} {endianness : Endianness}
    (h : Library.region mem 0 2 = encodeUint16 v endianness) :
    decodeUint16 mem endianness = v := by
  have hbytes : Library.region mem 0 2 = [mem 0, mem 1] := rfl
  rw [hbytes] at h
  cases endianness with
  | be =>
    obtain ⟨h0, h1⟩ : mem 0 = (v >>> 8).toUInt8 ∧ mem 1 = v.toUInt8 := by
      simpa [encodeUint16] using h
    show ((mem 0).toUInt16 <<< 8) ||| (mem 1).toUInt16 = v
    rw [h0, h1]
    exact shift_or_uint16 v
  | le =>
    obtain ⟨h0, h1⟩ : mem 0 = v.toUInt8 ∧ mem 1 = (v >>> 8).toUInt8 := by
      simpa [encodeUint16] using h
    show ((mem 1).toUInt16 <<< 8) ||| (mem 0).toUInt16 = v
    rw [h0, h1]
    exact shift_or_uint16 v

end Io

namespace Psql

open Library Io

/-! ## The startup message -/

/-- The payload of a startup message. -/
def encodeStartup (major minor : UInt16) (params : List CParameter) (endianness : Endianness) :
    List UInt8 :=
  (encodeUint16 major endianness ++ encodeUint16 minor endianness) ++
    (CParameter.encode params ++ [0])

/-- The parameters come back, and then those of the tail. -/
theorem decodeParameters_append (params : List CParameter) (tail : List UInt8) :
    decodeParameters (CParameter.encode params ++ tail) =
      params.map CParameter.toParameter ++ decodeParameters tail := by
  have hfree : ∀ text ∈ params.flatMap CParameter.texts, (0 : UInt8) ∉ text := by
    intro text htext
    obtain ⟨p, -, hp⟩ := List.mem_flatMap.mp htext
    exact p.nulFree text hp
  have hmap : params.flatMap CParameter.texts =
      (params.map CParameter.toParameter).flatMap fun p => [p.name, p.value] := by
    rw [List.flatMap_map]
    rfl
  rw [decodeParameters, CParameter.encode, fields_terminated_append hfree, hmap]
  exact pairUp_flatMap_append (fun _ => rfl) _ _

/-- The parameters that begin with the closing NUL. -/
def overread (behind : List UInt8) : List Parameter := decodeParameters (0 :: behind)

theorem length_overread (behind : List UInt8) :
    (overread behind).length = (behind.count 0 + 1) / 2 := by
  rw [overread, decodeParameters, length_pairUp, length_fields, List.count_cons_self]

/-- **The startup message is read back**, and with it what is behind it: for both byte orders,
every version and every list of parameters whose names and values contain no NUL, the message
holds the version and the parameters; behind them are at most two others, those of the four
bytes behind the payload, and none if and only if none of these bytes is a NUL. -/
theorem startup_decoded (major minor : UInt16) (params : List CParameter)
    (endianness : Endianness) (beyond : ℕ → UInt8) :
    let payload := encodeStartup major minor params endianness
    let behind := region beyond payload.length 4
    makeStartupMsg (blit beyond 0 payload) payload.length endianness =
        .ok ⟨major.toInt16, minor.toInt16, params.map CParameter.toParameter ++ overread behind⟩ ∧
      (overread behind).length ≤ 2 ∧ (overread behind = [] ↔ 0 ∉ behind) := by
  intro payload behind
  obtain ⟨hversion, hinside⟩ := region_append_inj (region_blit_self beyond 0 payload)
  obtain ⟨hmajor, hminor⟩ := region_append_inj hversion
  have hfour : (encodeUint16 major endianness ++ encodeUint16 minor endianness).length = 4 := by
    rw [List.length_append, length_encodeUint16, length_encodeUint16]
  have hlen : payload.length = (CParameter.encode params ++ [0]).length + 4 := by
    rw [← hfour, Nat.add_comm]
    exact List.length_append
  have houtside : region (blit beyond 0 payload) payload.length 4 = behind :=
    region_blit_of_disjoint (Or.inr (Nat.le_of_eq (Nat.zero_add _)))
  have hparams : region (blit beyond 0 payload) 4 payload.length =
      CParameter.encode params ++ (0 :: behind) := by
    rw [hfour, Nat.zero_add] at hinside
    rw [hlen, region_add, hinside, Nat.add_comm 4, ← hlen, houtside, List.append_assoc]
    rfl
  rw [length_encodeUint16] at hmajor hminor
  rw [length_encodeUint16] at hminor
  have hcount : behind.count 0 ≤ 4 :=
    List.count_le_length.trans (Nat.le_of_eq (length_region beyond payload.length 4))
  refine ⟨?_, ?_, ?_⟩
  · rw [makeStartupMsg_eq (hlen ▸ Nat.le_add_left 4 _), decodeUint16_encode hmajor,
      decodeUint16_encode hminor, hparams, decodeParameters_append]
    rfl
  · rw [length_overread]
    omega
  · rw [← List.length_eq_zero_iff, length_overread, ← List.count_eq_zero]
    omega

/-- The version 3.0 and one parameter, in front of the length of a query. -/
example : makeStartupMsg (blit (fun _ => 0) 0 ([0, 3, 0, 0] ++ [117, 0, 112, 0, 0])) 9 .be =
    .ok ⟨3, 0, [⟨[117], [112]⟩, ⟨[], []⟩, ⟨[], []⟩]⟩ := by rfl

end Psql
end PsqlTcpProxy
