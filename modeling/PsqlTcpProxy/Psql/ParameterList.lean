import PsqlTcpProxy.Library.Fields
import PsqlTcpProxy.Psql.Protocol

/-!
# Lists of parameters

`make_param_status_msg` scans its payload once, with the start of the segment it
is in, the cursor, and a name that waits for its value.  `readParameters_eq`
relates the three to a split: the segment is what has been read of the current
field, the pending name is a field that is not paired yet.

What the scan computes is therefore said in two words: the fields that a NUL ends,
two by two.  `paramStatus_decoded` adds that this undoes the encoding.
-/

namespace PsqlTcpProxy
namespace Psql

open Library

/-! ## The reference -/

/-- The parameters that a list of bytes encodes. -/
def decodeParameters (bytes : List UInt8) : List Parameter :=
  pairUp Parameter.mk (fields 0 bytes)

/-- The characters of a string that a NUL can end. -/
structure CString where
  chars : Text
  nulFree : 0 ∉ chars

/-- A parameter whose name and value can be ended by NULs. -/
structure CParameter where
  name : CString
  value : CString

namespace CParameter

/-- The parameter as the messages hold it. -/
def toParameter (p : CParameter) : Parameter := ⟨p.name.chars, p.value.chars⟩

/-- Its two fields. -/
def texts (p : CParameter) : List Text := [p.name.chars, p.value.chars]

theorem nulFree {p : CParameter} : ∀ text ∈ p.texts, 0 ∉ text := by
  intro text htext
  rcases List.mem_cons.mp htext with rfl | htext
  · exact p.name.nulFree
  · rw [List.mem_singleton.mp htext]
    exact p.value.nulFree

/-- Name NUL value NUL, for every parameter. -/
def encode (params : List CParameter) : List UInt8 := terminated 0 (params.flatMap texts)

end CParameter

/-! ## The scan -/

theorem readParameters_of_ne {mem : ℕ → UInt8} {cur : ℕ} (h : mem cur ≠ 0) (n beg : ℕ)
    (pending : Option Text) :
    readParameters mem (n + 1) cur beg pending = readParameters mem n (cur + 1) beg pending := by
  cases pending with
  | none => rw [readParameters, if_neg h]
  | some name => rw [readParameters, if_neg h]

/-- **The scan is a split.**  From `cur` on, inside a segment that began at `beg`
and behind a field that waits for its value, the loop reads the fields that the
split finds there, and pairs them. -/
theorem readParameters_eq (mem : ℕ → UInt8) (remaining cur beg : ℕ) (pending : Option Text)
    (hbeg : beg ≤ cur) :
    readParameters mem remaining cur beg pending =
      pairUp Parameter.mk (pending.toList ++
        ((region mem cur remaining).splitOnPPrepend (· == 0)
          (region mem beg (cur - beg)).reverse).dropLast) := by
  induction remaining generalizing cur beg pending with
  | zero =>
    rw [region_zero, List.splitOnPPrepend_nil]
    cases pending <;> rfl
  | succ n ih =>
    have hregion : region mem cur (n + 1) = mem cur :: region mem (cur + 1) n := by
      rw [Nat.add_comm, region_add]
      rfl
    rw [hregion]
    by_cases hnul : mem cur = 0
    · -- the segment is a whole field: it is the pending name, or the value of one
      have hstart := fun pending => ih (cur + 1) (cur + 1) pending (Nat.le_refl _)
      simp only [Nat.sub_self, region_zero, List.reverse_nil] at hstart
      have hne := List.splitOnPPrepend_ne_nil (· == 0) (region mem (cur + 1) n) []
      rw [List.splitOnPPrepend_cons_pos (p := (· == 0)) (beq_iff_eq.mpr hnul), List.reverse_reverse,
        ← List.splitOnPPrepend_nil_right, List.dropLast_cons_of_ne_nil hne]
      cases pending with
      | none =>
        rw [readParameters, if_pos hnul, hstart]
        rfl
      | some name =>
        rw [readParameters, if_pos hnul, hstart]
        rfl
    · -- the segment grows by one character
      have hgrow : mem cur :: (region mem beg (cur - beg)).reverse =
          (region mem beg (cur + 1 - beg)).reverse := by
        rw [Nat.succ_sub hbeg, region_succ, List.reverse_append, Nat.add_sub_of_le hbeg]
        rfl
      rw [readParameters_of_ne hnul,
        List.splitOnPPrepend_cons_neg (p := (· == 0)) (beq_eq_false_iff_ne.mpr hnul), hgrow]
      exact ih (cur + 1) beg pending (Nat.le_succ_of_le hbeg)

/-- The whole loop, from the first character of the parameters. -/
theorem readParameters_start (mem : ℕ → UInt8) (len beg : ℕ) :
    readParameters mem len beg beg none = decodeParameters (region mem beg len) := by
  rw [readParameters_eq mem len beg beg none (Nat.le_refl _), Nat.sub_self]
  rfl

/-! ## Decoding -/

/-- The reference undoes the encoding, whatever single field is behind it. -/
theorem decodeParameters_encode (params : List CParameter) {t : List UInt8}
    (ht : (fields 0 t).length ≤ 1) :
    decodeParameters (CParameter.encode params ++ t) = params.map CParameter.toParameter := by
  have hfree : ∀ text ∈ params.flatMap CParameter.texts, (0 : UInt8) ∉ text := by
    intro text htext
    obtain ⟨p, -, hp⟩ := List.mem_flatMap.mp htext
    exact p.nulFree text hp
  have hmap : params.flatMap CParameter.texts =
      (params.map CParameter.toParameter).flatMap fun p => [p.name, p.value] := by
    rw [List.flatMap_map]
    rfl
  rw [decodeParameters, CParameter.encode, fields_terminated_append hfree, hmap]
  exact pairUp_flatMap (fun _ => rfl) ht _

/-- The parameters that the constructor finds in a payload. -/
def parametersOf (beyond : ℕ → UInt8) (payload : List UInt8) : List Parameter :=
  (makeParamStatusMsg (blit beyond 0 payload) payload.length).parameters

theorem parametersOf_eq (beyond : ℕ → UInt8) (payload : List UInt8) :
    parametersOf beyond payload = decodeParameters payload := by
  rw [parametersOf, makeParamStatusMsg, readParameters_start, region_blit_self]

/-- **Decoding undoes encoding and equals its reference.**  For every payload, the
parameters are the fields ended by a NUL, two by two, without an odd last one.
Hence a list of names and values that contain no NUL is read back from its
encoding, also with one more NUL behind it. -/
theorem paramStatus_decoded :
    (∀ (payload : ℕ → UInt8) (payloadLen : ℕ),
      (makeParamStatusMsg payload payloadLen).parameters =
        pairUp Parameter.mk (fields 0 (region payload 0 payloadLen))) ∧
      ∀ (beyond : ℕ → UInt8) (params : List CParameter),
        parametersOf beyond (CParameter.encode params) = params.map CParameter.toParameter ∧
          parametersOf beyond (CParameter.encode params ++ [0]) =
            params.map CParameter.toParameter := by
  constructor
  · intro payload payloadLen
    exact readParameters_start payload payloadLen 0
  · intro beyond params
    constructor
    · have hread := decodeParameters_encode params (t := []) (Nat.zero_le 1)
      rwa [List.append_nil, ← parametersOf_eq beyond] at hread
    · rw [parametersOf_eq]
      exact decodeParameters_encode params (t := [0]) (Nat.le_refl 1)

/-- An empty value, an odd field and a tail that no NUL ends. -/
example : decodeParameters [97, 0, 0, 98, 0, 99] = [⟨[97], []⟩] := by decide

end Psql
end PsqlTcpProxy
