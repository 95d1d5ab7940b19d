import Mathlib.Algebra.Group.Nat.Defs

/-!
# Byte order

`io/endianness.cpp`.  A `const std::byte *` is a memory seen from the pointer,
`ℕ → UInt8`, so a function that reads past the bytes it was given reads
something, and a statement about it has to say what.

The shifts and ors of the source are kept; `decodeUint32Be_toNat` and its
siblings give the numbers they compute.
-/

namespace PsqlTcpProxy
namespace Io

/-- `io::endianness` -/
inductive Endianness where
  | le
  | be
  deriving DecidableEq

/-- `decode_uint32_le` -/
def decodeUint32Le (buffer : ℕ → UInt8) : UInt32 :=
  ((buffer 3).toUInt32 <<< 24) ||| ((buffer 2).toUInt32 <<< 16) |||
    ((buffer 1).toUInt32 <<< 8) ||| (buffer 0).toUInt32

/-- `decode_uint32_be` -/
def decodeUint32Be (buffer : ℕ → UInt8) : UInt32 :=
  ((buffer 0).toUInt32 <<< 24) ||| ((buffer 1).toUInt32 <<< 16) |||
    ((buffer 2).toUInt32 <<< 8) ||| (buffer 3).toUInt32

/-- `decode_uint32` -/
def decodeUint32 (buffer : ℕ → UInt8) (endianness : Endianness) : UInt32 :=
  if endianness = .le then decodeUint32Le buffer else decodeUint32Be buffer

/-- `decode_uint16_le` -/
def decodeUint16Le (buffer : ℕ → UInt8) : UInt16 :=
  ((buffer 1).toUInt16 <<< 8) ||| (buffer 0).toUInt16

/-- `decode_uint16_be` -/
def decodeUint16Be (buffer : ℕ → UInt8) : UInt16 :=
  ((buffer 0).toUInt16 <<< 8) ||| (buffer 1).toUInt16

/-- `decode_uint16` -/
def decodeUint16 (buffer : ℕ → UInt8) (endianness : Endianness) : UInt16 :=
  if endianness = .le then decodeUint16Le buffer else decodeUint16Be buffer

/-! ## The numbers -/

/-- Four bytes, most significant first, as a number. -/
def uint32Of (b₃ b₂ b₁ b₀ : UInt8) : ℕ :=
  ((b₃.toNat * 256 + b₂.toNat) * 256 + b₁.toNat) * 256 + b₀.toNat

theorem uint32Of_lt (b₃ b₂ b₁ b₀ : UInt8) : uint32Of b₃ b₂ b₁ b₀ < 2 ^ 32 := by
  have := b₃.toNat_lt
  have := b₂.toNat_lt
  have := b₁.toNat_lt
  have := b₀.toNat_lt
  unfold uint32Of
  omega

/-- Or-ing a byte into the place a shift has freed adds it. -/
theorem shiftLeft_or_byte {a b : ℕ} (hb : b < 2 ^ 8) : a <<< 8 ||| b = a * 256 + b := by
  rw [← Nat.shiftLeft_add_eq_or_of_lt hb, Nat.shiftLeft_eq]

/-- A byte shifted by at most 24 fits in 32 bits. -/
theorem byte_shiftLeft_mod (b : UInt8) {k : ℕ} (hk : k ≤ 24) :
    b.toNat <<< k % 2 ^ 32 = b.toNat <<< k := by
  have h8 := b.toNat_lt
  refine Nat.mod_eq_of_lt ?_
  rw [Nat.shiftLeft_eq]
  calc b.toNat * 2 ^ k
      < 2 ^ 8 * 2 ^ k := Nat.mul_lt_mul_of_pos_right h8 (Nat.two_pow_pos k)
    _ ≤ 2 ^ 8 * 2 ^ 24 := Nat.mul_le_mul_left _ (Nat.pow_le_pow_right (by decide) hk)
    _ = 2 ^ 32 := by decide

/-- Four bytes shifted into place do not overlap. -/
theorem toNat_shift_or (b₃ b₂ b₁ b₀ : UInt8) :
    ((b₃.toUInt32 <<< 24) ||| (b₂.toUInt32 <<< 16) ||| (b₁.toUInt32 <<< 8) |||
      b₀.toUInt32).toNat = uint32Of b₃ b₂ b₁ b₀ := by
  simp only [UInt32.toNat_or, UInt32.toNat_shiftLeft, UInt8.toNat_toUInt32, UInt32.reduceToNat,
    Nat.reduceMod, byte_shiftLeft_mod _ (Nat.le_refl 24),
    byte_shiftLeft_mod _ (show 16 ≤ 24 by decide), byte_shiftLeft_mod _ (show 8 ≤ 24 by decide)]
  have hhorner : b₃.toNat <<< 24 ||| b₂.toNat <<< 16 ||| b₁.toNat <<< 8 ||| b₀.toNat =
      (((b₃.toNat <<< 8 ||| b₂.toNat) <<< 8 ||| b₁.toNat) <<< 8) ||| b₀.toNat := by
    simp only [Nat.shiftLeft_or_distrib, ← Nat.shiftLeft_add]
  rw [hhorner, shiftLeft_or_byte b₀.toNat_lt, shiftLeft_or_byte b₁.toNat_lt,
    shiftLeft_or_byte b₂.toNat_lt]
  rfl

theorem decodeUint32Le_toNat (buffer : ℕ → UInt8) :
    (decodeUint32Le buffer).toNat = uint32Of (buffer 3) (buffer 2) (buffer 1) (buffer 0) :=
  toNat_shift_or _ _ _ _

theorem decodeUint32Be_toNat (buffer : ℕ → UInt8) :
    (decodeUint32Be buffer).toNat = uint32Of (buffer 0) (buffer 1) (buffer 2) (buffer 3) :=
  toNat_shift_or _ _ _ _

/-! ## What the decoders read -/

theorem decodeUint32Le_congr {buffer buffer' : ℕ → UInt8} (h : ∀ k < 4, buffer k = buffer' k) :
    decodeUint32Le buffer = decodeUint32Le buffer' := by
  simp only [decodeUint32Le, h 0 (by decide), h 1 (by decide), h 2 (by decide), h 3 (by decide)]

theorem decodeUint32Be_congr {buffer buffer' : ℕ → UInt8} (h : ∀ k < 4, buffer k = buffer' k) :
    decodeUint32Be buffer = decodeUint32Be buffer' := by
  simp only [decodeUint32Be, h 0 (by decide), h 1 (by decide), h 2 (by decide), h 3 (by decide)]

theorem decodeUint32_congr {buffer buffer' : ℕ → UInt8} (h : ∀ k < 4, buffer k = buffer' k)
    (endianness : Endianness) :
    decodeUint32 buffer endianness = decodeUint32 buffer' endianness := by
  simp only [decodeUint32, decodeUint32Le_congr h, decodeUint32Be_congr h]

end Io
end PsqlTcpProxy
