import Mathlib.Algebra.Group.Nat.Defs
import Mathlib.Data.List.Basic

/-!
# Decimal numerals

`decimal` writes a number without leading zeros.  `readDecimal` reads the number at the
front of a text and does not look at what follows its digits; `readDecimal_append` says that
it reads what was written.
-/

namespace PsqlTcpProxy
namespace Library

/-- The front of a text ends where the predicate first fails. -/
theorem takeWhile_append_of_head {α : Type*} {p : α → Bool} {l rest : List α}
    (hl : ∀ a ∈ l, p a = true) (hrest : ∀ a ∈ rest.head?, p a = false) :
    (l ++ rest).takeWhile p = l := by
  rw [List.takeWhile_append_of_pos hl]
  cases rest with
  | nil => exact List.append_nil l
  | cons a rest =>
    have hfails : ¬ p a = true := by
      rw [hrest a rfl]
      exact Bool.false_ne_true
    rw [List.takeWhile_cons_of_neg hfails]
    exact List.append_nil l

/-- The digits of a number. -/
def decimal (n : ℕ) : List Char := Nat.toDigits 10 n

/-- The number that the digits at the front of a text write, if there are any. -/
def readDecimal (s : List Char) : Option ℕ :=
  let digits := s.takeWhile Char.isDigit
  if digits = [] then none else some (Nat.ofDigitChars 10 digits 0)

theorem isDigit_of_mem_decimal {n : ℕ} {c : Char} (hc : c ∈ decimal n) : c.isDigit = true :=
  Nat.isDigit_of_mem_toDigits (by decide) (by decide) hc

theorem notMem_decimal {n : ℕ} {c : Char} (hc : c.isDigit = false) : c ∉ decimal n := by
  intro hmem
  rw [isDigit_of_mem_decimal hmem] at hc
  cases hc

theorem decimal_ne_nil (n : ℕ) : decimal n ≠ [] := Nat.toDigits_ne_nil

theorem length_decimal_le_iff {n k : ℕ} (hk : 0 < k) : (decimal n).length ≤ k ↔ n < 10 ^ k :=
  Nat.length_toDigits_le_iff (by decide) hk

/-- **What was written is read**, if no digit follows it. -/
theorem readDecimal_append (n : ℕ) {rest : List Char}
    (hrest : ∀ c ∈ rest.head?, c.isDigit = false) : readDecimal (decimal n ++ rest) = some n := by
  have hdigits : (decimal n ++ rest).takeWhile Char.isDigit = decimal n :=
    takeWhile_append_of_head (fun c hc => isDigit_of_mem_decimal hc) hrest
  rw [readDecimal, hdigits]
  simp only [if_neg (decimal_ne_nil n)]
  exact congrArg some Nat.ofDigitChars_ten_toDigits

theorem readDecimal_decimal (n : ℕ) : readDecimal (decimal n) = some n := by
  have h : readDecimal (decimal n ++ []) = some n := readDecimal_append n nofun
  rwa [List.append_nil] at h

end Library
end PsqlTcpProxy
