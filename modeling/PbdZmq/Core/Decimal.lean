import Mathlib.Data.Char
import Mathlib.Data.List.Lex
import PbdZmq.Core.Lines

/-!
# Numbers as decimal texts

A number is written without leading zeros. Texts are ordered character by character, so
that a single digit is compared with the leading digit of a number, not with the number.
-/

namespace PbdZmq

/-- The decimal digits of a number. -/
def decimal (n : Nat) : Text := Nat.toDigits 10 n

/-- The first decimal digit of a number. -/
def leadingDigit (n : Nat) : Nat := if n < 10 then n else leadingDigit (n / 10)

/-- A number of one digit is its leading digit. -/
theorem leadingDigit_of_lt {n : Nat} (h : n < 10) : leadingDigit n = n := by
  rw [leadingDigit, if_pos h]

/-- The last digit of a longer number does not lead. -/
theorem leadingDigit_of_le {n : Nat} (h : 10 ≤ n) : leadingDigit n = leadingDigit (n / 10) := by
  rw [leadingDigit, if_neg (by omega)]

/-- The leading digit is a digit. -/
theorem leadingDigit_lt (n : Nat) : leadingDigit n < 10 := by
  induction n using Nat.strongRecOn with
  | _ n ih =>
    by_cases hsmall : n < 10
    · rwa [leadingDigit_of_lt hsmall]
    · rw [leadingDigit_of_le (by omega)]
      exact ih (n / 10) (by omega)

/-- A number starts with its leading digit. -/
theorem decimal_eq_cons (n : Nat) :
    ∃ digits, decimal n = Nat.digitChar (leadingDigit n) :: digits := by
  induction n using Nat.strongRecOn with
  | _ n ih =>
    by_cases hsmall : n < 10
    · exact ⟨[], by rw [decimal, Nat.toDigits_of_lt_base hsmall, leadingDigit_of_lt hsmall]⟩
    · have hlarge : 10 ≤ n := by omega
      obtain ⟨digits, hdigits⟩ := ih (n / 10) (by omega)
      rw [decimal] at hdigits
      refine ⟨digits ++ [Nat.digitChar (n % 10)], ?_⟩
      rw [decimal, Nat.toDigits_of_base_le (by decide) hlarge, hdigits, leadingDigit_of_le hlarge,
        List.cons_append]

/-- Digits are ordered as their characters. -/
theorem digitChar_lt_digitChar_iff {d e : Nat} (hd : d < 10) (he : e < 10) :
    Nat.digitChar d < Nat.digitChar e ↔ d < e := by
  have hto : Nat.digitChar d < Nat.digitChar e ↔
      (Nat.digitChar d).toNat < (Nat.digitChar e).toNat := Iff.rfl
  rw [hto, Nat.toNat_digitChar_of_lt_ten hd, Nat.toNat_digitChar_of_lt_ten he]
  omega

/-- A digit is compared with the leading digit. -/
theorem digit_le_decimal_iff {d : Nat} (h : d < 10) (n : Nat) :
    decimal d ≤ decimal n ↔ d ≤ leadingDigit n := by
  obtain ⟨digits, hdigits⟩ := decimal_eq_cons n
  have hdigit : decimal d = [Nat.digitChar d] := Nat.toDigits_of_lt_base h
  have hless : decimal n < decimal d ↔ leadingDigit n < d := by
    rw [hdigit, hdigits, List.cons_lt_cons_iff, digitChar_lt_digitChar_iff (leadingDigit_lt n) h]
    exact or_iff_left fun htail => List.not_lt_nil digits htail.2
  rw [← not_lt, hless, not_lt]

/-- A number is read back from its digits. -/
theorem decimal_injective : Function.Injective decimal := by
  intro m n h
  have hread := congrArg (fun digits => Nat.ofDigitChars 10 digits 0) h
  simpa only [decimal, Nat.ofDigitChars_toDigits (by decide : 1 < 10) le_rfl] using hread

/-- Every character of a number is a digit. -/
theorem isDigit_of_mem_decimal {c : Char} {n : Nat} (h : c ∈ decimal n) : c.isDigit = true :=
  Nat.isDigit_of_mem_toDigits (by decide) le_rfl h

end PbdZmq
