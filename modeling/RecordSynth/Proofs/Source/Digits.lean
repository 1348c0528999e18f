import Mathlib.Data.List.Induction
import RecordSynth.Source.Lexeme

/-! Decimal spelling. Digits without a leading zero and numbers determine each other.
-/

namespace RecordSynth.Source

/-- Digits as they are written: at least one, and no zero before another. -/
structure IsCanonical (digits : List Char) : Prop where
  nonempty : digits ≠ []
  allDigits : ∀ c ∈ digits, c.isDigit = true
  noLeadingZero : digits = ['0'] ∨ digits.head? ≠ some '0'

theorem digitsValue_concat (digits : List Char) (c : Char)
    : digitsValue (digits ++ [c]) = digitsValue digits * 10 + (c.toNat - '0'.toNat) := by
  simp [digitsValue]

theorem digitsValue_toDigits (n : Nat) : digitsValue (Nat.toDigits 10 n) = n := by
  have value : Nat.ofDigitChars 10 (Nat.toDigits 10 n) 0 = n := Nat.ofDigitChars_ten_toDigits
  rw [Nat.ofDigitChars_eq_foldl] at value
  simpa [digitsValue, Nat.mul_comm] using value

theorem toDigits_injective : Function.Injective (Nat.toDigits 10) :=
  Function.LeftInverse.injective digitsValue_toDigits

/-- A digit is worth less than ten, and is the digit of its worth. -/
theorem digitChar_of_isDigit {c : Char} (digit : c.isDigit = true)
    : c.toNat - '0'.toNat < 10 ∧ (c.toNat - '0'.toNat).digitChar = c := by
  obtain ⟨atLeast, atMost⟩ := Char.isDigit_iff_toNat.mp digit
  have nine : '9'.toNat = 57 := rfl
  have zero : '0'.toNat = 48 := rfl
  have small : c.toNat - '0'.toNat < 10 := by omega
  refine ⟨small, ?_⟩
  rw [← Char.toNat_inj, Nat.toNat_digitChar_of_lt_ten small]
  omega

/-- The digits of a positive number begin with no zero, by induction on the number. -/
theorem head_toDigits_ne_zero {n : Nat} (positive : 0 < n)
    : (Nat.toDigits 10 n).head? ≠ some '0' := by
  induction n using Nat.strongRecOn with
  | _ n ih =>
      rw [Nat.toDigits_eq_if (by decide)]
      split
      · next small =>
        intro isZero
        have digit : n.digitChar = '0' := by simpa using isZero
        have worth := Nat.toNat_digitChar_of_lt_ten small
        rw [digit] at worth
        have zero : '0'.toNat = 48 := rfl
        omega
      · next large =>
        have shorter := ih (n / 10) (by omega) (by omega)
        cases isHead : Nat.toDigits 10 (n / 10) with
        | nil => exact absurd isHead Nat.toDigits_ne_nil
        | cons c more =>
            rw [isHead] at shorter
            simpa using shorter

theorem isCanonical_toDigits (n : Nat) : IsCanonical (Nat.toDigits 10 n) := by
  refine ⟨Nat.toDigits_ne_nil, ?_, ?_⟩
  · exact fun c member => Nat.isDigit_of_mem_toDigits (by decide) (by decide) member
  · rcases Nat.eq_zero_or_pos n with rfl | positive
    · exact Or.inl (Nat.toDigits_zero 10)
    · exact Or.inr (head_toDigits_ne_zero positive)

/-- Canonical digits with a first one other than zero write a positive number. -/
theorem digitsValue_pos {digits : List Char} (nonempty : digits ≠ [])
    (allDigits : ∀ c ∈ digits, c.isDigit = true) (noLeadingZero : digits.head? ≠ some '0')
    : 0 < digitsValue digits := by
  induction digits using List.reverseRecOn with
  | nil => exact absurd rfl nonempty
  | append_singleton front c ih =>
      rw [digitsValue_concat]
      cases front with
      | nil =>
          obtain ⟨_, isDigit⟩ := digitChar_of_isDigit (allDigits c (by simp))
          have notZero : c.toNat - '0'.toNat ≠ 0 := by
            intro isZero
            rw [isZero] at isDigit
            exact noLeadingZero (by rw [← isDigit]; rfl)
          omega
      | cons d more =>
          have frontPos := ih nofun (fun e member => allDigits e (List.mem_append_left _ member))
            (by simpa using noLeadingZero)
          omega

/-- Canonical digits are those of the number that they write, by induction from the last one. -/
theorem toDigits_digitsValue {digits : List Char} (canonical : IsCanonical digits)
    : Nat.toDigits 10 (digitsValue digits) = digits := by
  obtain ⟨nonempty, allDigits, noLeadingZero⟩ := canonical
  induction digits using List.reverseRecOn with
  | nil => exact absurd rfl nonempty
  | append_singleton front c ih =>
      obtain ⟨small, isDigit⟩ := digitChar_of_isDigit (allDigits c (by simp))
      rw [digitsValue_concat]
      cases front with
      | nil =>
          have zero : digitsValue [] = 0 := rfl
          rw [zero, Nat.zero_mul, Nat.zero_add, Nat.toDigits_of_lt_base small, isDigit]
          rfl
      | cons d more =>
          have headNotZero : (d :: more).head? ≠ some '0' := by
            rcases noLeadingZero with single | notZero
            · exact absurd single (by simp)
            · simpa using notZero
          have frontDigits : ∀ e ∈ d :: more, e.isDigit = true :=
            fun e member => allDigits e (List.mem_append_left _ member)
          -- The last digit is what remains from the division by ten.
          have frontPos := digitsValue_pos (List.cons_ne_nil d more) frontDigits headNotZero
          have frontSame := ih (List.cons_ne_nil d more) frontDigits (Or.inr headNotZero)
          have quotient : (digitsValue (d :: more) * 10 + (c.toNat - '0'.toNat)) / 10
              = digitsValue (d :: more) := by
            omega
          have remainder : (digitsValue (d :: more) * 10 + (c.toNat - '0'.toNat)) % 10
              = c.toNat - '0'.toNat := by
            omega
          rw [Nat.toDigits_of_base_le (by decide) (by omega), quotient, remainder, frontSame,
            isDigit]

end RecordSynth.Source
