import RecordSynth.Number.Power

/-! Binary floating-point numbers of 64 bits, told apart by their bits. Values are exact: a finite
number is a significand times a power of two, and all arithmetic is on integers.
-/

namespace RecordSynth

/-- A floating-point number: a sign bit, eleven exponent bits and 52 fraction bits. -/
structure Binary64 where
  bits : UInt64
  deriving DecidableEq, Inhabited

namespace Binary64

/-- Whether the sign bit is set. -/
def isNegative (x : Binary64) : Bool :=
  twoPow 63 ≤ x.bits.toNat

/-- The exponent bits. -/
def exponentBits (x : Binary64) : Nat :=
  x.bits.toNat / twoPow 52 % twoPow 11

/-- The fraction bits. -/
def fraction (x : Binary64) : Nat :=
  x.bits.toNat % twoPow 52

/-- The bits without the sign. -/
def magnitudeBits (x : Binary64) : Nat :=
  x.bits.toNat % twoPow 63

/-- Whether the number is an infinity or no number. -/
def isSpecial (x : Binary64) : Bool :=
  x.exponentBits == 2047

/-- Whether it is no number. -/
def isNaN (x : Binary64) : Bool :=
  x.isSpecial && x.fraction != 0

/-- Whether it is a zero of either sign. -/
def isZero (x : Binary64) : Bool :=
  x.magnitudeBits == 0

/-- Numerical equality: nothing equals what is no number, and the two zeros are equal. -/
def equals (x y : Binary64) : Bool :=
  !x.isNaN && !y.isNaN && (x == y || (x.isZero && y.isZero))

/-- The significand of a finite number. -/
def significand (x : Binary64) : Nat :=
  if x.exponentBits = 0 then x.fraction else twoPow 52 + x.fraction

/-- The exponent of a finite number: its magnitude is the significand times two to this. -/
def exponent (x : Binary64) : Int :=
  if x.exponentBits = 0 then -1074 else (x.exponentBits : Int) - 1075

/-- `n` divided by two to the power `k`, rounded to the nearest integer, ties to even. -/
def shiftRounded (n k : Nat) : Nat :=
  let unit := twoPow k
  let q := n / unit
  let r := n % unit
  if 2 * r < unit then q
  else if unit < 2 * r then q + 1
  else if q % 2 = 0 ∨ k = 0 then q
  else q + 1

/-- The bits of the positive number nearest to `n`, ties to even. A significand that is rounded
up to the next power of two carries into the exponent.
-/
def magnitudeOfNat (n : Nat) : Nat :=
  if n = 0 then 0
  else
    let top := n.log2
    let significand :=
      if top ≤ 52 then n * twoPow (52 - top) else shiftRounded n (top - 52)
    (top + 1022) * twoPow 52 + significand

/-- The number nearest to an integer, ties to even. -/
def ofInt64 (n : Int64) : Binary64 :=
  let magnitude := magnitudeOfNat n.toInt.natAbs
  ⟨UInt64.ofNat (if n.toInt < 0 then twoPow 63 + magnitude else magnitude)⟩

/-- The integer that a finite number is, if it is one. -/
def toInt? (x : Binary64) : Option Int :=
  if x.isSpecial then none
  else
    let signed (n : Nat) : Int := if x.isNegative then -(n : Int) else n
    if 0 ≤ x.exponent then some (signed (x.significand * twoPow x.exponent.toNat))
    else
      let unit := twoPow (-x.exponent).toNat
      if x.significand % unit = 0 then some (signed (x.significand / unit)) else none

/-- The 64-bit integer nearest to an integer. -/
def clampInt64 (n : Int) : Int64 :=
  Int64.ofInt (max Int64.minValue.toInt (min n Int64.maxValue.toInt))

/-- The 64-bit integer that the number counts as: the nearest one to an integral number, if
converting it back gives an equal number.
-/
def toInt64? (x : Binary64) : Option Int64 :=
  match x.toInt? with
  | none => none
  | some n =>
    let nearest := clampInt64 n
    if (ofInt64 nearest).equals x then some nearest else none

end Binary64

end RecordSynth
