import RecordSynth.Number.Binary64

/-! Shortest decimals: the fewest digits that read back as the same floating-point number, nearest
to it among those, and of two equally near ones the larger. Two formats write them.
-/

namespace RecordSynth

/-- A positive decimal: an integer times a power of ten. -/
structure Decimal where
  digits : Nat
  exponent : Int
  deriving DecidableEq, Inhabited

namespace Decimal

/-- An interval of fractions around a middle one, all three over one denominator; the ends
belong to it if `closed`.
-/
structure Interval where
  low : Nat
  middle : Nat
  high : Nat
  denominator : Nat
  closed : Bool

namespace Interval

/-- The reals that read back as a finite positive number: up to halfway to its neighbours, the
halfway points included if the significand is even. The lower neighbour of a power of two is
half as far as the upper one.
-/
def ofBinary64 (x : Binary64) : Interval :=
  let m := 4 * x.significand
  let below := if x.fraction = 0 ∧ 1 < x.exponentBits then 1 else 2
  let exponent := x.exponent - 2
  let up := twoPow exponent.toNat
  let down := twoPow (-exponent).toNat
  ⟨(m - below) * up, m * up, (m + 2) * up, down, x.significand % 2 = 0⟩

/-- Divides an interval by ten to the power `p`. -/
def divPow10 (i : Interval) (p : Int) : Interval :=
  let up := tenPow (-p).toNat
  let down := tenPow p.toNat
  ⟨i.low * up, i.middle * up, i.high * up, i.denominator * down, i.closed⟩

/-- Whether an integer is in the interval. -/
def contains (i : Interval) (n : Nat) : Bool :=
  if i.closed then i.low ≤ n * i.denominator && n * i.denominator ≤ i.high
  else i.low < n * i.denominator && n * i.denominator < i.high

/-- The integer of the interval nearest to its middle, the larger one of two. -/
def nearest? (i : Interval) : Option Nat :=
  let floor := i.middle / i.denominator
  let rest := i.middle % i.denominator
  let down := i.contains floor
  let up := i.contains (floor + 1)
  if down && (!up || 2 * rest < i.denominator) then some floor
  else if up then some (floor + 1)
  else none

end Interval

/-- How many decimal digits the integral part of a fraction has; for one below one, minus the
number of zeros behind its point. The search for these zeros starts at `zeros` and takes at
most `fuel` steps.
-/
def magnitudeFrom (numerator denominator zeros : Nat) : Nat → Int
  | 0 => -(zeros : Int)
  | fuel + 1 =>
    if denominator ≤ numerator * 10 then -(zeros : Int)
    else magnitudeFrom (numerator * 10) denominator (zeros + 1) fuel

/-- The power of ten just above a positive fraction, as its exponent. -/
def magnitude (numerator denominator : Nat) : Int :=
  let whole := numerator / denominator
  if whole = 0 then magnitudeFrom numerator denominator 0 400
  else (toString whole).length

/-- A decimal without zeros at its end. -/
def stripZeros (digits : Nat) (exponent : Int) : Nat → Decimal
  | 0 => ⟨digits, exponent⟩
  | fuel + 1 =>
    if digits % 10 = 0 then stripZeros (digits / 10) (exponent + 1) fuel
    else ⟨digits, exponent⟩

/-- The first decimal with `count` digits or more that is in the interval; `fuel` bounds the
number of digits tried after it.
-/
def shortestFrom (i : Interval) (magnitude : Int) (count : Nat) : Nat → Decimal
  | 0 => ⟨0, 0⟩
  | fuel + 1 =>
    let unit := magnitude - count
    match (i.divPow10 unit).nearest? with
    | some digits => stripZeros digits unit count
    | none => shortestFrom i magnitude (count + 1) fuel

/-- The shortest decimal of a finite positive number; seventeen digits are always enough. -/
def shortest (x : Binary64) : Decimal :=
  let i := Interval.ofBinary64 x
  shortestFrom i (magnitude i.middle i.denominator) 1 17

/-- The position of the point, counted from the front of the digits. -/
def point (d : Decimal) : Int :=
  (toString d.digits).length + d.exponent

/-- `n` zeros. -/
def zeros (n : Nat) : String :=
  String.ofList (List.replicate n '0')

/-- The decimal without an exponent. -/
def positional (d : Decimal) : String :=
  let digits := toString d.digits
  if 0 ≤ d.exponent then digits ++ zeros d.exponent.toNat
  else if 0 < d.point then
    let front := d.point.toNat
    String.ofList (digits.toList.take front) ++ "." ++ String.ofList (digits.toList.drop front)
  else "0." ++ zeros (-d.point).toNat ++ digits

/-- The decimal with one digit before its point and an exponent, which has a sign and at least
two digits.
-/
def scientific (d : Decimal) : String :=
  let digits := (toString d.digits).toList
  let power := d.point - 1
  let magnitude := toString power.natAbs
  String.ofList (digits.take 1)
    ++ (if digits.length ≤ 1 then "" else "." ++ String.ofList (digits.drop 1))
    ++ "e" ++ (if power < 0 then "-" else "+") ++ zeros (2 - magnitude.length) ++ magnitude

end Decimal

namespace Binary64

/-- The sign in front of a number's text. -/
def sign (x : Binary64) : String :=
  if x.isNegative then "-" else ""

/-- The text of a floating-point value. Magnitudes from a ten-thousandth up to, not including,
ten to the sixteenth are written without an exponent, integers with a zero behind the point.
-/
def display (x : Binary64) : String :=
  if x.isNaN then "nan"
  else if x.isSpecial then x.sign ++ "inf"
  else if x.isZero then x.sign ++ "0.0"
  else
    let d := Decimal.shortest x
    if d.point ≤ -4 ∨ 16 < d.point then x.sign ++ d.scientific
    else if 0 ≤ d.exponent then x.sign ++ d.positional ++ ".0"
    else x.sign ++ d.positional

/-- The inspected form of a floating-point value: never with an exponent, and integers without
a point.
-/
def inspect (x : Binary64) : String :=
  if x.isNaN then "NaN"
  else if x.isSpecial then x.sign ++ "inf"
  else if x.isZero then x.sign ++ "0"
  else x.sign ++ (Decimal.shortest x).positional

end Binary64

end RecordSynth
