import RecordSynth.Program.Basic

/-! Placeholders: the names `_0`, `_1`, … that stand for the fields of a record in a template.
Each index has one spelling, and a name spelled otherwise is no placeholder.
-/

namespace RecordSynth

/-- Indices of placeholders are below this bound. -/
def placeholderLimit : Nat := 18446744073709551616

/-- The placeholder of the field at a position. -/
def placeholder (index : Nat) : String :=
  "_" ++ toString index

/-- The index that the digits of a placeholder spell: no leading zero, and in bounds. -/
def indexOfDigits? (digits : List Char) : Option Nat :=
  let canonical := !digits.isEmpty && digits.all Char.isDigit
    && (digits == ['0'] || digits.head? != some '0')
  let value := digits.foldl (fun n c => n * 10 + (c.toNat - '0'.toNat)) 0
  if canonical && value < placeholderLimit then some value else none

/-- The index whose placeholder is `name`. -/
def placeholderIndex? (name : String) : Option Nat :=
  match name.toList with
  | '_' :: digits => indexOfDigits? digits
  | _ => none

end RecordSynth
