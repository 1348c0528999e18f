/-! Literals: the values that a source text can write down and a program keeps as constants. -/

namespace RecordSynth

/-- A constant of a source text. -/
inductive Literal where
  | none
  | notApplicable
  | bool (b : Bool)
  | int (n : Int64)
  | str (text : String)
  deriving DecidableEq, Hashable, Inhabited

end RecordSynth
