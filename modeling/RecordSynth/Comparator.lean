/-! Comparison operators of the template language. -/

namespace RecordSynth

/-- The operators that compare two values: equality, its negation, and identity. -/
inductive Comparator where
  | equal
  | notEqual
  | same
  deriving DecidableEq, Inhabited

end RecordSynth
