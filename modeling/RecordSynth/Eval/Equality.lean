import RecordSynth.Eval.Call

/-! Equality: a value is compared with another by what the one says, then by what the other says,
and at last by identity. Records say what their equality behavior gives back.
-/

namespace RecordSynth

/-- The outcome of a comparison. The last one leaves the decision to others. -/
inductive Comparison where
  | equal
  | notEqual
  | notApplicable
  deriving DecidableEq, Inhabited

namespace Comparison

/-- The outcome of a comparison that is concerned. -/
def ofBool (b : Bool) : Comparison :=
  if b then equal else notEqual

/-- What a value given back by an equality behavior says. -/
def ofValue : Value → Comparison
  | .notApplicable => notApplicable
  | value => ofBool value.isTruthy

/-- The name of the outcome. -/
def label : Comparison → String
  | equal => "Equal"
  | notEqual => "NotEqual"
  | notApplicable => "NotApplicable"

end Comparison

/-- A value as a number. Truth values count as zero and one. -/
inductive Numeric where
  | int (n : Int64)
  | float (x : Binary64)

namespace Numeric

/-- The number that a value counts as. -/
def ofValue? : Value → Option Numeric
  | .bool b => some (.int (if b then 1 else 0))
  | .int n => some (.int n)
  | .float x => some (.float x)
  | _ => none

/-- Equality of numbers. An integer is compared with a float as the float nearest to it. -/
def equals : Numeric → Numeric → Bool
  | int a, int b => a == b
  | float a, float b => a.equals b
  | int a, float b => (Binary64.ofInt64 a).equals b
  | float a, int b => (Binary64.ofInt64 b).equals a

end Numeric

namespace Protocol

/-- Whether two tuples of one length are equal item by item: items made at once are, and of
others the first unequal pair decides.
-/
def equalItems (p : Protocol) : List Value → List Value → Eval Bool
  | a :: as, b :: bs => do
    if a.sharesAllocation b then equalItems p as bs
    else if ← p.equals a b then equalItems p as bs
    else return false
  | _, _ => return true

/-- Compares a value that is no record with another. -/
def compareBuiltin (p : Protocol) (left right : Value) : Eval Comparison := do
  match Numeric.ofValue? left, Numeric.ofValue? right with
  | some a, some b => return .ofBool (a.equals b)
  | _, _ =>
    match left, right with
    | .str _ a, .str _ b => return .ofBool (a == b)
    | .tuple _ as, .tuple _ bs =>
      if as.length = bs.length then return .ofBool (← equalItems p as bs)
      else return .notEqual
    | .none, .none => return .equal
    | .notApplicable, .notApplicable => return .equal
    | .type a, .type b => return .ofBool (a == b)
    | _, _ => return .notApplicable

/-- Compares a value with another by what the first one says, given how the values inside are
compared. A record without an equality behavior equals itself and is not concerned with others.
-/
def compare (p : Protocol) (left right : Value) : Eval Comparison := do
  match left with
  | .record id =>
    match ← Eval.ask (·.methodOf? id .equality) with
    | some method => return .ofValue (← method.call p #[left, right])
    | none => return if left.isIdentical right then .equal else .notApplicable
  | _ => compareBuiltin p left right

/-- Whether two values are equal: the left one is asked, then the right one, and where neither
is concerned, they are equal if they are identical.
-/
def equalsLayer (p : Protocol) (left right : Value) : Eval Bool := do
  match ← compare p left right with
  | .equal => return true
  | .notEqual => return false
  | .notApplicable =>
    match ← compare p right left with
    | .equal => return true
    | .notEqual => return false
    | .notApplicable => return left.isIdentical right

end Protocol

end RecordSynth
