import RecordSynth.Comparator
import RecordSynth.Literal
import RecordSynth.Source.ByteRange

/-! Trees of the template language: expressions, statements and function definitions. Each node
carries the byte range from its first token to its last one.
-/

namespace RecordSynth.Source

/-- An expression. -/
inductive Expr where
  | literal (range : ByteRange) (value : Literal)
  | var (range : ByteRange) (name : String)
  | attr (range : ByteRange) (object : Expr) (field : String)
  | call (range : ByteRange) (callee : String) (calleeRange : ByteRange) (args : List Expr)
  | tuple (range : ByteRange) (items : List Expr)
  | compare (range : ByteRange) (op : Comparator) (left right : Expr)
  deriving Inhabited

namespace Expr

/-- Where the expression stands. -/
def range : Expr → ByteRange
  | literal range _ => range
  | var range _ => range
  | attr range _ _ => range
  | call range _ _ _ => range
  | tuple range _ => range
  | compare range _ _ _ => range

/-- The same expression, standing at `range`. -/
def placedAt (range : ByteRange) : Expr → Expr
  | literal _ value => literal range value
  | var _ name => var range name
  | attr _ object field => attr range object field
  | call _ callee calleeRange args => call range callee calleeRange args
  | tuple _ items => tuple range items
  | compare _ op left right => compare range op left right

@[simp] theorem range_placedAt (range : ByteRange) (e : Expr)
    : (e.placedAt range).range = range := by
  cases e <;> rfl

end Expr

/-- A statement. -/
inductive Stmt where
  | assign (range : ByteRange) (object : Expr) (field : String) (value : Expr)
  | giveBack (range : ByteRange) (value : Option Expr)
  | yield (range : ByteRange) (value : Expr)
  | branch (range : ByteRange) (test : Expr) (thenBody elseBody : List Stmt)
  | discard (range : ByteRange) (value : Expr)
  deriving Inhabited

/-- Where the statement stands. -/
def Stmt.range : Stmt → ByteRange
  | assign range _ _ _ => range
  | giveBack range _ => range
  | yield range _ => range
  | branch range _ _ _ => range
  | discard range _ => range

/-- A parameter of a function. -/
structure Param where
  name : String
  range : ByteRange
  deriving DecidableEq, Inhabited

/-- A function definition. -/
structure Definition where
  name : String
  params : List Param
  isGenerator : Bool
  body : List Stmt
  range : ByteRange
  deriving Inhabited

end RecordSynth.Source
