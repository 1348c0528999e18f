import RecordSynth.Eval.Basic
import RecordSynth.Source.Tree

/-! Direct evaluation of definitions: the meaning of the trees without instructions, operands and
tables. Nothing of the machine is used. Comparisons and functions have a meaning of their own, over
the heap and the operations of a protocol.
-/

namespace RecordSynth.Source

/-- What a body is evaluated in: the operations on values, where the text constants are, the
values of the parameters, and whether the body yields.
-/
structure Scope where
  protocol : Protocol
  pool : String → Address
  bindings : List (String × Value)
  isGenerator : Bool

/-- What execution leads to: the next statement, with what has been yielded so far, or the end of
the call.
-/
inductive Outcome where
  | next (yielded : List Value)
  | back (value : Value)

/-- The value of a constant. One text is one allocation, however often it is written. -/
def constantOf (pool : String → Address) : Literal → Value
  | .none => .none
  | .notApplicable => .notApplicable
  | .bool b => .bool b
  | .int n => .int n
  | .str text => .str (pool text) text

/-- What tells values apart that may be equal: of texts and tuples where they were made, of records
and types which they are, and of all others the values themselves, floats bit for bit.
-/
inductive Identity where
  | none
  | notApplicable
  | bool (b : Bool)
  | int (n : Int64)
  | float (x : Binary64)
  | text (address : Address)
  | tuple (address : Address)
  | record (id : RecordId)
  | type (ref : TypeRef)
  deriving DecidableEq

/-- The identity of a value. -/
def identityOf : Value → Identity
  | .none => .none
  | .notApplicable => .notApplicable
  | .bool b => .bool b
  | .int n => .int n
  | .float x => .float x
  | .str address _ => .text address
  | .tuple address _ => .tuple address
  | .record id => .record id
  | .type ref => .type ref

namespace Scope

/-- The value of a parameter. -/
def valueOf? (scope : Scope) (name : String) : Eval Value :=
  match scope.bindings.lookup name with
  | some value => return value
  | none => Eval.fail (.custom ("no parameter " ++ name))

/-- The text that a value contributes to a joined text: a string its characters, another value
its display.
-/
def textOf (scope : Scope) (value : Value) : Eval String :=
  match value with
  | .str _ text => return text
  | value => scope.protocol.display value

/-- The texts of values, one after the other. -/
def joined (scope : Scope) : List Value → Eval String
  | [] => return ""
  | value :: rest => do
    let text ← scope.textOf value
    let more ← scope.joined rest
    return text ++ more

/-- What a call of a function leads to, given the values of the arguments. -/
def apply (scope : Scope) (callee : String) (args : List Value) : Eval Value := do
  match callee, args with
  | "concat", parts => Eval.newStr (← scope.joined parts)
  | "type", [value] => return .type (← Eval.ask (·.typeRef value))
  | "typename", [value] =>
    let type ← Eval.ask (·.typeRef value)
    Eval.newStr (← Eval.ask (·.types.refName type))
  | "repr", [value] => Eval.newStr (← scope.protocol.display value)
  | "hash", [value] => return .int (← scope.protocol.hash value).toInt64
  | _, _ => Eval.fail (.custom ("no function " ++ callee))

/-- Whether a comparison of two values holds: equality, its negation, or identity. -/
def holds (scope : Scope) (op : Comparator) (left right : Value) : Eval Bool :=
  match op with
  | .equal => scope.protocol.equals left right
  | .notEqual => (fun equal => !equal) <$> scope.protocol.equals left right
  | .same => return identityOf left = identityOf right

/-- Ends a call with a value, or a generator's call with what it has yielded. -/
def finish (scope : Scope) (yielded : List Value) (value : Value) : Eval Value :=
  if scope.isGenerator then Eval.newTuple yielded else return value

end Scope

mutual

/-- The value of an expression. -/
def Expr.evaluate (scope : Scope) : Expr → Eval Value
  | .literal _ value => return constantOf scope.pool value
  | .var _ name => scope.valueOf? name
  | .attr _ object field => do
    let object ← object.evaluate scope
    Eval.getAttr object field
  | .call _ callee _ args =>
    match callee, args with
    | "nameof", [.var _ name] => Eval.newStr name
    | callee, args => do
      let args ← Expr.evaluateAll scope args
      scope.apply callee args
  | .tuple _ items => do
    let items ← Expr.evaluateAll scope items
    Eval.newTuple items
  | .compare _ op left right => do
    let left ← left.evaluate scope
    let right ← right.evaluate scope
    return .bool (← scope.holds op left right)

/-- The values of expressions, from left to right. -/
def Expr.evaluateAll (scope : Scope) : List Expr → Eval (List Value)
  | [] => return []
  | x :: xs => do
    let value ← x.evaluate scope
    let values ← Expr.evaluateAll scope xs
    return value :: values

end

mutual

/-- Executes a statement after `yielded` has been yielded. -/
def Stmt.execute (scope : Scope) (yielded : List Value) : Stmt → Eval Outcome
  | .assign _ object field value => do
    let value ← value.evaluate scope
    let object ← object.evaluate scope
    Eval.setAttr object field value
    return .next yielded
  | .giveBack _ none => return .back (← scope.finish yielded .none)
  | .giveBack _ (some value) => do
    let value ← value.evaluate scope
    return .back (← scope.finish yielded value)
  | .yield _ value => do
    let value ← value.evaluate scope
    return .next (yielded ++ [value])
  | .branch _ test thenBody elseBody => do
    let test ← test.evaluate scope
    if test.isTruthy then Stmt.executeAll scope yielded thenBody
    else Stmt.executeAll scope yielded elseBody
  | .discard _ value => do
    let _ ← value.evaluate scope
    return .next yielded

/-- Executes statements in order, up to one that ends the call. -/
def Stmt.executeAll (scope : Scope) (yielded : List Value) : List Stmt → Eval Outcome
  | [] => return .next yielded
  | s :: ss => do
    match ← s.execute scope yielded with
    | .next yielded => Stmt.executeAll scope yielded ss
    | .back value => return .back value

end

/-- What the body of a definition is evaluated in when it is called with arguments. -/
def Definition.scope (d : Definition) (p : Protocol) (pool : String → Address)
    (args : Array Value) : Scope :=
  ⟨p, pool, (d.params.map Param.name).zip args.toList, d.isGenerator⟩

/-- Evaluates a definition for arguments. Behind its last statement, it gives back nothing. -/
def Definition.evaluate (d : Definition) (p : Protocol) (pool : String → Address)
    (args : Array Value) : Eval Value := do
  let scope := d.scope p pool args
  match ← Stmt.executeAll scope [] d.body with
  | .next yielded => scope.finish yielded .none
  | .back value => return value

end RecordSynth.Source
