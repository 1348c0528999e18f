import RecordSynth.Eval.Error
import RecordSynth.Record.Heap

/-! Evaluations: they read and change a heap, and give a value or stop. What an evaluation did to
the heap before it stops stays done. The operations that re-enter evaluation, namely display,
equality, hash and the native methods, are taken from a `Protocol`, which answers for values nested
less deep.
-/

namespace RecordSynth

/-- Why an evaluation stops: with an error, or because values are nested deeper than it goes. -/
inductive Halt where
  | error (e : EvalError)
  | exhausted
  deriving DecidableEq, Inhabited

/-- An evaluation. -/
abbrev Eval (α : Type) : Type := ExceptT Halt (StateM Heap) α

namespace Eval

/-- Stops with an error. -/
def fail {α : Type} (e : EvalError) : Eval α :=
  throw (.error e)

/-- What a function tells about the heap. -/
def ask {α : Type} (f : Heap → α) : Eval α :=
  f <$> get

/-- Changes the heap. -/
def change (f : Heap → Heap) : Eval Unit :=
  modify f

/-- Makes a text. -/
def newStr (text : String) : Eval Value := do
  let address ← modifyGet (·.allocate 1)
  return .str address text

/-- Makes a tuple. -/
def newTuple (items : List Value) : Eval Value := do
  let address ← modifyGet (·.allocate 1)
  return .tuple address items

/-- An attribute of a value. -/
def getAttr (object : Value) (name : String) : Eval Value := do
  let found ← ask fun h =>
    match object with
    | .record id => h.getAttr? id name
    | _ => none
  match found with
  | some value => return value
  | none => fail (.noAttribute (← ask (·.typeName object)) name)

/-- Sets an attribute of a value, which has to be a record. -/
def setAttr (object : Value) (name : String) (value : Value) : Eval Unit := do
  match object with
  | .record id => change (·.setAttr id name value)
  | _ => fail (.readOnlyAttribute (← ask (·.typeName object)) name)

/-- Fails because a behavior of `receiver` gave back `found` instead of a value of type
`expected`.
-/
def badReturn {α : Type} (behavior : Behavior) (receiver : Value) (expected : BuiltinType)
    (found : Value) : Eval α := do
  fail (.badReturn behavior (← ask (·.typeName receiver)) expected
    (← ask (·.typeName found)))

end Eval

/-- The operations on values that evaluation re-enters, and the native methods. -/
structure Protocol where
  display : Value → Eval String
  equals : Value → Value → Eval Bool
  hash : Value → Eval UInt64
  native : Primitive → Array Value → Eval Value

end RecordSynth
