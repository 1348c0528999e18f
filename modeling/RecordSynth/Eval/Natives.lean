import RecordSynth.Eval.Basic

/-! Native methods: functions from outside that may be behaviors of record types. What they do is a
parameter of evaluation. The stock is what their names say, and it is what programs are run with.
-/

namespace RecordSynth

/-- What the native methods do with a list of arguments, the receiver first. They may display,
compare and hash values and call native methods by the operations of the given protocol.
-/
class Natives where
  call : Primitive → Protocol → Array Value → Eval Value

namespace Primitive

/-- An argument, which has to be there. -/
def fetch (args : Array Value) (index : Nat) : Eval Value :=
  match args[index]? with
  | some value => return value
  | none => Eval.fail (.custom ("no argument " ++ toString index))

/-- An attribute of a value, if it is a record and has the attribute. -/
def attr? (value : Value) (name : String) : Eval (Option Value) :=
  Eval.ask fun h =>
    match value with
    | .record id => h.getAttr? id name
    | _ => none

/-- Assigns the arguments from `index` on to the named attributes of a record. -/
def storeFrom (id : RecordId) (args : Array Value) (index : Nat) : List String → Eval Unit
  | [] => return
  | name :: rest => do
    let value ← fetch args index
    Eval.change (·.setAttr id name value)
    storeFrom id args (index + 1) rest

/-- What the name of a native method stands for in the stock. -/
def stock (operation : Primitive) (p : Protocol) (args : Array Value) : Eval Value := do
  match operation with
  | .const value => return value
  | .raise message => Eval.fail (.custom message)
  | .arg index => fetch args index
  | .args => Eval.newTuple args.toList
  | .display index => Eval.newStr (← p.display (← fetch args index))
  | .hash index => return .int (← p.hash (← fetch args index)).toInt64
  | .attr index name => return (← attr? (← fetch args index) name).getD .none
  | .sameAttr name =>
    let mine ← fetch args 0
    let theirs ← fetch args 1
    match ← attr? mine name, ← attr? theirs name with
    | some a, some b => return .bool (a.sameContent b)
    | _, _ => return .bool false
  | .store names =>
    match ← fetch args 0 with
    | .record id =>
      storeFrom id args 1 names
      return .none
    | _ => return .none

end Primitive

namespace Natives

/-- The native methods that their names describe. -/
scoped instance stock : Natives where
  call := Primitive.stock

end Natives

end RecordSynth
