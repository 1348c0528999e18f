import RecordSynth.Eval.Call

/-! What evaluation does with records beside displaying, comparing and hashing them: it makes them,
goes through them, and matches them against the field order of a type.
-/

namespace RecordSynth.Protocol

/-- The texts of one character each, in order, after those in the reversed `done`. -/
def newChars (done : List Value) : List Char → Eval (List Value)
  | [] => return done.reverse
  | c :: cs => do
    let value ← Eval.newStr c.toString
    newChars (value :: done) cs

/-- The values that a value goes through: a tuple's items, a text's characters, or what the
iteration behavior of a record gives back.
-/
def iterate (p : Protocol) (value : Value) : Eval (List Value) := do
  match value with
  | .tuple _ items => return items
  | .str _ text => newChars [] text.toList
  | .record id =>
    match ← Eval.ask (·.methodOf? id .iteration) with
    | some method =>
      match ← method.call p #[value] with
      | .tuple _ items => return items
      | other => Eval.badReturn .iteration value .tuple other
    | none => Eval.fail (.notIterable (← Eval.ask (·.typeName value)))
  | _ => Eval.fail (.notIterable (← Eval.ask (·.typeName value)))

/-- Makes a record and calls the construct behavior on it. Without that behavior there may be no
arguments.
-/
def construct (p : Protocol) (type : TypeId) (args : Array Value) : Eval Value := do
  let id ← modifyGet (·.newRecord type)
  match ← Eval.ask (·.types.lookup type .construct) with
  | some method =>
    let _ ← method.call p (#[.record id] ++ args)
    return .record id
  | none =>
    if args.isEmpty then return .record id
    else Eval.fail (.argumentCount (← Eval.ask (·.types.name type)) 0 args.size [])

/-- The attributes of a value with the names of fields, after those in the reversed `done`. -/
def attributes (value : Value) (done : List Value) : List Field → Eval (List Value)
  | [] => return done.reverse
  | field :: rest => do
    let found ← Eval.getAttr value field.name
    attributes value (found :: done) rest

/-- Matches a value against the recorded field order of a type: the values of the first `count`
fields, or `none` if the value is no instance of the type.
-/
def matchPositional (value : Value) (type : TypeId) (count : Nat)
    : Eval (Option (List Value)) := do
  match value with
  | .record id =>
    let isInstance ← Eval.ask fun h => (h.typeOf? id).any (h.types.isSubtype · type)
    if isInstance then
      let fields := (← Eval.ask (·.types.matchArgs type)).getD []
      if fields.length < count then
        Eval.fail (.tooManyPositional (← Eval.ask (·.types.name type)) fields.length count)
      else return some (← attributes value [] (fields.take count))
    else return none
  | _ => return none

end RecordSynth.Protocol
