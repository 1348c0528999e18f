import RecordSynth.Eval.Call
import RecordSynth.Text.Display

/-! Display: the text of a value. Records are displayed by their display behavior, and every other
value in a fixed way.
-/

namespace RecordSynth.Protocol

/-- The displays of values, in order, after those in the reversed `done`. -/
def displayAll (p : Protocol) (done : List String) : List Value → Eval (List String)
  | [] => return done.reverse
  | value :: rest => do
    let text ← p.display value
    displayAll p (text :: done) rest

/-- The display of a tuple with the given displays of its items. -/
def tupleText : List String → String
  | [item] => "(" ++ item ++ ",)"
  | items => "(" ++ String.intercalate ", " items ++ ")"

/-- Displays a value, given how the values inside are displayed. -/
def displayLayer (p : Protocol) (value : Value) : Eval String := do
  match value with
  | .none => return "None"
  | .bool true => return "True"
  | .bool false => return "False"
  | .int n => return toString n.toInt
  | .float x => return x.display
  | .str _ text => return Text.display text
  | .tuple _ items => return tupleText (← displayAll p [] items)
  | .record id =>
    match ← Eval.ask (·.methodOf? id .display) with
    | some method =>
      match ← method.call p #[value] with
      | .str _ text => return text
      | other => Eval.badReturn .display value .str other
    | none => return "<" ++ (← Eval.ask (·.typeName value)) ++ " object>"
  | .type ref => return "<class '" ++ (← Eval.ask (·.types.refName ref)) ++ "'>"
  | .notApplicable => return "NotApplicable"

end RecordSynth.Protocol
