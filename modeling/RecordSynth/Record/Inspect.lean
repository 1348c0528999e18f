import RecordSynth.Behavior.Selection
import RecordSynth.Record.Heap
import RecordSynth.Symbol

/-! Inspected forms of values, types and record types, which show their structure. -/

namespace RecordSynth

namespace Heap

/-- The inspected form of a type as a value. -/
def inspectRef (h : Heap) (ref : TypeRef) : String :=
  "<type '" ++ h.types.refName ref ++ "'>"

mutual

/-- The inspected form of a value. -/
def inspect (h : Heap) : Value → String
  | .none => "None"
  | .bool true => "Bool(true)"
  | .bool false => "Bool(false)"
  | .int n => "Int(" ++ toString n.toInt ++ ")"
  | .float x => "Float(" ++ x.inspect ++ ")"
  | .str _ text => "Str(" ++ Text.inspect text ++ ")"
  | .tuple _ items => "Tuple([" ++ h.inspectItems "" items ++ "])"
  | .record id =>
    "Record(" ++ ((h.typeOf? id).map h.types.name).getD "" ++ " instance)"
  | .type ref => "Type(" ++ h.inspectRef ref ++ ")"
  | .notApplicable => "NotApplicable"

/-- The inspected forms of values, each behind a comma unless `text` is empty, added to it. -/
def inspectItems (h : Heap) (text : String) : List Value → String
  | [] => text
  | value :: rest =>
    let separator := if text.isEmpty then "" else ", "
    h.inspectItems (text ++ separator ++ h.inspect value) rest

end

end Heap

/-- The inspected form of a field. -/
def Field.inspect (field : Field) : String :=
  "Field \x7b name: " ++ Symbol.inspect field.name ++ ", hint: " ++ Symbol.inspect field.hint
    ++ " \x7d"

/-- An inspected list of inspected entries. -/
def inspectList (entries : List String) : String :=
  "[" ++ String.intercalate ", " entries ++ "]"

/-- The inspected form of an optional name. -/
def inspectName? : Option String → String
  | none => "None"
  | some name => "Some(" ++ Symbol.inspect name ++ ")"

/-- The inspected form of a record type. -/
def TypeTable.inspect (t : TypeTable) (ty : RecordType) : String :=
  "RecordType \x7b name: " ++ Symbol.inspect ty.name
    ++ ", parent: " ++ inspectName? (ty.parent.map t.name)
    ++ ", declared: " ++ inspectList (ty.declared.toList.map Field.inspect)
    ++ ", behaviors: " ++ inspectList ((Behavior.all.filter ty.defines).map Behavior.label)
    ++ ", synthesized: " ++ ty.synthesized.inspect ++ " \x7d"

end RecordSynth
