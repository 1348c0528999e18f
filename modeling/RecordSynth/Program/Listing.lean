import RecordSynth.Program.Basic
import RecordSynth.Text.Inspect

/-! The written forms of programs: the text of an instruction, and the listing of a program with
one line for each instruction and the table entry that it refers to.
-/

namespace RecordSynth

/-- The name of the operator in an instruction's text. -/
def Comparator.label : Comparator → String
  | equal => "Eq"
  | notEqual => "NotEq"
  | same => "Is"

/-- The name of the function in an instruction's text. -/
def Builtin.label : Builtin → String
  | type => "Type"
  | typename => "TypeName"
  | repr => "Repr"
  | hash => "Hash"

/-- The inspected form of a constant. -/
def Literal.inspect : Literal → String
  | none => "None"
  | notApplicable => "NotApplicable"
  | bool true => "Bool(true)"
  | bool false => "Bool(false)"
  | int n => "Int(" ++ toString n.toInt ++ ")"
  | str text => "Str(" ++ Text.inspect text ++ ")"

/-- The text of an instruction. -/
def Instr.text : Instr → String
  | loadConst i => "LoadConst(" ++ toString i ++ ")"
  | loadParam i => "LoadFast(" ++ toString i ++ ")"
  | loadAttr i => "LoadAttr(" ++ toString i ++ ")"
  | storeAttr i => "StoreAttr(" ++ toString i ++ ")"
  | loadName i => "LoadNameStr(" ++ toString i ++ ")"
  | buildTuple n => "BuildTuple(" ++ toString n ++ ")"
  | buildString n => "BuildString(" ++ toString n ++ ")"
  | callBuiltin function => "CallBuiltin(" ++ function.label ++ ")"
  | compare op => "Compare(" ++ op.label ++ ")"
  | jumpIfFalse target => "PopJumpIfFalse(" ++ toString target ++ ")"
  | jump target => "Jump(" ++ toString target ++ ")"
  | pop => "Pop"
  | yield => "Yield"
  | giveBack => "Return"

namespace Program

/-- The table entry at a position, as `show` writes it; a question mark where there is none. -/
def entryText {α : Type} (table : Array α) (position : Nat) (write : α → String) : String :=
  match table[position]? with
  | some entry => write entry
  | none => "?"

/-- An instruction that refers to a table, with its position and the entry there. -/
def referenceText {α : Type} (label : String) (table : Array α) (position : Nat)
    (write : α → String) : String :=
  label ++ " " ++ toString position ++ " (" ++ entryText table position write ++ ")"

/-- An instruction as the listing writes it. -/
def instrText (p : Program) : Instr → String
  | .loadConst i => referenceText "LoadConst" p.consts i Literal.inspect
  | .loadParam i => referenceText "LoadFast" p.params i id
  | .loadAttr i => referenceText "LoadAttr" p.names i id
  | .storeAttr i => referenceText "StoreAttr" p.names i id
  | .loadName i => referenceText "LoadNameStr" p.names i id
  | instr => instr.text

/-- A number, padded with spaces on the left to a width of four. -/
def lineNumber (n : Nat) : String :=
  let digits := toString n
  String.ofList (List.replicate (4 - digits.length) ' ') ++ digits

/-- The first line of a listing. -/
def heading (p : Program) : String :=
  (if p.isGenerator then "gen fn " else "fn ") ++ p.name
    ++ "(" ++ String.intercalate ", " p.params.toList ++ ")\n"

/-- The listing of a program: the heading, and the numbered instructions. -/
def listing (p : Program) : String :=
  let lines := p.code.toList.zipIdx.map fun (instr, i) =>
    lineNumber i ++ "  " ++ p.instrText instr ++ "\n"
  p.heading ++ String.join lines

end Program

end RecordSynth
