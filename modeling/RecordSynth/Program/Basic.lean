import RecordSynth.Comparator
import RecordSynth.Literal

/-! Programs of the stack machine: instructions over tables of parameter names, attribute names
and constants. A program reaches a name only through its position in a table, so that names can
be replaced without compiling again.
-/

namespace RecordSynth

/-- The functions of one argument that a program can call. -/
inductive Builtin where
  | type
  | typename
  | repr
  | hash
  deriving DecidableEq, Inhabited

namespace Builtin

/-- How a source text calls the function. -/
def name : Builtin → String
  | type => "type"
  | typename => "typename"
  | repr => "repr"
  | hash => "hash"

/-- Every builtin function. -/
def all : List Builtin :=
  [type, typename, repr, hash]

/-- The function that a source text calls `name`. -/
def ofName? (name : String) : Option Builtin :=
  all.find? (fun b => b.name == name)

end Builtin

/-- An instruction. Positions are into the program's tables and targets are positions of
instructions; a count says how many operands are taken from the stack.
-/
inductive Instr where
  | loadConst (position : Nat)
  | loadParam (position : Nat)
  | loadAttr (position : Nat)
  | storeAttr (position : Nat)
  | loadName (position : Nat)
  | buildTuple (count : Nat)
  | buildString (count : Nat)
  | callBuiltin (function : Builtin)
  | compare (op : Comparator)
  | jumpIfFalse (target : Nat)
  | jump (target : Nat)
  | pop
  | yield
  | giveBack
  deriving DecidableEq, Inhabited

/-- The compiled form of one function. -/
structure Program where
  name : String
  params : Array String
  names : Array String
  consts : Array Literal
  code : Array Instr
  isGenerator : Bool
  deriving DecidableEq, Inhabited

namespace Program

/-- Why names cannot be replaced: a table of another size. -/
structure TableMismatch where
  table : String
  expected : Nat
  found : Nat
  deriving DecidableEq, Inhabited

/-- The error message of a table mismatch. -/
def TableMismatch.message (mismatch : TableMismatch) : String :=
  "replacement " ++ mismatch.table ++ " table has " ++ toString mismatch.found
    ++ " entries, expected " ++ toString mismatch.expected

/-- The same program over other names. The new tables have to be as large as the old ones. -/
def replaceNames (p : Program) (names params : Array String)
    : Except TableMismatch Program :=
  if names.size ≠ p.names.size then
    .error ⟨"names", p.names.size, names.size⟩
  else if params.size ≠ p.params.size then
    .error ⟨"varnames", p.params.size, params.size⟩
  else
    .ok { p with names := names, params := params }

end Program

end RecordSynth
