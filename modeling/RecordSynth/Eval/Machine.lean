import RecordSynth.Eval.Basic

/-! The stack machine. A frame holds the position of the next instruction, the operands, and what
a generator has yielded; each step carries out one instruction.
-/

namespace RecordSynth

/-- The state of a call. The last operand and the last yielded value come first. -/
structure Frame where
  position : Nat
  stack : List Value
  yielded : List Value
  deriving Inhabited

/-- What a step leads to: another state, or the value that the call gives back. -/
inductive Progress where
  | running (frame : Frame)
  | done (value : Value)

namespace Machine

/-- Fails because the program is not one that emission makes. -/
def malformed {α : Type} (program : Program) (detail : String) : Eval α :=
  Eval.fail (.malformedCode program.name detail)

/-- The last operand, and the stack below it. -/
def pop (program : Program) (stack : List Value) : Eval (Value × List Value) :=
  match stack with
  | top :: rest => return (top, rest)
  | [] => malformed program "operand stack underflow"

/-- The last `count` operands in the order in which they came, and the stack below them. -/
def popMany (program : Program) (count : Nat) (stack : List Value)
    : Eval (List Value × List Value) :=
  let taken := stack.take count
  if taken.length = count then return (taken.reverse, stack.drop count)
  else malformed program "operand stack underflow"

/-- The name at a position. -/
def nameAt (program : Program) (position : Nat) : Eval String :=
  match program.names[position]? with
  | some name => return name
  | none => malformed program ("name index " ++ toString position ++ " out of range")

/-- Adds the texts of values to `text`: strings as they are, and of others the display. -/
def joinTexts (p : Protocol) (text : String) : List Value → Eval String
  | [] => return text
  | .str _ part :: rest => joinTexts p (text ++ part) rest
  | value :: rest => do
    let part ← p.display value
    joinTexts p (text ++ part) rest

/-- Calls a builtin function. -/
def callBuiltin (p : Protocol) (function : Builtin) (arg : Value) : Eval Value := do
  match function with
  | .type => return .type (← Eval.ask (·.typeRef arg))
  | .typename => Eval.newStr (← Eval.ask (·.typeName arg))
  | .repr => Eval.newStr (← p.display arg)
  | .hash => return .int (← p.hash arg).toInt64

/-- Compares two values. -/
def compare (p : Protocol) (op : Comparator) (left right : Value) : Eval Bool := do
  match op with
  | .equal => p.equals left right
  | .notEqual => return !(← p.equals left right)
  | .same => return left.isIdentical right

/-- Carries out one instruction, in a frame whose position is already that of the next one. -/
def step (p : Protocol) (artifact : Artifact) (args : Array Value) (frame : Frame)
    (instr : Instr) : Eval Progress := do
  let program := artifact.program
  match instr with
  | .loadConst i =>
    match artifact.const? i with
    | some value => return .running { frame with stack := value :: frame.stack }
    | none => malformed program ("const index " ++ toString i ++ " out of range")
  | .loadParam i =>
    match args[i]? with
    | some value => return .running { frame with stack := value :: frame.stack }
    | none => malformed program ("slot " ++ toString i ++ " out of range")
  | .loadAttr i =>
    let name ← nameAt program i
    let (object, stack) ← pop program frame.stack
    let value ← Eval.getAttr object name
    return .running { frame with stack := value :: stack }
  | .storeAttr i =>
    let name ← nameAt program i
    let (object, stack) ← pop program frame.stack
    let (value, stack) ← pop program stack
    Eval.setAttr object name value
    return .running { frame with stack := stack }
  | .loadName i =>
    let name ← nameAt program i
    let value ← Eval.newStr name
    return .running { frame with stack := value :: frame.stack }
  | .buildTuple count =>
    let (items, stack) ← popMany program count frame.stack
    let value ← Eval.newTuple items
    return .running { frame with stack := value :: stack }
  | .buildString count =>
    let (parts, stack) ← popMany program count frame.stack
    let value ← Eval.newStr (← joinTexts p "" parts)
    return .running { frame with stack := value :: stack }
  | .callBuiltin function =>
    let (arg, stack) ← pop program frame.stack
    let value ← callBuiltin p function arg
    return .running { frame with stack := value :: stack }
  | .compare op =>
    let (right, stack) ← pop program frame.stack
    let (left, stack) ← pop program stack
    let result ← compare p op left right
    return .running { frame with stack := .bool result :: stack }
  | .jumpIfFalse target =>
    let (test, stack) ← pop program frame.stack
    let position := if test.isTruthy then frame.position else target
    return .running { frame with position := position, stack := stack }
  | .jump target => return .running { frame with position := target }
  | .pop =>
    let (_, stack) ← pop program frame.stack
    return .running { frame with stack := stack }
  | .yield =>
    let (value, stack) ← pop program frame.stack
    return .running { frame with stack := stack, yielded := value :: frame.yielded }
  | .giveBack =>
    let (value, _) ← pop program frame.stack
    if program.isGenerator then return .done (← Eval.newTuple frame.yielded.reverse)
    else return .done value

/-- Carries out instructions until a value is given back, at most `fuel` of them. -/
def run (p : Protocol) (artifact : Artifact) (args : Array Value) (frame : Frame)
    : Nat → Eval Value
  | 0 => throw .exhausted
  | fuel + 1 => do
    match artifact.program.code[frame.position]? with
    | none => malformed artifact.program "fell off the end of the code"
    | some instr =>
      match ← step p artifact args { frame with position := frame.position + 1 } instr with
      | .running frame => run p artifact args frame fuel
      | .done value => return value

/-- Calls a program. Its jumps lead forward, so it takes no more steps than it has
instructions.
-/
def call (p : Protocol) (artifact : Artifact) (args : Array Value) : Eval Value :=
  let program := artifact.program
  let expected := program.params.size
  if args.size = expected then
    run p artifact args ⟨0, [], []⟩ (program.code.size + 1)
  else
    Eval.fail (.argumentCount program.name expected args.size
      (program.params.toList.drop args.size))

end Machine

end RecordSynth
