import RecordSynth.Program.Basic
import RecordSynth.Roster.Basic
import RecordSynth.Source.Reader

/-! Emission of programs from trees. Code is emitted in reading order, except that an assignment
computes its value before its object. Names and constants enter their tables when they are first
met. A jump is emitted with its own position as the target, which is filled in once it is known.
-/

namespace RecordSynth

open Source

/-- A limit on table positions and operand counts: both are below it. -/
def operandLimit : Nat := 65536

/-- A limit on jump targets: they are below it. -/
def targetLimit : Nat := 4294967296

/-- What has been emitted so far. -/
structure Emission where
  names : Roster (id : String → String)
  consts : Roster (id : Literal → Literal)
  code : Array Instr

namespace Emission

/-- Nothing emitted yet. -/
def empty : Emission :=
  ⟨.empty, .empty, #[]⟩

/-- The parameters of a function with their positions. -/
abbrev Params : Type := Roster (id : String → String)

/-- The outcome of an emission step: what has been emitted then, or the first fault. -/
abbrev Result (α : Type) : Type := Except Fault α

/-- Adds an instruction. -/
def emit (e : Emission) (instr : Instr) : Emission :=
  { e with code := e.code.push instr }

/-- `n` itself, unless it is too large for an operand of kind `table`. -/
def operand (n : Nat) (table : Table) (range : ByteRange) : Result Nat :=
  if n < operandLimit then .ok n else .error ⟨.tableFull table, range⟩

/-- The position of a name, which is added unless present. -/
def namePosition (e : Emission) (name : String) (range : ByteRange)
    : Result (Nat × Emission) :=
  match h : e.names.position? name with
  | some i => .ok (i, e)
  | none =>
    let size := e.names.size
    match operand size .names range with
    | .error fault => .error fault
    | .ok i => .ok (i, { e with names := e.names.push name h })

/-- The position of a constant, which is added unless present. -/
def constPosition (e : Emission) (value : Literal) (range : ByteRange)
    : Result (Nat × Emission) :=
  match h : e.consts.position? value with
  | some i =>
    match operand i .consts range with
    | .error fault => .error fault
    | .ok i => .ok (i, e)
  | none =>
    let size := e.consts.size
    match operand size .consts range with
    | .error fault => .error fault
    | .ok i => .ok (i, { e with consts := e.consts.push value h })

/-- Emits an instruction that takes the position of a name. -/
def emitWithName (e : Emission) (instr : Nat → Instr) (name : String) (range : ByteRange)
    : Result Emission :=
  match e.namePosition name range with
  | .error fault => .error fault
  | .ok (i, e) => .ok (e.emit (instr i))

/-- Emits the load of a constant. -/
def emitConst (e : Emission) (value : Literal) (range : ByteRange) : Result Emission :=
  match e.constPosition value range with
  | .error fault => .error fault
  | .ok (i, e) => .ok (e.emit (.loadConst i))

/-- Emits an instruction that takes `count` operands from the stack. -/
def emitCount (e : Emission) (instr : Nat → Instr) (count : Nat) (table : Table)
    (range : ByteRange) : Result Emission :=
  match operand count table range with
  | .error fault => .error fault
  | .ok n => .ok (e.emit (instr n))

/-- The position of the next instruction, as a jump target. -/
def here (e : Emission) (range : ByteRange) : Result Nat :=
  if e.code.size < targetLimit then .ok e.code.size
  else .error ⟨.tableFull .code, range⟩

/-- Fills in the target of the jump at position `jump`. -/
def patch (e : Emission) (jump target : Nat) : Emission :=
  { e with code := e.code.modify jump fun
      | .jump _ => .jump target
      | .jumpIfFalse _ => .jumpIfFalse target
      | instr => instr }

/-- Fills in the target of the jump at position `jump`: the next instruction. -/
def patchHere (e : Emission) (jump : Nat) (range : ByteRange) : Result Emission :=
  match e.here range with
  | .error fault => .error fault
  | .ok target => .ok (e.patch jump target)

/-- What a call turns out to call: nothing but a name that is to be spelled out, the joining of
texts, or a builtin function.
-/
inductive Call where
  | label (name : String)
  | join
  | builtin (function : Builtin)

/-- What a call calls, or why it cannot be called so. -/
def callOf (range : ByteRange) (callee : String) (calleeRange : ByteRange)
    (args : List Expr) : Result Call :=
  if callee == "nameof" then
    match args with
    | [.var _ name] => .ok (.label name)
    | _ => .error ⟨.labelTarget, range⟩
  else if callee == "concat" then .ok .join
  else
    match Builtin.ofName? callee with
    | none => .error ⟨.unknownBuiltin callee, calleeRange⟩
    | some function =>
      if args.length = 1 then .ok (.builtin function)
      else .error ⟨.builtinArity function.name 1 args.length, range⟩

mutual

/-- Emits code that leaves the value of an expression on the stack. -/
def expr (params : Params) (e : Emission) : Expr → Result Emission
  | .literal range value => e.emitConst value range
  | .var range name =>
    match params.position? name with
    | some slot => .ok (e.emit (.loadParam slot))
    | none => .error ⟨.unboundName name, range⟩
  | .attr range object field => do
    let e ← expr params e object
    e.emitWithName .loadAttr field range
  | .call range callee calleeRange args => do
    match ← callOf range callee calleeRange args with
    | .label name => e.emitWithName .loadName name range
    | .join =>
      let e ← exprs params e args
      e.emitCount .buildString args.length .concat range
    | .builtin function =>
      let e ← exprs params e args
      return e.emit (.callBuiltin function)
  | .tuple range items => do
    let e ← exprs params e items
    e.emitCount .buildTuple items.length .tuple range
  | .compare _ op left right => do
    let e ← expr params e left
    let e ← expr params e right
    return e.emit (.compare op)

/-- Emits code that leaves the values of expressions on the stack, the last one on top. -/
def exprs (params : Params) (e : Emission) : List Expr → Result Emission
  | [] => .ok e
  | x :: xs => do
    let e ← expr params e x
    exprs params e xs

end

mutual

/-- Emits the code of a statement. -/
def stmt (params : Params) (isGenerator : Bool) (e : Emission) : Stmt → Result Emission
  | .assign range object field value => do
    let e ← expr params e value
    let e ← expr params e object
    e.emitWithName .storeAttr field range
  | .giveBack range none => do
    let e ← e.emitConst .none range
    return e.emit .giveBack
  | .giveBack _ (some value) => do
    let e ← expr params e value
    return e.emit .giveBack
  | .yield range value => do
    if isGenerator then
      let e ← expr params e value
      return e.emit .yield
    else throw ⟨.yieldOutsideGenerator, range⟩
  | .branch range test thenBody elseBody => do
    let e ← expr params e test
    let jumpToElse := e.code.size
    let e ← stmts params isGenerator (e.emit (.jumpIfFalse jumpToElse)) thenBody
    match elseBody with
    | [] => e.patchHere jumpToElse range
    | _ :: _ =>
      let jumpToEnd := e.code.size
      let e ← (e.emit (.jump jumpToEnd)).patchHere jumpToElse range
      let e ← stmts params isGenerator e elseBody
      e.patchHere jumpToEnd range
  | .discard _ value => do
    let e ← expr params e value
    return e.emit .pop

/-- Emits the code of statements, in order. -/
def stmts (params : Params) (isGenerator : Bool) (e : Emission)
    : List Stmt → Result Emission
  | [] => .ok e
  | s :: ss => do
    let e ← stmt params isGenerator e s
    stmts params isGenerator e ss

end

/-- Gives parameters their positions, after those that have theirs. -/
def bindParams (bound : Params) : List Param → Result Params
  | [] => .ok bound
  | param :: rest =>
    match h : bound.position? param.name with
    | some _ => .error ⟨.duplicateParam param.name, param.range⟩
    | none => do
      let _ ← operand bound.size .params param.range
      bindParams (bound.push param.name h) rest

end Emission

/-- The program of a definition. It ends by giving back nothing. -/
def Program.ofDefinition (d : Definition) : Except Fault Program := do
  let params ← Emission.bindParams .empty d.params
  let e ← Emission.stmts params d.isGenerator .empty d.body
  let e ← e.emitConst .none d.range
  let e := e.emit .giveBack
  return {
    name := d.name
    params := params.entries
    names := e.names.entries
    consts := e.consts.entries
    code := e.code
    isGenerator := d.isGenerator }

/-- The program of a source text. -/
def Program.ofText (source : String) : Except Fault Program := do
  let d ← Definition.ofText source
  Program.ofDefinition d

end RecordSynth
