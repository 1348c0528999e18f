import RecordSynth.Source.Reader

/-! Reading with a cursor. The tokens stay where they are and a cursor moves along them. The walks
here follow the functions of the reader one by one, but nothing about them says that a token is
taken: their types have no room for it, and their calls are only told how deep they may nest. That
some depth is enough, and that they come to what reading comes to, is left to be proved.
-/

namespace RecordSynth.Source

/-- A place in a list of tokens, and how often the cursor was told to move on. The end of input is
the place behind the last token.
-/
structure Cursor where
  position : Nat
  advances : Nat

/-- A walk moves the cursor and gives a phrase or a fault, and leaves the cursor where it then
stands in either case. It has no end if its calls nest deeper than they may.
-/
abbrev Walk (α : Type) : Type := ExceptT Fault (StateT Cursor Option) α

namespace Walk

open Reader (Items ident? comparator? literal?)

/-- What the walk gives that starts at `c`, and where it ends; `none` if it has no end. -/
def goFrom {α : Type} (walk : Walk α) (c : Cursor) : Option (Except Fault α × Cursor) :=
  walk.run.run c

/-- No end: one more call would nest too deep. -/
def tooDeep {α : Type} : Walk α :=
  ExceptT.mk fun _ => none

-----------------------------------------------------------------------------------------
-- Single tokens
-----------------------------------------------------------------------------------------

section Tokens

variable (stop : ByteRange) (tokens : List PlacedToken)

/-- The token at the cursor, or none at the end of input. -/
def current : Walk (Option PlacedToken) :=
  return tokens[(← get).position]?

/-- Moves on by one token; at the end of input the cursor stays. -/
def advance : Walk Unit :=
  modify fun c =>
    ⟨if c.position < tokens.length then c.position + 1 else c.position, c.advances + 1⟩

/-- Moves on past the token at the cursor if `f` accepts it. -/
def accept? {α : Type} (f : PlacedToken → Option α) : Walk (Option α) := do
  match (← current tokens).bind f with
  | none => return none
  | some a =>
    advance tokens
    return some a

/-- Takes the token at the cursor if `f` accepts it, and gives its place. -/
def takeIf? {α : Type} (f : Token → Option α) : Walk (Option (α × ByteRange)) :=
  accept? tokens fun t => (f t.token).map fun a => (a, t.range)

/-- Takes the token at the cursor if it is `token`, and gives its place. -/
def take? (token : Token) : Walk (Option ByteRange) :=
  accept? tokens fun t => if t.token = token then some t.range else none

/-- The fault of finding what is at the cursor where something else is expected. -/
def unexpected {α : Type} (expected : Expected) : Walk α := do
  throw (Reader.unexpected stop expected (← current tokens).toList)

/-- Where the token at the cursor stands. -/
def startRange : Walk ByteRange :=
  return Reader.startRange stop (← current tokens).toList

/-- Takes the token at the cursor, which has to be `token`. -/
def expect (token : Token) (expected : Expected) : Walk ByteRange := do
  match ← take? tokens token with
  | some range => return range
  | none => unexpected stop tokens expected

/-- Takes the token at the cursor, which has to be an identifier. -/
def expectIdent : Walk (String × ByteRange) := do
  match ← takeIf? tokens ident? with
  | some named => return named
  | none => unexpected stop tokens .identifier

end Tokens

-----------------------------------------------------------------------------------------
-- Phrases
-----------------------------------------------------------------------------------------

section Phrases

variable (stop : ByteRange) (tokens : List PlacedToken)

-- A loop is a call for each of its rounds, so that `depth` bounds the rounds as well.

/-- Goes over the attribute accesses that follow `object`. -/
def attributes : (depth : Nat) → (object : Expr) → Walk Expr
  | 0, _ => tooDeep
  | depth + 1, object => do
    match ← take? tokens (.mark .dot) with
    | none => return object
    | some _ =>
      let (name, range) ← expectIdent stop tokens
      attributes depth (.attr (object.range.merge range) object name)

mutual

/-- Goes over an expression. -/
def expr : (depth : Nat) → Walk Expr
  | 0 => tooDeep
  | depth + 1 => do
    let left ← operand depth
    comparisons depth left

/-- Goes over the comparisons that follow `left`. -/
def comparisons : (depth : Nat) → (left : Expr) → Walk Expr
  | 0, _ => tooDeep
  | depth + 1, left => do
    match ← takeIf? tokens comparator? with
    | none => return left
    | some (op, _) =>
      let right ← operand depth
      comparisons depth (.compare (left.range.merge right.range) op left right)

/-- Goes over an operand of a comparison. -/
def operand : (depth : Nat) → Walk Expr
  | 0 => tooDeep
  | depth + 1 => do
    let object ← primary depth
    attributes stop tokens depth object

/-- Goes over a literal, a variable, a call, or a list in parentheses. -/
def primary : (depth : Nat) → Walk Expr
  | 0 => tooDeep
  | depth + 1 => do
    match ← takeIf? tokens ident? with
    | some (name, start) =>
      match ← take? tokens (.mark .parenOpen) with
      | none => return .var start name
      | some _ =>
        let list ← items depth [] false
        return .call (start.merge list.close) name start list.items
    | none =>
      match ← take? tokens (.mark .parenOpen) with
      | some start =>
        let list ← items depth [] false
        return list.expr start
      | none =>
        match ← takeIf? tokens literal? with
        | some (value, range) => return .literal range value
        | none => unexpected stop tokens .expression

/-- Goes over items up to the closing parenthesis, after those in the reversed `done`. -/
def items : (depth : Nat) → (done : List Expr) → (comma : Bool) → Walk Items
  | 0, _, _ => tooDeep
  | depth + 1, done, comma => do
    match ← take? tokens (.mark .parenClose) with
    | some close => return ⟨done.reverse, comma, close⟩
    | none =>
      let item ← expr depth
      match ← take? tokens (.mark .comma) with
      | some _ => items depth (item :: done) true
      | none =>
        let close ← expect stop tokens (.mark .parenClose) .parenCloseOrComma
        return ⟨(item :: done).reverse, false, close⟩

end

/-- Goes over an expression and the semicolon after it. -/
def exprThenSemicolon (depth : Nat) : Walk (Expr × ByteRange) := do
  let e ← expr stop tokens depth
  let close ← expect stop tokens (.mark .semicolon) .semicolon
  return (e, close)

/-- Goes over what follows the `=` behind a target. -/
def assign (depth : Nat) (start : ByteRange) : (target : Expr) → Walk Stmt
  | .attr _ object field => do
    let (value, close) ← exprThenSemicolon stop tokens depth
    return .assign (start.merge close) object field value
  | target => throw ⟨.assignmentTarget, target.range⟩

/-- Goes over a statement that begins with an expression. -/
def assignmentOrExpr (depth : Nat) : Walk Stmt := do
  let start ← startRange stop tokens
  let target ← expr stop tokens depth
  match ← take? tokens (.mark .assign) with
  | some _ => assign stop tokens depth start target
  | none =>
    let close ← expect stop tokens (.mark .semicolon) .semicolonOrAssign
    return .discard (start.merge close) target

/-- Goes over what follows a `return` that stands at `start`. -/
def giveBack (depth : Nat) (start : ByteRange) : Walk Stmt := do
  match ← take? tokens (.mark .semicolon) with
  | some close => return .giveBack (start.merge close) none
  | none =>
    let (value, close) ← exprThenSemicolon stop tokens depth
    return .giveBack (start.merge close) (some value)

mutual

/-- Goes over a statement. -/
def stmt : (depth : Nat) → Walk Stmt
  | 0 => tooDeep
  | depth + 1 => do
    match ← take? tokens (.keyword .return) with
    | some start => giveBack stop tokens depth start
    | none =>
      match ← take? tokens (.keyword .yield) with
      | some start =>
        let (value, close) ← exprThenSemicolon stop tokens depth
        return .yield (start.merge close) value
      | none =>
        match ← take? tokens (.keyword .if) with
        | some start => branch depth start
        | none => assignmentOrExpr stop tokens depth

/-- Goes over a branch after its `if`, which stands at `start`. -/
def branch : (depth : Nat) → (start : ByteRange) → Walk Stmt
  | 0, _ => tooDeep
  | depth + 1, start => do
    let test ← expr stop tokens depth
    let (thenBody, close) ← block depth
    match ← take? tokens (.keyword .else) with
    | none => return .branch (start.merge close) test thenBody []
    | some _ =>
      match ← take? tokens (.keyword .if) with
      | some nestedStart =>
        let nested ← branch depth nestedStart
        return .branch (start.merge nested.range) test thenBody [nested]
      | none =>
        let (elseBody, elseClose) ← block depth
        return .branch (start.merge elseClose) test thenBody elseBody

/-- Goes over a block in braces; gives the place of its closing brace as well. -/
def block : (depth : Nat) → Walk (List Stmt × ByteRange)
  | 0 => tooDeep
  | depth + 1 => do
    let _ ← expect stop tokens (.mark .braceOpen) .braceOpen
    stmts depth []

/-- Goes over statements up to the closing brace, after those in the reversed `done`. -/
def stmts : (depth : Nat) → (done : List Stmt) → Walk (List Stmt × ByteRange)
  | 0, _ => tooDeep
  | depth + 1, done => do
    match ← take? tokens (.mark .braceClose) with
    | some close => return (done.reverse, close)
    | none =>
      match ← current tokens with
      | none => unexpected stop tokens .braceClose
      | some _ =>
        let s ← stmt depth
        stmts depth (s :: done)

end

/-- Goes over parameters up to the closing parenthesis, after those in the reversed `done`. -/
def params : (depth : Nat) → (done : List Param) → Walk (List Param)
  | 0, _ => tooDeep
  | depth + 1, done => do
    match ← take? tokens (.mark .parenClose) with
    | some _ => return done.reverse
    | none =>
      let (name, range) ← expectIdent stop tokens
      match ← take? tokens (.mark .comma) with
      | some _ => params depth (⟨name, range⟩ :: done)
      | none =>
        let _ ← expect stop tokens (.mark .parenClose) .parenCloseOrComma
        return (⟨name, range⟩ :: done).reverse

/-- Goes over a definition from its `fn` on; with a `gen` before it, it starts there. -/
def signatureAndBody (depth : Nat) (start : ByteRange) (isGenerator : Bool)
    : Walk Definition := do
  let _ ← expect stop tokens (.keyword .fn) .fn
  let (name, _) ← expectIdent stop tokens
  let _ ← expect stop tokens (.mark .parenOpen) .parenOpen
  let params ← params stop tokens depth []
  let (body, close) ← block stop tokens depth
  return ⟨name, params, isGenerator, body, start.merge close⟩

/-- Goes over a definition. -/
def definition (depth : Nat) : Walk Definition := do
  match ← take? tokens (.keyword .gen) with
  | some start => signatureAndBody stop tokens depth start true
  | none =>
    let start ← startRange stop tokens
    signatureAndBody stop tokens depth start false

/-- Goes over definitions up to the end of input, after those in the reversed `done`. -/
def definitions : (depth : Nat) → (done : List Definition) → Walk (List Definition)
  | 0, _ => tooDeep
  | depth + 1, done => do
    match ← current tokens with
    | none => return done.reverse
    | some _ =>
      let d ← definition stop tokens depth
      definitions depth (d :: done)

/-- Goes over all tokens, which have to be those of one definition. -/
def onlyDefinition (depth : Nat) : Walk Definition := do
  match ← definitions stop tokens depth [] with
  | [d] => return d
  | [] => throw ⟨.definitionCount 0, stop⟩
  | first :: second :: rest =>
    throw ⟨.definitionCount (first :: second :: rest).length, second.range⟩

end Phrases

end Walk

end RecordSynth.Source
