import RecordSynth.Source.Lexeme
import RecordSynth.Source.Tree

/-! Reading tokens into trees. The grammar, with an optional comma after the last item of a list:

    definition := "gen"? "fn" IDENT "(" params ")" block
    block      := "{" stmt* "}"
    stmt       := "return" expr? ";" | "yield" expr ";" | branch
                | expr ";" | attribute "=" expr ";"
    branch     := "if" expr block ("else" (block | branch))?
    expr       := operand (("==" | "!=" | "is") operand)*
    operand    := primary ("." IDENT)*
    primary    := literal | IDENT | IDENT "(" items ")" | "(" items ")"

Every reading takes at least one token, which its result type records and which bounds the
recursion. A reading fails at the first token that no definition could have there.
-/

namespace RecordSynth.Source.Reader

/-- What remains unread: fewer than `n` tokens. -/
abbrev Rest (n : Nat) : Type := { rest : List PlacedToken // rest.length < n }

/-- The outcome of reading a phrase: the phrase and what remains, or the first fault. -/
abbrev Reading (α : Type) (n : Nat) : Type := Except Fault (α × Rest n)

/-- The fault of finding the first of `ts` where something else is expected; `stop` is the
place of the end of input.
-/
def unexpected (stop : ByteRange) (expected : Expected) : List PlacedToken → Fault
  | [] => ⟨.unexpectedToken expected none, stop⟩
  | t :: _ => ⟨.unexpectedToken expected (some t.token), t.range⟩

/-- Where the first of `ts` stands. -/
def startRange (stop : ByteRange) : List PlacedToken → ByteRange
  | [] => stop
  | t :: _ => t.range

/-- Takes the first token if `f` accepts it, and gives its place. -/
def takeIf? {α : Type} (f : Token → Option α) (ts : List PlacedToken)
    : Option ((α × ByteRange) × Rest ts.length) :=
  match ts with
  | [] => none
  | t :: rest => (f t.token).map fun a => ((a, t.range), ⟨rest, Nat.lt_succ_self _⟩)

/-- Takes the first token if it is `token`, and gives its place. -/
def take? (token : Token) (ts : List PlacedToken) : Option (ByteRange × Rest ts.length) :=
  match ts with
  | [] => none
  | t :: rest =>
    if t.token = token then some (t.range, ⟨rest, Nat.lt_succ_self _⟩) else none

/-- Takes the first token, which has to be `token`. -/
def expect (stop : ByteRange) (token : Token) (expected : Expected) (ts : List PlacedToken)
    : Reading ByteRange ts.length :=
  match take? token ts with
  | some taken => .ok taken
  | none => .error (unexpected stop expected ts)

/-- The name that a token spells. -/
def ident? : Token → Option String
  | .ident name => some name
  | _ => none

/-- The operator that a token spells. -/
def comparator? : Token → Option Comparator
  | .mark .equal => some .equal
  | .mark .notEqual => some .notEqual
  | .keyword .is => some .same
  | _ => none

/-- The literal that a token spells. -/
def literal? : Token → Option Literal
  | .int n => some (.int n)
  | .str text => some (.str text)
  | .keyword .true => some (.bool true)
  | .keyword .false => some (.bool false)
  | .keyword .none => some .none
  | .keyword .notApplicable => some .notApplicable
  | _ => none

/-- Takes the first token, which has to be an identifier. -/
def expectIdent (stop : ByteRange) (ts : List PlacedToken)
    : Reading (String × ByteRange) ts.length :=
  match takeIf? ident? ts with
  | some taken => .ok taken
  | none => .error (unexpected stop .identifier ts)

/-- The items of a list in parentheses, whether a comma follows the last one, and the place of
the closing parenthesis.
-/
structure Items where
  items : List Expr
  trailingComma : Bool
  close : ByteRange

/-- The expression that a parenthesised list stands for: the item itself if there is one and no
comma, and otherwise a tuple.
-/
def Items.expr (list : Items) (start : ByteRange) : Expr :=
  let range := start.merge list.close
  match list.items, list.trailingComma with
  | [item], false => item.placedAt range
  | items, _ => .tuple range items

mutual

/-- Reads an expression. -/
def expr (stop : ByteRange) (ts : List PlacedToken) : Reading Expr ts.length := do
  let (left, ⟨rest, h⟩) ← operand stop ts
  comparisons stop left rest h
termination_by (ts.length, 3)

/-- Reads the comparisons that follow `left`; they group to the left. -/
def comparisons (stop : ByteRange) {n : Nat} (left : Expr) (ts : List PlacedToken)
    (h : ts.length < n) : Reading Expr n :=
  match takeIf? comparator? ts with
  | none => return (left, ⟨ts, h⟩)
  | some ((op, _), ⟨rest, h₁⟩) => do
    let (right, ⟨rest, h₂⟩) ← operand stop rest
    comparisons stop (.compare (left.range.merge right.range) op left right) rest
      (Nat.lt_trans h₂ (Nat.lt_trans h₁ h))
termination_by (ts.length, 0)

/-- Reads an operand of a comparison. -/
def operand (stop : ByteRange) (ts : List PlacedToken) : Reading Expr ts.length := do
  let (object, ⟨rest, h⟩) ← primary stop ts
  attributes stop object rest h
termination_by (ts.length, 2)

/-- Reads the attribute accesses that follow `object`. -/
def attributes (stop : ByteRange) {n : Nat} (object : Expr) (ts : List PlacedToken)
    (h : ts.length < n) : Reading Expr n :=
  match take? (.mark .dot) ts with
  | none => return (object, ⟨ts, h⟩)
  | some (_, ⟨rest, h₁⟩) => do
    let ((name, range), ⟨rest, h₂⟩) ← expectIdent stop rest
    attributes stop (.attr (object.range.merge range) object name) rest
      (Nat.lt_trans h₂ (Nat.lt_trans h₁ h))
termination_by (ts.length, 0)

/-- Reads a literal, a variable, a call, or a list in parentheses. -/
def primary (stop : ByteRange) (ts : List PlacedToken) : Reading Expr ts.length :=
  match takeIf? ident? ts with
  | some ((name, start), ⟨rest, h⟩) =>
    match take? (.mark .parenOpen) rest with
    | none => return (.var start name, ⟨rest, h⟩)
    | some (_, ⟨rest, h₁⟩) => do
      let (list, rest) ← items stop [] false rest (Nat.lt_trans h₁ h)
      return (.call (start.merge list.close) name start list.items, rest)
  | none =>
    match take? (.mark .parenOpen) ts with
    | some (start, ⟨rest, h⟩) => do
      let (list, rest) ← items stop [] false rest h
      return (list.expr start, rest)
    | none =>
      match takeIf? literal? ts with
      | some ((value, range), rest) => return (.literal range value, rest)
      | none => throw (unexpected stop .expression ts)
termination_by (ts.length, 1)

/-- Reads items up to the closing parenthesis, after those in the reversed `done`. -/
def items (stop : ByteRange) {n : Nat} (done : List Expr) (comma : Bool)
    (ts : List PlacedToken) (h : ts.length < n) : Reading Items n :=
  match take? (.mark .parenClose) ts with
  | some (close, ⟨rest, h₁⟩) =>
    return (⟨done.reverse, comma, close⟩, ⟨rest, Nat.lt_trans h₁ h⟩)
  | none => do
    let (item, ⟨rest, h₁⟩) ← expr stop ts
    match take? (.mark .comma) rest with
    | some (_, ⟨rest, h₂⟩) =>
      items stop (item :: done) true rest (Nat.lt_trans h₂ (Nat.lt_trans h₁ h))
    | none =>
      let (close, ⟨rest, h₂⟩) ← expect stop (.mark .parenClose) .parenCloseOrComma rest
      return (⟨(item :: done).reverse, false, close⟩,
        ⟨rest, Nat.lt_trans h₂ (Nat.lt_trans h₁ h)⟩)
termination_by (ts.length, 4)

end

/-- Reads an expression and the semicolon after it. -/
def exprThenSemicolon (stop : ByteRange) {n : Nat} (ts : List PlacedToken)
    (h : ts.length < n) : Reading (Expr × ByteRange) n := do
  let (e, ⟨rest, h₁⟩) ← expr stop ts
  let (close, ⟨rest, h₂⟩) ← expect stop (.mark .semicolon) .semicolon rest
  return ((e, close), ⟨rest, Nat.lt_trans h₂ (Nat.lt_trans h₁ h)⟩)

/-- Reads a statement that begins with an expression: an assignment, if `=` follows it. -/
def assignmentOrExpr (stop : ByteRange) (ts : List PlacedToken)
    : Reading Stmt ts.length := do
  let start := startRange stop ts
  let (target, ⟨rest, h₁⟩) ← expr stop ts
  match take? (.mark .assign) rest with
  | some (_, ⟨rest, h₂⟩) =>
    match target with
    | .attr _ object field =>
      let ((value, close), rest) ← exprThenSemicolon stop rest (Nat.lt_trans h₂ h₁)
      return (.assign (start.merge close) object field value, rest)
    | target => throw ⟨.assignmentTarget, target.range⟩
  | none =>
    let (close, ⟨rest, h₂⟩) ← expect stop (.mark .semicolon) .semicolonOrAssign rest
    return (.discard (start.merge close) target, ⟨rest, Nat.lt_trans h₂ h₁⟩)

/-- Reads what follows a `return` that stands at `start`. -/
def giveBack (stop start : ByteRange) {n : Nat} (ts : List PlacedToken)
    (h : ts.length < n) : Reading Stmt n :=
  match take? (.mark .semicolon) ts with
  | some (close, ⟨rest, h₁⟩) =>
    return (.giveBack (start.merge close) none, ⟨rest, Nat.lt_trans h₁ h⟩)
  | none => do
    let ((value, close), rest) ← exprThenSemicolon stop ts h
    return (.giveBack (start.merge close) (some value), rest)

mutual

/-- Reads a statement. -/
def stmt (stop : ByteRange) (ts : List PlacedToken) : Reading Stmt ts.length :=
  match take? (.keyword .return) ts with
  | some (start, ⟨rest, h⟩) => giveBack stop start rest h
  | none =>
    match take? (.keyword .yield) ts with
    | some (start, ⟨rest, h⟩) => do
      let ((value, close), rest) ← exprThenSemicolon stop rest h
      return (.yield (start.merge close) value, rest)
    | none =>
      match take? (.keyword .if) ts with
      | some (start, ⟨rest, h⟩) => branch stop start rest h
      | none => assignmentOrExpr stop ts
termination_by (ts.length, 3)

/-- Reads a branch after its `if`, which stands at `start`. -/
def branch (stop start : ByteRange) {n : Nat} (ts : List PlacedToken) (h : ts.length < n)
    : Reading Stmt n := do
  let (test, ⟨rest, h₁⟩) ← expr stop ts
  let ((thenBody, close), ⟨rest, h₂⟩) ← block stop rest
  let h₃ := Nat.lt_trans h₂ h₁
  match take? (.keyword .else) rest with
  | none =>
    return (.branch (start.merge close) test thenBody [], ⟨rest, Nat.lt_trans h₃ h⟩)
  | some (_, ⟨rest, h₄⟩) =>
    let h₅ := Nat.lt_trans h₄ h₃
    match take? (.keyword .if) rest with
    | some (nestedStart, ⟨rest, h₆⟩) =>
      let (nested, rest) ← branch stop nestedStart rest (Nat.lt_trans h₆ (Nat.lt_trans h₅ h))
      return (.branch (start.merge nested.range) test thenBody [nested], rest)
    | none =>
      let ((elseBody, elseClose), ⟨rest, h₆⟩) ← block stop rest
      return (.branch (start.merge elseClose) test thenBody elseBody,
        ⟨rest, Nat.lt_trans h₆ (Nat.lt_trans h₅ h)⟩)
termination_by (ts.length, 2)

/-- Reads a block in braces; gives the place of its closing brace as well. -/
def block (stop : ByteRange) (ts : List PlacedToken)
    : Reading (List Stmt × ByteRange) ts.length := do
  let (_, ⟨rest, h⟩) ← expect stop (.mark .braceOpen) .braceOpen ts
  stmts stop [] rest h
termination_by (ts.length, 1)

/-- Reads statements up to the closing brace, after those in the reversed `done`. -/
def stmts (stop : ByteRange) {n : Nat} (done : List Stmt) (ts : List PlacedToken)
    (h : ts.length < n) : Reading (List Stmt × ByteRange) n :=
  match take? (.mark .braceClose) ts with
  | some (close, ⟨rest, h₁⟩) =>
    return ((done.reverse, close), ⟨rest, Nat.lt_trans h₁ h⟩)
  | none => do
    if ts.isEmpty then throw (unexpected stop .braceClose ts)
    let (s, ⟨rest, h₁⟩) ← stmt stop ts
    stmts stop (s :: done) rest (Nat.lt_trans h₁ h)
termination_by (ts.length, 4)

end

/-- Reads parameters up to the closing parenthesis, after those in the reversed `done`. -/
def params (stop : ByteRange) {n : Nat} (done : List Param) (ts : List PlacedToken)
    (h : ts.length < n) : Reading (List Param) n :=
  match take? (.mark .parenClose) ts with
  | some (_, ⟨rest, h₁⟩) => return (done.reverse, ⟨rest, Nat.lt_trans h₁ h⟩)
  | none => do
    let ((name, range), ⟨rest, h₁⟩) ← expectIdent stop ts
    match take? (.mark .comma) rest with
    | some (_, ⟨rest, h₂⟩) =>
      params stop (⟨name, range⟩ :: done) rest (Nat.lt_trans h₂ (Nat.lt_trans h₁ h))
    | none =>
      let (_, ⟨rest, h₂⟩) ← expect stop (.mark .parenClose) .parenCloseOrComma rest
      return ((⟨name, range⟩ :: done).reverse,
        ⟨rest, Nat.lt_trans h₂ (Nat.lt_trans h₁ h)⟩)
termination_by ts.length

/-- Reads a definition from its `fn` on; with a `gen` before it, it starts there. -/
def signatureAndBody (stop start : ByteRange) (isGenerator : Bool) (ts : List PlacedToken)
    : Reading Definition ts.length := do
  let (_, ⟨rest, h₁⟩) ← expect stop (.keyword .fn) .fn ts
  let ((name, _), ⟨rest, h₂⟩) ← expectIdent stop rest
  let (_, ⟨rest, h₃⟩) ← expect stop (.mark .parenOpen) .parenOpen rest
  let (params, ⟨rest, h₄⟩) ← params stop [] rest h₃
  let ((body, close), ⟨rest, h₅⟩) ← block stop rest
  return (⟨name, params, isGenerator, body, start.merge close⟩,
    ⟨rest, Nat.lt_trans h₅ (Nat.lt_trans h₄ (Nat.lt_trans h₂ h₁))⟩)

/-- Reads a definition. -/
def definition (stop : ByteRange) (ts : List PlacedToken)
    : Reading Definition ts.length :=
  match take? (.keyword .gen) ts with
  | some (start, ⟨rest, h⟩) => do
    let (d, ⟨rest, h₁⟩) ← signatureAndBody stop start true rest
    return (d, ⟨rest, Nat.lt_trans h₁ h⟩)
  | none => signatureAndBody stop (startRange stop ts) false ts

/-- Reads definitions until no token is left, after those in the reversed `done`. -/
def definitions (stop : ByteRange) (done : List Definition) (ts : List PlacedToken)
    : Except Fault (List Definition) := do
  if ts.isEmpty then return done.reverse
  let (d, ⟨rest, _⟩) ← definition stop ts
  definitions stop (d :: done) rest
termination_by ts.length

end Reader

/-- The definition that `tokens` spell; `stop` is the place of the end of input. There has to
be exactly one.
-/
def Definition.ofTokens (stop : ByteRange) (tokens : List PlacedToken)
    : Except Fault Definition :=
  match Reader.definitions stop [] tokens with
  | .error fault => .error fault
  | .ok [definition] => .ok definition
  | .ok [] => .error ⟨.definitionCount 0, stop⟩
  | .ok (first :: second :: rest) =>
    .error ⟨.definitionCount (first :: second :: rest).length, second.range⟩

/-- The definition that a source text spells. -/
def Definition.ofText (source : String) : Except Fault Definition :=
  match PlacedToken.ofText source with
  | .error fault => .error fault
  | .ok tokens =>
    let size := source.utf8ByteSize
    Definition.ofTokens (ByteRange.ofOffsets size size) tokens

end RecordSynth.Source
