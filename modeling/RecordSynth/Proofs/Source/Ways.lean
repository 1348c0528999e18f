import Mathlib.Order.Basic
import RecordSynth.Proofs.Source.Derivation

/-! Ways of reading. A way relates tokens to what reading them comes to, without the bound on what
remains, so that readings of different tokens can be compared. For each function of the reader, the
way that it reads is put together from the ways of those that it calls (`exprWay` for `expr`, with
`expr_le`, and so on), so what holds of ways is proved for one combinator after the other.
-/

namespace RecordSynth.Source.Reader

-----------------------------------------------------------------------------------------
-- Ways of reading
-----------------------------------------------------------------------------------------

/-- A phrase and the tokens that remain, or a fault. -/
abbrev Outcome (α : Type) : Type := Except Fault (α × List PlacedToken)

/-- What the reading comes to. -/
def outcome {α : Type} {n : Nat} (reading : Reading α n) : Outcome α :=
  reading.map fun given => (given.1, given.2.1)

/-- A way of reading: what tokens can come to. -/
abbrev Way (α : Type) : Type := List PlacedToken → Outcome α → Prop

/-- The way that a function reads. -/
def way {α : Type} (read : (ts : List PlacedToken) → Reading α ts.length) : Way α :=
  fun ts o => o = outcome (read ts)

/-- The way that a function reads, in whatever bound. -/
def boundedWay {α : Type}
    (read : (n : Nat) → (ts : List PlacedToken) → ts.length < n → Reading α n) : Way α :=
  fun ts o => ∃ n bound, o = outcome (read n ts bound)

namespace Way

/-- Nothing is taken, and `a` is given. -/
def done {α : Type} (a : α) : Way α :=
  fun ts o => o = .ok (a, ts)

/-- The first token is not what is expected. -/
def unexpected {α : Type} (stop : ByteRange) (expected : Expected) : Way α :=
  fun ts o => o = .error (Reader.unexpected stop expected ts)

/-- Reading fails whatever comes next. -/
def fails {α : Type} (fault : Fault) : Way α :=
  fun _ o => o = .error fault

/-- If `take` takes a token, reading goes on behind it, and otherwise without it. -/
def choose {α β : Type} (take : (ts : List PlacedToken) → Option (β × Rest ts.length))
    (yes : β → Way α) (no : Way α) : Way α :=
  fun ts o =>
    match take ts with
    | some (b, ⟨rest, _⟩) => yes b rest o
    | none => no ts o

/-- One way of reading, told where the first token stands. -/
def fromStart {α : Type} (stop : ByteRange) (reads : ByteRange → Way α) : Way α :=
  fun ts => reads (startRange stop ts) ts

/-- One way of reading where no token is left, and another one elsewhere. -/
def ifNil {α : Type} (none some : Way α) : Way α
  | [] => none []
  | t :: rest => some (t :: rest)

/-- One way of reading, and behind what it takes another one. -/
def andThen {α β : Type} (reads : Way α) (next : α → Way β) : Way β :=
  fun ts o => (∃ a rest, reads ts (.ok (a, rest)) ∧ next a rest o)
    ∨ ∃ fault, reads ts (.error fault) ∧ o = .error fault

/-- What is given is formed by the tokens taken for it. -/
def Derives {α : Type} (reads : Way α) (ts : List PlacedToken)
    (forms : α → List PlacedToken → Prop) : Prop :=
  ∀ a rest, reads ts (.ok (a, rest)) → ∃ taken, ts = taken ++ rest ∧ forms a taken

end Way

section Ways

variable {α β : Type} {n m : Nat} {ts : List PlacedToken} {forms : α → List PlacedToken → Prop}

theorem exists_of_outcome {reading : Reading α n} {a : α} {rest : List PlacedToken}
    (h : .ok (a, rest) = outcome reading)
    : ∃ shorter, reading = .ok (a, ⟨rest, shorter⟩) := by
  cases reading with
  | error _ => cases h
  | ok given =>
      obtain ⟨_, _, shorter⟩ := given
      cases h
      exact ⟨shorter, rfl⟩

theorem Derives.way {read : (ts : List PlacedToken) → Reading α ts.length}
    (h : Derives ts (read ts) forms)
    : (way read).Derives ts forms := by
  intro a rest given
  obtain ⟨shorter, success⟩ := exists_of_outcome given
  exact h a ⟨rest, shorter⟩ success

theorem derives_boundedWay
    {read : (n : Nat) → (ts : List PlacedToken) → ts.length < n → Reading α n}
    (h : ∀ n bound, Derives ts (read n ts bound) forms)
    : (boundedWay read).Derives ts forms := by
  rintro a rest ⟨n, bound, given⟩
  obtain ⟨shorter, success⟩ := exists_of_outcome given
  exact h n bound a ⟨rest, shorter⟩ success

/-- A reading that goes on with a second one reads both ways. -/
theorem andThen_of_bind {reads : Way α} {next : α → Way β} {reading : Reading α n}
    {more : α × Rest n → Reading β m} (first : reads ts (outcome reading))
    (second : ∀ a rest shorter, next a rest (outcome (more (a, ⟨rest, shorter⟩))))
    : (reads.andThen next) ts (outcome (reading >>= more)) := by
  cases reading with
  | error fault => exact Or.inr ⟨fault, first, rfl⟩
  | ok given =>
      obtain ⟨a, rest, shorter⟩ := given
      exact Or.inl ⟨a, rest, first, second a rest shorter⟩

end Ways

-----------------------------------------------------------------------------------------
-- Single tokens
-----------------------------------------------------------------------------------------

section Tokens

variable (stop : ByteRange)

def expectWay (token : Token) (expected : Expected) : Way ByteRange :=
  .choose (take? token) .done (.unexpected stop expected)

theorem expect_le (token : Token) (expected : Expected)
    : way (expect stop token expected) ≤ expectWay stop token expected := by
  rintro ts _ rfl
  rw [expect, expectWay, Way.choose]
  cases take? token ts <;> rfl

def identWay : Way (String × ByteRange) :=
  .choose (takeIf? ident?) .done (.unexpected stop .identifier)

theorem expectIdent_le : way (expectIdent stop) ≤ identWay stop := by
  rintro ts _ rfl
  rw [expectIdent, identWay, Way.choose]
  cases takeIf? ident? ts <;> rfl

end Tokens

-----------------------------------------------------------------------------------------
-- Expressions
-----------------------------------------------------------------------------------------

section Expressions

variable (stop : ByteRange)

def exprWay : Way Expr :=
  (way (operand stop)).andThen fun left => boundedWay fun _ => comparisons stop left

theorem expr_le : way (expr stop) ≤ exprWay stop := by
  rintro ts _ rfl
  rw [expr]
  exact andThen_of_bind rfl fun _ _ shorter => ⟨_, shorter, rfl⟩

def comparisonsWay (left : Expr) : Way Expr :=
  .choose (takeIf? comparator?)
    (fun operator => (way (operand stop)).andThen fun right => boundedWay fun _ =>
      comparisons stop (.compare (left.range.merge right.range) operator.1 left right))
    (.done left)

theorem comparisons_le (left : Expr)
    : (boundedWay fun _ => comparisons stop left) ≤ comparisonsWay stop left := by
  rintro ts _ ⟨n, bound, rfl⟩
  dsimp only
  rw [comparisons, comparisonsWay, Way.choose]
  cases takeIf? comparator? ts with
  | none => rfl
  | some _ => exact andThen_of_bind rfl fun _ _ _ => ⟨n, _, rfl⟩

def operandWay : Way Expr :=
  (way (primary stop)).andThen fun object => boundedWay fun _ => attributes stop object

theorem operand_le : way (operand stop) ≤ operandWay stop := by
  rintro ts _ rfl
  rw [operand]
  exact andThen_of_bind rfl fun _ _ shorter => ⟨_, shorter, rfl⟩

def attributesWay (object : Expr) : Way Expr :=
  .choose (take? (.mark .dot))
    (fun _ => (way (expectIdent stop)).andThen fun named => boundedWay fun _ =>
      attributes stop (.attr (object.range.merge named.2) object named.1))
    (.done object)

theorem attributes_le (object : Expr)
    : (boundedWay fun _ => attributes stop object) ≤ attributesWay stop object := by
  rintro ts _ ⟨n, bound, rfl⟩
  dsimp only
  rw [attributes, attributesWay, Way.choose]
  cases take? (.mark .dot) ts with
  | none => rfl
  | some _ => exact andThen_of_bind rfl fun _ _ _ => ⟨n, _, rfl⟩

def primaryWay : Way Expr :=
  .choose (takeIf? ident?)
    (fun named => .choose (take? (.mark .parenOpen))
      (fun _ => (boundedWay fun _ => items stop [] false).andThen fun list =>
        .done (.call (named.2.merge list.close) named.1 named.2 list.items))
      (.done (.var named.2 named.1)))
    (.choose (take? (.mark .parenOpen))
      (fun start => (boundedWay fun _ => items stop [] false).andThen fun list =>
        .done (list.expr start))
      (.choose (takeIf? literal?) (fun read => .done (.literal read.2 read.1))
        (.unexpected stop .expression)))

theorem primary_le : way (primary stop) ≤ primaryWay stop := by
  rintro ts _ rfl
  rw [primary, primaryWay, Way.choose]
  cases takeIf? ident? ts with
  | some named =>
      obtain ⟨_, rest, _⟩ := named
      dsimp only
      rw [Way.choose]
      cases take? (.mark .parenOpen) rest with
      | some _ => exact andThen_of_bind ⟨_, _, rfl⟩ fun _ _ _ => rfl
      | none => rfl
  | none =>
      dsimp only
      rw [Way.choose]
      cases take? (.mark .parenOpen) ts with
      | some _ => exact andThen_of_bind ⟨_, _, rfl⟩ fun _ _ _ => rfl
      | none =>
          dsimp only
          rw [Way.choose]
          cases takeIf? literal? ts <;> rfl

def itemsWay (done : List Expr) (comma : Bool) : Way Items :=
  .choose (take? (.mark .parenClose)) (fun close => .done ⟨done.reverse, comma, close⟩)
    ((way (expr stop)).andThen fun item => .choose (take? (.mark .comma))
      (fun _ => boundedWay fun _ => items stop (item :: done) true)
      ((way (expect stop (.mark .parenClose) .parenCloseOrComma)).andThen fun close =>
        .done ⟨(item :: done).reverse, false, close⟩))

theorem items_le (done : List Expr) (comma : Bool)
    : (boundedWay fun _ => items stop done comma) ≤ itemsWay stop done comma := by
  rintro ts _ ⟨n, bound, rfl⟩
  dsimp only
  rw [items, itemsWay, Way.choose]
  cases take? (.mark .parenClose) ts with
  | some _ => rfl
  | none =>
      refine andThen_of_bind rfl fun item rest _ => ?_
      rw [Way.choose]
      dsimp only
      cases take? (.mark .comma) rest with
      | some _ => exact ⟨n, _, rfl⟩
      | none => exact andThen_of_bind rfl fun _ _ _ => rfl

end Expressions

-----------------------------------------------------------------------------------------
-- Statements
-----------------------------------------------------------------------------------------

section Statements

variable (stop : ByteRange)

def lineWay : Way (Expr × ByteRange) :=
  (way (expr stop)).andThen fun value =>
    (way (expect stop (.mark .semicolon) .semicolon)).andThen fun close => .done (value, close)

theorem exprThenSemicolon_le : (boundedWay fun _ => exprThenSemicolon stop) ≤ lineWay stop := by
  rintro ts _ ⟨n, bound, rfl⟩
  exact andThen_of_bind rfl fun _ _ _ => andThen_of_bind rfl fun _ _ _ => rfl

/-- Only attributes can be assigned. -/
def assignWay (start : ByteRange) : Expr → Way Stmt
  | .attr _ object field => (boundedWay fun _ => exprThenSemicolon stop).andThen fun line =>
      .done (.assign (start.merge line.2) object field line.1)
  | target => .fails ⟨.assignmentTarget, target.range⟩

def targetWay (start : ByteRange) : Way Stmt :=
  (way (expr stop)).andThen fun target => .choose (take? (.mark .assign))
    (fun _ => assignWay stop start target)
    ((way (expect stop (.mark .semicolon) .semicolonOrAssign)).andThen fun close =>
      .done (.discard (start.merge close) target))

theorem assignmentOrExpr_le
    : way (assignmentOrExpr stop) ≤ .fromStart stop (targetWay stop) := by
  rintro ts _ rfl
  rw [assignmentOrExpr]
  refine andThen_of_bind rfl fun target rest _ => ?_
  rw [Way.choose]
  dsimp only
  cases take? (.mark .assign) rest with
  | none => exact andThen_of_bind rfl fun _ _ _ => rfl
  | some _ =>
      cases target with
      | attr _ _ _ => exact andThen_of_bind ⟨_, _, rfl⟩ fun _ _ _ => rfl
      | _ => rfl

def giveBackWay (start : ByteRange) : Way Stmt :=
  .choose (take? (.mark .semicolon))
    (fun close => .done (.giveBack (start.merge close) none))
    ((boundedWay fun _ => exprThenSemicolon stop).andThen fun line =>
      .done (.giveBack (start.merge line.2) (some line.1)))

theorem giveBack_le (start : ByteRange)
    : (boundedWay fun _ => giveBack stop start) ≤ giveBackWay stop start := by
  rintro ts _ ⟨n, bound, rfl⟩
  dsimp only
  rw [giveBack, giveBackWay, Way.choose]
  cases take? (.mark .semicolon) ts with
  | some _ => rfl
  | none => exact andThen_of_bind ⟨_, _, rfl⟩ fun _ _ _ => rfl

def stmtWay : Way Stmt :=
  .choose (take? (.keyword .return)) (fun start => boundedWay fun _ => giveBack stop start)
    (.choose (take? (.keyword .yield))
      (fun start => (boundedWay fun _ => exprThenSemicolon stop).andThen fun line =>
        .done (.yield (start.merge line.2) line.1))
      (.choose (take? (.keyword .if)) (fun start => boundedWay fun _ => branch stop start)
        (way (assignmentOrExpr stop))))

theorem stmt_le : way (stmt stop) ≤ stmtWay stop := by
  rintro ts _ rfl
  rw [stmt, stmtWay, Way.choose]
  cases take? (.keyword .return) ts with
  | some _ => exact ⟨_, _, rfl⟩
  | none =>
      dsimp only
      rw [Way.choose]
      cases take? (.keyword .yield) ts with
      | some _ => exact andThen_of_bind ⟨_, _, rfl⟩ fun _ _ _ => rfl
      | none =>
          dsimp only
          rw [Way.choose]
          cases take? (.keyword .if) ts with
          | some _ => exact ⟨_, _, rfl⟩
          | none => rfl

/-- The way that what follows the body of a branch is read. -/
def elseWay (start : ByteRange) (test : Expr) (thenBody : List Stmt) (close : ByteRange)
    : Way Stmt :=
  .choose (take? (.keyword .else))
    (fun _ => .choose (take? (.keyword .if))
      (fun nestedStart => (boundedWay fun _ => branch stop nestedStart).andThen fun nested =>
        .done (.branch (start.merge nested.range) test thenBody [nested]))
      ((way (block stop)).andThen fun body =>
        .done (.branch (start.merge body.2) test thenBody body.1)))
    (.done (.branch (start.merge close) test thenBody []))

def branchWay (start : ByteRange) : Way Stmt :=
  (way (expr stop)).andThen fun test => (way (block stop)).andThen fun body =>
    elseWay stop start test body.1 body.2

theorem branch_le (start : ByteRange)
    : (boundedWay fun _ => branch stop start) ≤ branchWay stop start := by
  rintro ts _ ⟨n, bound, rfl⟩
  dsimp only
  rw [branch]
  refine andThen_of_bind rfl fun test _ _ => andThen_of_bind rfl fun body rest _ => ?_
  rw [elseWay, Way.choose]
  dsimp only
  cases take? (.keyword .else) rest with
  | none => rfl
  | some divider =>
      obtain ⟨_, rest, _⟩ := divider
      dsimp only
      rw [Way.choose]
      cases take? (.keyword .if) rest with
      | some _ => exact andThen_of_bind ⟨_, _, rfl⟩ fun _ _ _ => rfl
      | none => exact andThen_of_bind rfl fun _ _ _ => rfl

def blockWay : Way (List Stmt × ByteRange) :=
  (way (expect stop (.mark .braceOpen) .braceOpen)).andThen fun _ =>
    boundedWay fun _ => stmts stop []

theorem block_le : way (block stop) ≤ blockWay stop := by
  rintro ts _ rfl
  rw [block]
  exact andThen_of_bind rfl fun _ _ shorter => ⟨_, shorter, rfl⟩

def stmtsWay (done : List Stmt) : Way (List Stmt × ByteRange) :=
  .choose (take? (.mark .braceClose)) (fun close => .done (done.reverse, close))
    (.ifNil (.unexpected stop .braceClose)
      ((way (stmt stop)).andThen fun s => boundedWay fun _ => stmts stop (s :: done)))

theorem stmts_le (done : List Stmt)
    : (boundedWay fun _ => stmts stop done) ≤ stmtsWay stop done := by
  rintro ts _ ⟨n, bound, rfl⟩
  dsimp only
  rw [stmts, stmtsWay, Way.choose]
  cases take? (.mark .braceClose) ts with
  | some _ => rfl
  | none =>
      cases ts with
      | nil => rfl
      | cons t rest => exact andThen_of_bind rfl fun _ _ _ => ⟨n, _, rfl⟩

end Statements

-----------------------------------------------------------------------------------------
-- Definitions
-----------------------------------------------------------------------------------------

section Definitions

variable (stop : ByteRange)

def paramsWay (done : List Param) : Way (List Param) :=
  .choose (take? (.mark .parenClose)) (fun _ => .done done.reverse)
    ((way (expectIdent stop)).andThen fun named => .choose (take? (.mark .comma))
      (fun _ => boundedWay fun _ => params stop (⟨named.1, named.2⟩ :: done))
      ((way (expect stop (.mark .parenClose) .parenCloseOrComma)).andThen fun _ =>
        .done (⟨named.1, named.2⟩ :: done).reverse))

theorem params_le (done : List Param)
    : (boundedWay fun _ => params stop done) ≤ paramsWay stop done := by
  rintro ts _ ⟨n, bound, rfl⟩
  dsimp only
  rw [params, paramsWay, Way.choose]
  cases take? (.mark .parenClose) ts with
  | some _ => rfl
  | none =>
      refine andThen_of_bind rfl fun named rest _ => ?_
      rw [Way.choose]
      dsimp only
      cases take? (.mark .comma) rest with
      | some _ => exact ⟨n, _, rfl⟩
      | none => exact andThen_of_bind rfl fun _ _ _ => rfl

def signatureWay (start : ByteRange) (isGenerator : Bool) : Way Definition :=
  (way (expect stop (.keyword .fn) .fn)).andThen fun _ =>
    (way (expectIdent stop)).andThen fun named =>
    (way (expect stop (.mark .parenOpen) .parenOpen)).andThen fun _ =>
    (boundedWay fun _ => params stop []).andThen fun params =>
    (way (block stop)).andThen fun body =>
      .done ⟨named.1, params, isGenerator, body.1, start.merge body.2⟩

theorem signatureAndBody_le (start : ByteRange) (isGenerator : Bool)
    : way (signatureAndBody stop start isGenerator) ≤ signatureWay stop start isGenerator := by
  rintro ts _ rfl
  rw [signatureAndBody]
  refine andThen_of_bind rfl fun _ _ _ => andThen_of_bind rfl fun _ _ _ => ?_
  refine andThen_of_bind rfl fun _ _ _ => andThen_of_bind ⟨_, _, rfl⟩ fun _ _ _ => ?_
  exact andThen_of_bind rfl fun _ _ _ => rfl

def definitionWay : Way Definition :=
  .choose (take? (.keyword .gen))
    (fun start => (way (signatureAndBody stop start true)).andThen .done)
    (.fromStart stop fun start => way (signatureAndBody stop start false))

theorem definition_le : way (definition stop) ≤ definitionWay stop := by
  rintro ts _ rfl
  rw [definition, definitionWay, Way.choose]
  cases take? (.keyword .gen) ts with
  | none => rfl
  | some _ => exact andThen_of_bind rfl fun _ _ _ => rfl

/-- The way that definitions are read until no token is left. -/
def definitionsWay (done : List Definition) : Way (List Definition) :=
  fun ts o => o = (definitions stop done ts).map fun ds => (ds, [])

theorem definitions_le (done : List Definition)
    : definitionsWay stop done ≤ .ifNil (.done done.reverse)
        ((way (definition stop)).andThen fun d => definitionsWay stop (d :: done)) := by
  rintro ts _ rfl
  rw [definitions]
  cases ts with
  | nil => rfl
  | cons t rest =>
      cases given : definition stop (t :: rest) with
      | error fault => exact Or.inr ⟨fault, by rw [way, given]; rfl, rfl⟩
      | ok read =>
          obtain ⟨d, rest', _⟩ := read
          exact Or.inl ⟨d, rest', by rw [way, given]; rfl, rfl⟩

end Definitions

end RecordSynth.Source.Reader
