import Mathlib.Data.List.Chain
import Mathlib.Data.List.ReduceOption
import RecordSynth.Proofs.Source.Erasure
import RecordSynth.Proofs.Source.Grammar

/-! Writing trees down: each tree is written as tokens with blanks between some of them. The
tokens spell the tree, and no two pieces that touch would be read as one.
-/

namespace RecordSynth

open Source

/-- The token that a literal is written as. -/
def Literal.token : Literal → Token
  | .none => .keyword .none
  | .notApplicable => .keyword .notApplicable
  | .bool true => .keyword .true
  | .bool false => .keyword .false
  | .int n => .int n
  | .str text => .str text

theorem Literal.literal?_token (value : Literal) : Reader.literal? value.token = some value := by
  cases value with
  | bool b => cases b <;> rfl
  | none => rfl
  | notApplicable => rfl
  | int n => rfl
  | str text => rfl

/-- The token that an operator is written as. -/
def Comparator.token : Comparator → Token
  | .equal => .mark .equal
  | .notEqual => .mark .notEqual
  | .same => .keyword .is

theorem Comparator.comparator?_token (op : Comparator)
    : Reader.comparator? op.token = some op := by
  cases op <;> rfl

namespace Source

/-- A piece of a written text: a token, or `none` for a blank. -/
abbrev Piece : Type := Option Token

/-- What follows an item of a list: a comma, and a blank if the list goes on. The last item has
a comma only where the list is written with a trailing one.
-/
def separator {α : Type} (trailing : Bool) (rest : List α) : List Piece :=
  if rest.isEmpty then if trailing then [some (.mark .comma)] else []
  else [some (.mark .comma), none]

/-- The pieces with parentheses around them. -/
def inParens (pieces : List Piece) : List Piece :=
  some (.mark .parenOpen) :: (pieces ++ [some (.mark .parenClose)])

/-- The pieces of `x` where an operand is asked for, which a comparison is not. -/
def guarded (x : Expr) (pieces : List Piece) : List Piece :=
  match x with
  | .compare _ _ _ _ => inParens pieces
  | _ => pieces

mutual

/-- The pieces that an expression is written as. -/
def Expr.written : Expr → List Piece
  | .literal _ value => [some value.token]
  | .var _ name => [some (.ident name)]
  | .attr _ object field =>
      guarded object object.written ++ [some (.mark .dot), some (.ident field)]
  | .call _ callee _ args => some (.ident callee) :: inParens (Expr.writtenAll false args)
  | .tuple _ items => inParens (Expr.writtenAll true items)
  | .compare _ op left right =>
      left.written ++ none :: some op.token :: none :: guarded right right.written

/-- The pieces that a list of expressions is written as. -/
def Expr.writtenAll (trailing : Bool) : List Expr → List Piece
  | [] => []
  | x :: xs => x.written ++ (separator trailing xs ++ Expr.writtenAll trailing xs)

end

/-- The pieces of statements in braces, each with a blank before it. -/
def inBraces (pieces : List Piece) : List Piece :=
  some (.mark .braceOpen) :: (pieces ++ [none, some (.mark .braceClose)])

mutual

/-- The pieces that a statement is written as. -/
def Stmt.written : Stmt → List Piece
  | .assign _ object field value =>
      guarded object object.written
        ++ some (.mark .dot) :: some (.ident field) :: none :: some (.mark .assign) :: none
          :: (value.written ++ [some (.mark .semicolon)])
  | .giveBack _ none => [some (.keyword .return), some (.mark .semicolon)]
  | .giveBack _ (some value) =>
      some (.keyword .return) :: none :: (value.written ++ [some (.mark .semicolon)])
  | .yield _ value =>
      some (.keyword .yield) :: none :: (value.written ++ [some (.mark .semicolon)])
  | .branch _ test thenBody [] =>
      some (.keyword .if) :: none
        :: (test.written ++ none :: inBraces (Stmt.writtenAll thenBody))
  | .branch _ test thenBody (first :: rest) =>
      some (.keyword .if) :: none
        :: (test.written ++ none :: (inBraces (Stmt.writtenAll thenBody)
          ++ none :: some (.keyword .else) :: none
            :: inBraces (Stmt.writtenAll (first :: rest))))
  | .discard _ value => value.written ++ [some (.mark .semicolon)]

/-- The pieces that statements are written as. -/
def Stmt.writtenAll : List Stmt → List Piece
  | [] => []
  | s :: ss => none :: (s.written ++ Stmt.writtenAll ss)

end

/-- The pieces that a list of parameters is written as. -/
def Param.writtenAll : List Param → List Piece
  | [] => []
  | p :: ps => some (.ident p.name) :: (separator false ps ++ Param.writtenAll ps)

/-- The pieces of a definition before its name. -/
def opening (isGenerator : Bool) : List Piece :=
  if isGenerator then [some (.keyword .gen), none, some (.keyword .fn), none]
  else [some (.keyword .fn), none]

/-- The pieces that a definition is written as. -/
def Definition.written (d : Definition) : List Piece :=
  opening d.isGenerator
    ++ some (.ident d.name) :: (inParens (Param.writtenAll d.params)
      ++ none :: inBraces (Stmt.writtenAll d.body))

-----------------------------------------------------------------------------------------
-- What is written spells the tree
-----------------------------------------------------------------------------------------

section Spelling

theorem reduceOption_inParens (pieces : List Piece)
    : (inParens pieces).reduceOption
      = .mark .parenOpen :: (pieces.reduceOption ++ [.mark .parenClose]) := by
  simp [inParens, List.reduceOption_append]

theorem Expr.placedAt_range (x : Expr) : x.placedAt x.range = x := by
  cases x <;> rfl

/-- An expression in parentheses is an operand. -/
theorem Spells.in_parens {x : Expr} {pieces : List Piece}
    (spelled : Spells pieces.reduceOption (.expr x))
    : Spells (inParens pieces).reduceOption (.operand x) := by
  rw [reduceOption_inParens]
  exact .operand (x.placedAt_range ▸ .group spelled)

/-- Where every expression but a comparison is an operand, a guarded one is an operand. -/
theorem Spells.guarded {x : Expr} {pieces : List Piece}
    (spelled : Spells pieces.reduceOption (.expr x))
    (isOperand : (∀ range op left right, x ≠ .compare range op left right)
      → Spells pieces.reduceOption (.operand x))
    : Spells (guarded x pieces).reduceOption (.operand x) := by
  cases x with
  | compare range op left right => exact spelled.in_parens
  | literal range value => exact isOperand nofun
  | var range name => exact isOperand nofun
  | attr range object field => exact isOperand nofun
  | call range callee calleeRange args => exact isOperand nofun
  | tuple range items => exact isOperand nofun

mutual

/-- An expression that is no comparison is written as an operand. -/
theorem Expr.spells_operand (x : Expr)
    (notCompare : ∀ range op left right, x ≠ .compare range op left right)
    : Spells x.written.reduceOption (.operand x) := by
  cases x with
  | literal range value => exact .operand (.literal value.literal?_token)
  | var range name => exact .operand .var
  | attr range object field =>
      have spelled := Spells.guarded (Expr.spells_written object) (Expr.spells_operand object)
      rw [Expr.written, List.reduceOption_append]
      exact .attr spelled
  | call range callee calleeRange args =>
      have spelled := Expr.spells_writtenAll false args
      rw [Expr.written, List.reduceOption_cons_of_some, reduceOption_inParens]
      exact .operand (.call spelled)
  | tuple range items =>
      have spelled := Expr.spells_writtenAll true items
      rw [Expr.written, reduceOption_inParens]
      refine .operand (.tuple spelled ?_)
      intro single
      cases items with
      | nil => cases single
      | cons _ _ => rfl
  | compare range op left right => exact absurd rfl (notCompare range op left right)

/-- An expression is spelled by the tokens that it is written as, by recursion on it. -/
theorem Expr.spells_written (x : Expr) : Spells x.written.reduceOption (.expr x) := by
  cases x with
  | literal range value => exact .expr (Expr.spells_operand (.literal range value) nofun)
  | var range name => exact .expr (Expr.spells_operand (.var range name) nofun)
  | attr range object field => exact .expr (Expr.spells_operand (.attr range object field) nofun)
  | call range callee calleeRange args =>
      exact .expr (Expr.spells_operand (.call range callee calleeRange args) nofun)
  | tuple range items => exact .expr (Expr.spells_operand (.tuple range items) nofun)
  | compare range op left right =>
      have leftSpelled := Expr.spells_written left
      have rightSpelled := Spells.guarded (Expr.spells_written right) (Expr.spells_operand right)
      rw [Expr.written, List.reduceOption_append]
      exact .compare leftSpelled op.comparator?_token rightSpelled

/-- A list of expressions is spelled by the tokens that it is written as. -/
theorem Expr.spells_writtenAll (trailing : Bool) (xs : List Expr)
    : Spells (Expr.writtenAll trailing xs).reduceOption
        (.items (trailing && !xs.isEmpty) xs) := by
  cases xs with
  | nil => cases trailing <;> exact .noItems
  | cons x rest =>
      have first := Expr.spells_written x
      have others := Expr.spells_writtenAll trailing rest
      rw [Expr.writtenAll, List.reduceOption_append, List.reduceOption_append]
      cases rest with
      | nil =>
          cases trailing with
          | false => simpa [separator, Expr.writtenAll] using Spells.lastItem first
          | true => exact .item first .noItems
      | cons y more =>
          have whole := Spells.item first others
          simpa [separator] using whole

end

theorem reduceOption_inBraces (pieces : List Piece)
    : (inBraces pieces).reduceOption
      = .mark .braceOpen :: (pieces.reduceOption ++ [.mark .braceClose]) := by
  simp [inBraces, List.reduceOption_append]

theorem Spells.in_braces {ss : List Stmt} {pieces : List Piece}
    (spelled : Spells pieces.reduceOption (.stmts ss))
    : Spells (inBraces pieces).reduceOption (.block ss) := by
  rw [reduceOption_inBraces]
  exact .block spelled

mutual

/-- A statement is spelled by the tokens that it is written as, by recursion on it. -/
theorem Stmt.spells_written (s : Stmt) : Spells s.written.reduceOption (.stmt s) := by
  cases s with
  | assign range object field value =>
      have target := Spells.guarded object.spells_written object.spells_operand
      have access : Spells _ (.expr (.attr default object field)) := .expr (.attr target)
      have whole : Spells _ (.stmt (.assign range object field value)) :=
        .assign access value.spells_written
      simpa [Stmt.written, List.reduceOption_append] using whole
  | giveBack range value =>
      cases value with
      | none => exact .giveBackNone
      | some value =>
          have whole : Spells _ (.stmt (.giveBack range (some value))) :=
            .giveBack value.spells_written
          simpa [Stmt.written, List.reduceOption_append] using whole
  | yield range value =>
      have whole : Spells _ (.stmt (.yield range value)) := .yield value.spells_written
      simpa [Stmt.written, List.reduceOption_append] using whole
  | branch range test thenBody elseBody =>
      have thenSpelled := (Stmt.spells_writtenAll thenBody).in_braces
      cases elseBody with
      | nil =>
          have whole : Spells _ (.stmt (.branch range test thenBody [])) :=
            .branch (.ifThen test.spells_written thenSpelled)
          simpa [Stmt.written, List.reduceOption_append] using whole
      | cons first rest =>
          have elseSpelled := (Stmt.spells_writtenAll (first :: rest)).in_braces
          have whole : Spells _ (.stmt (.branch range test thenBody (first :: rest))) :=
            .branch (.ifElse test.spells_written thenSpelled elseSpelled)
          simpa [Stmt.written, List.reduceOption_append] using whole
  | discard range value =>
      have whole : Spells _ (.stmt (.discard range value)) := .discard value.spells_written
      simpa [Stmt.written, List.reduceOption_append] using whole

/-- Statements are spelled by the tokens that they are written as. -/
theorem Stmt.spells_writtenAll (ss : List Stmt)
    : Spells (Stmt.writtenAll ss).reduceOption (.stmts ss) := by
  cases ss with
  | nil => exact .noStmts
  | cons s rest =>
      rw [Stmt.writtenAll, List.reduceOption_cons_of_none, List.reduceOption_append]
      exact .nextStmt s.spells_written (Stmt.spells_writtenAll rest)

end

/-- Parameters are spelled by the tokens that they are written as, by induction on them. -/
theorem Param.spells_writtenAll (ps : List Param)
    : SpellsParams (Param.writtenAll ps).reduceOption ps := by
  induction ps with
  | nil => exact .noParams
  | cons p rest ih =>
      cases rest with
      | nil => exact .lastParam
      | cons q more => exact .param ih

/-- A definition is spelled by the tokens that it is written as. -/
theorem Definition.spells_written (d : Definition)
    : SpellsDefinition d.written.reduceOption d := by
  have whole : SpellsDefinition _ d :=
    .definition (Param.spells_writtenAll d.params) (Stmt.spells_writtenAll d.body).in_braces
  have opens : (opening d.isGenerator).reduceOption = openingTokens d.isGenerator := by
    cases d.isGenerator <;> rfl
  simpa [Definition.written, List.reduceOption_append, opens, reduceOption_inParens] using whole

end Spelling

-----------------------------------------------------------------------------------------
-- What is written stays apart when it is read
-----------------------------------------------------------------------------------------

section Joints

/-- Keywords and identifiers are made of the same characters. -/
def Token.isWord : Token → Bool
  | .keyword _ => true
  | .ident _ => true
  | _ => false

/-- Integers are digits, which also continue a word. -/
def Token.isInt : Token → Bool
  | .int _ => true
  | _ => false

/-- Pieces that stay apart when the one is written directly behind the other. -/
def parted : Piece → Piece → Bool
  | none, none => false
  | none, some _ => true
  | some _, none => true
  | some s, some t =>
      !(s.isWord && (t.isWord || t.isInt)) && !(s.isInt && t.isInt)
        && !(s == .mark .assign && (t == .mark .assign || t == .mark .equal))

/-- Pieces that stay apart, with a token at either end. -/
structure Firm (pieces : List Piece) : Prop where
  chain : pieces.IsChain (fun a b => parted a b = true)
  first : ∃ t, pieces.head? = some (some t)
  last : ∃ t, pieces.getLast? = some (some t)

theorem firm_singleton (t : Token) : Firm [some t] :=
  ⟨.singleton _, ⟨t, rfl⟩, ⟨t, rfl⟩⟩

namespace Firm

variable {a b : List Piece}

/-- A blank parts any two tokens. -/
theorem spaced (left : Firm a) (right : Firm b) : Firm (a ++ none :: b) := by
  obtain ⟨s, head⟩ := left.first
  obtain ⟨t, tail⟩ := left.last
  obtain ⟨u, head'⟩ := right.first
  obtain ⟨v, tail'⟩ := right.last
  refine ⟨?_, ⟨s, by simp [head]⟩, ⟨v, by simp [List.getLast?_cons, tail']⟩⟩
  refine List.isChain_append.mpr ⟨left.chain, List.isChain_cons.mpr ⟨?_, right.chain⟩, ?_⟩
  · simp [head', parted]
  · simp [tail, parted]

/-- A mark does not join what stands before it, unless it begins with an equals sign. -/
theorem marked {m : Mark} (left : Firm a) (right : Firm (some (.mark m) :: b))
    (notAssign : m ≠ .assign) (notEqual : m ≠ .equal)
    : Firm (a ++ some (.mark m) :: b) := by
  obtain ⟨s, head⟩ := left.first
  obtain ⟨t, tail⟩ := left.last
  obtain ⟨v, tail'⟩ := right.last
  refine ⟨?_, ⟨s, by simp [head]⟩, ⟨v, by simp [tail']⟩⟩
  refine List.isChain_append.mpr ⟨left.chain, right.chain, ?_⟩
  simp [tail, parted, Token.isWord, Token.isInt, notAssign, notEqual]

/-- A mark does not join what stands behind it, unless it is the equals sign. -/
theorem after_mark {m : Mark} (right : Firm b) (notAssign : m ≠ .assign)
    : Firm (some (.mark m) :: b) := by
  obtain ⟨u, head⟩ := right.first
  obtain ⟨v, tail⟩ := right.last
  refine ⟨List.isChain_cons.mpr ⟨?_, right.chain⟩, ⟨_, rfl⟩, ⟨v, ?_⟩⟩
  · simp [head, parted, Token.isWord, Token.isInt, notAssign]
  · simp [List.getLast?_cons, tail]

end Firm

theorem firm_inParens {pieces : List Piece} (firm : pieces = [] ∨ Firm pieces)
    : Firm (inParens pieces) := by
  have close := firm_singleton (.mark .parenClose)
  rcases firm with rfl | firm
  · exact close.after_mark nofun
  · exact (firm.marked close nofun nofun).after_mark nofun

theorem firm_guarded {x : Expr} {pieces : List Piece} (firm : Firm pieces)
    : Firm (guarded x pieces) := by
  unfold guarded
  split
  · exact firm_inParens (Or.inr firm)
  · exact firm

mutual

/-- What an expression is written as stays apart, by recursion on the expression. -/
theorem Expr.firm_written (x : Expr) : Firm x.written := by
  cases x with
  | literal range value => exact firm_singleton _
  | var range name => exact firm_singleton _
  | attr range object field =>
      have access := (firm_singleton (.ident field)).after_mark (m := .dot) nofun
      exact (firm_guarded (Expr.firm_written object)).marked access nofun nofun
  | call range callee calleeRange args =>
      exact (firm_singleton _).marked (firm_inParens (Expr.firm_writtenAll false args)) nofun nofun
  | tuple range items => exact firm_inParens (Expr.firm_writtenAll true items)
  | compare range op left right =>
      have rightFirm := firm_guarded (x := right) (Expr.firm_written right)
      exact (Expr.firm_written left).spaced ((firm_singleton _).spaced rightFirm)

/-- What a list of expressions is written as stays apart. -/
theorem Expr.firm_writtenAll (trailing : Bool) (xs : List Expr)
    : Expr.writtenAll trailing xs = [] ∨ Firm (Expr.writtenAll trailing xs) := by
  cases xs with
  | nil => exact Or.inl rfl
  | cons x rest =>
      refine Or.inr ?_
      have first := Expr.firm_written x
      have comma := firm_singleton (.mark .comma)
      cases rest with
      | nil =>
          cases trailing with
          | false => simpa [Expr.writtenAll, separator] using first
          | true => exact first.marked comma nofun nofun
      | cons y more =>
          -- Further expressions are written as something, so there is a blank behind the comma.
          rcases Expr.firm_writtenAll trailing (y :: more) with empty | others
          · have written := Expr.firm_written y
            obtain ⟨t, head⟩ := written.first
            rw [Expr.writtenAll, List.append_eq_nil_iff] at empty
            rw [empty.1] at head
            cases head
          · exact first.marked (comma.spaced others) nofun nofun

end

theorem firm_inBraces {pieces : List Piece}
    (firm : pieces = [] ∨ ∃ more, pieces = none :: more ∧ Firm more)
    : Firm (inBraces pieces) := by
  rcases firm with rfl | ⟨more, rfl, firm⟩
  · exact (firm_singleton _).spaced (firm_singleton _)
  · exact (firm_singleton _).spaced (firm.spaced (firm_singleton _))

mutual

/-- What a statement is written as stays apart, by recursion on the statement. -/
theorem Stmt.firm_written (s : Stmt) : Firm s.written := by
  have semicolon := firm_singleton (.mark .semicolon)
  cases s with
  | assign range object field value =>
      have stored := value.firm_written.marked semicolon nofun nofun
      have equals := (firm_singleton (.mark .assign)).spaced stored
      have access := ((firm_singleton (.ident field)).spaced equals).after_mark (m := .dot) nofun
      exact (firm_guarded object.firm_written).marked access nofun nofun
  | giveBack range value =>
      cases value with
      | none => exact (firm_singleton _).marked semicolon nofun nofun
      | some value =>
          exact (firm_singleton _).spaced (value.firm_written.marked semicolon nofun nofun)
  | yield range value =>
      exact (firm_singleton _).spaced (value.firm_written.marked semicolon nofun nofun)
  | branch range test thenBody elseBody =>
      have thenFirm := firm_inBraces (Stmt.firm_writtenAll thenBody)
      cases elseBody with
      | nil => exact (firm_singleton _).spaced (test.firm_written.spaced thenFirm)
      | cons first rest =>
          have elseFirm := firm_inBraces (Stmt.firm_writtenAll (first :: rest))
          have bodies := thenFirm.spaced ((firm_singleton (.keyword .else)).spaced elseFirm)
          exact (firm_singleton _).spaced (test.firm_written.spaced bodies)
  | discard range value => exact value.firm_written.marked semicolon nofun nofun

/-- What statements are written as stays apart, each with a blank before it. -/
theorem Stmt.firm_writtenAll (ss : List Stmt)
    : Stmt.writtenAll ss = [] ∨ ∃ more, Stmt.writtenAll ss = none :: more ∧ Firm more := by
  cases ss with
  | nil => exact Or.inl rfl
  | cons s rest =>
      refine Or.inr ⟨_, rfl, ?_⟩
      rcases Stmt.firm_writtenAll rest with empty | ⟨more, written, firm⟩
      · rw [empty, List.append_nil]
        exact Stmt.firm_written s
      · rw [written]
        exact (Stmt.firm_written s).spaced firm

end

/-- What parameters are written as stays apart, by induction on them. -/
theorem Param.firm_writtenAll (ps : List Param)
    : Param.writtenAll ps = [] ∨ Firm (Param.writtenAll ps) := by
  induction ps with
  | nil => exact Or.inl rfl
  | cons p rest ih =>
      refine Or.inr ?_
      cases rest with
      | nil => exact firm_singleton _
      | cons q more =>
          rcases ih with empty | others
          · cases empty
          · have comma := firm_singleton (.mark .comma)
            exact (firm_singleton _).marked (comma.spaced others) nofun nofun

/-- What a definition is written as stays apart. -/
theorem Definition.firm_written (d : Definition) : Firm d.written := by
  have params := firm_inParens (Param.firm_writtenAll d.params)
  have body := firm_inBraces (Stmt.firm_writtenAll d.body)
  have signature := (firm_singleton (.ident d.name)).marked (params.spaced body) nofun nofun
  unfold Definition.written opening
  split
  · exact (firm_singleton _).spaced ((firm_singleton _).spaced signature)
  · exact (firm_singleton _).spaced signature

end Joints

end Source

end RecordSynth
