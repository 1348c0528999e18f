import RecordSynth.Source.Reader

/-! The grammar, as what tokens spell which phrase. Places of tokens play no part in it, and the
places in the phrases are free. Comparisons and attribute accesses group to the left.
-/

namespace RecordSynth.Source

/-- The phrases of the grammar. A list of items says as well whether a comma ends it, and a
branch is what follows its `if`.
-/
inductive Phrase where
  | primary (x : Expr)
  | operand (x : Expr)
  | expr (x : Expr)
  | items (comma : Bool) (xs : List Expr)
  | stmt (s : Stmt)
  | branch (s : Stmt)
  | block (ss : List Stmt)
  | stmts (ss : List Stmt)

/-- The tokens spell the phrase. -/
inductive Spells : List Token → Phrase → Prop where
  | literal {t : Token} {value : Literal} {range : ByteRange}
      (spelled : Reader.literal? t = some value)
      : Spells [t] (.primary (.literal range value))
  | var {name : String} {range : ByteRange}
      : Spells [.ident name] (.primary (.var range name))
  | call {ts : List Token} {callee : String} {comma : Bool} {args : List Expr}
      {range calleeRange : ByteRange} (spelled : Spells ts (.items comma args))
      : Spells (.ident callee :: .mark .parenOpen :: (ts ++ [.mark .parenClose]))
          (.primary (.call range callee calleeRange args))
  | group {ts : List Token} {x : Expr} {range : ByteRange} (spelled : Spells ts (.expr x))
      : Spells (.mark .parenOpen :: (ts ++ [.mark .parenClose])) (.primary (x.placedAt range))
  | tuple {ts : List Token} {comma : Bool} {xs : List Expr} {range : ByteRange}
      (spelled : Spells ts (.items comma xs)) (marked : xs.length = 1 → comma = true)
      : Spells (.mark .parenOpen :: (ts ++ [.mark .parenClose])) (.primary (.tuple range xs))
  | operand {ts : List Token} {x : Expr} (spelled : Spells ts (.primary x))
      : Spells ts (.operand x)
  | attr {ts : List Token} {x : Expr} {field : String} {range : ByteRange}
      (spelled : Spells ts (.operand x))
      : Spells (ts ++ [.mark .dot, .ident field]) (.operand (.attr range x field))
  | expr {ts : List Token} {x : Expr} (spelled : Spells ts (.operand x))
      : Spells ts (.expr x)
  | compare {ts us : List Token} {t : Token} {op : Comparator} {left right : Expr}
      {range : ByteRange} (leftSpelled : Spells ts (.expr left))
      (operator : Reader.comparator? t = some op) (rightSpelled : Spells us (.operand right))
      : Spells (ts ++ t :: us) (.expr (.compare range op left right))
  | noItems : Spells [] (.items false [])
  | lastItem {ts : List Token} {x : Expr} (spelled : Spells ts (.expr x))
      : Spells ts (.items false [x])
  | item {ts us : List Token} {x : Expr} {comma : Bool} {xs : List Expr}
      (first : Spells ts (.expr x)) (rest : Spells us (.items comma xs))
      : Spells (ts ++ .mark .comma :: us) (.items (comma || xs.isEmpty) (x :: xs))
  | assign {ts us : List Token} {object value : Expr} {field : String}
      {range targetRange : ByteRange} (target : Spells ts (.expr (.attr targetRange object field)))
      (spelled : Spells us (.expr value))
      : Spells (ts ++ .mark .assign :: (us ++ [.mark .semicolon]))
          (.stmt (.assign range object field value))
  | giveBackNone {range : ByteRange}
      : Spells [.keyword .return, .mark .semicolon] (.stmt (.giveBack range none))
  | giveBack {ts : List Token} {value : Expr} {range : ByteRange}
      (spelled : Spells ts (.expr value))
      : Spells (.keyword .return :: (ts ++ [.mark .semicolon]))
          (.stmt (.giveBack range (some value)))
  | yield {ts : List Token} {value : Expr} {range : ByteRange}
      (spelled : Spells ts (.expr value))
      : Spells (.keyword .yield :: (ts ++ [.mark .semicolon])) (.stmt (.yield range value))
  | discard {ts : List Token} {value : Expr} {range : ByteRange}
      (spelled : Spells ts (.expr value))
      : Spells (ts ++ [.mark .semicolon]) (.stmt (.discard range value))
  | branch {ts : List Token} {s : Stmt} (spelled : Spells ts (.branch s))
      : Spells (.keyword .if :: ts) (.stmt s)
  | ifThen {ts us : List Token} {test : Expr} {thenBody : List Stmt} {range : ByteRange}
      (testSpelled : Spells ts (.expr test)) (thenSpelled : Spells us (.block thenBody))
      : Spells (ts ++ us) (.branch (.branch range test thenBody []))
  | ifElse {ts us vs : List Token} {test : Expr} {thenBody elseBody : List Stmt}
      {range : ByteRange} (testSpelled : Spells ts (.expr test))
      (thenSpelled : Spells us (.block thenBody)) (elseSpelled : Spells vs (.block elseBody))
      : Spells (ts ++ (us ++ .keyword .else :: vs))
          (.branch (.branch range test thenBody elseBody))
  | elseIf {ts us vs : List Token} {test : Expr} {thenBody : List Stmt} {nested : Stmt}
      {range : ByteRange} (testSpelled : Spells ts (.expr test))
      (thenSpelled : Spells us (.block thenBody)) (nestedSpelled : Spells vs (.branch nested))
      : Spells (ts ++ (us ++ .keyword .else :: .keyword .if :: vs))
          (.branch (.branch range test thenBody [nested]))
  | block {ts : List Token} {ss : List Stmt} (spelled : Spells ts (.stmts ss))
      : Spells (.mark .braceOpen :: (ts ++ [.mark .braceClose])) (.block ss)
  | noStmts : Spells [] (.stmts [])
  | nextStmt {ts us : List Token} {s : Stmt} {ss : List Stmt} (first : Spells ts (.stmt s))
      (rest : Spells us (.stmts ss))
      : Spells (ts ++ us) (.stmts (s :: ss))

/-- The tokens spell the list of parameters. -/
inductive SpellsParams : List Token → List Param → Prop where
  | noParams : SpellsParams [] []
  | lastParam {name : String} {range : ByteRange} : SpellsParams [.ident name] [⟨name, range⟩]
  | param {name : String} {range : ByteRange} {ts : List Token} {ps : List Param}
      (rest : SpellsParams ts ps)
      : SpellsParams (.ident name :: .mark .comma :: ts) (⟨name, range⟩ :: ps)

/-- The tokens of a definition before its name. -/
def openingTokens (isGenerator : Bool) : List Token :=
  if isGenerator then [.keyword .gen, .keyword .fn] else [.keyword .fn]

/-- The tokens spell the definition. -/
inductive SpellsDefinition : List Token → Definition → Prop where
  | definition {name : String} {ts us : List Token} {ps : List Param} {isGenerator : Bool}
      {body : List Stmt} {range : ByteRange} (paramsSpelled : SpellsParams ts ps)
      (bodySpelled : Spells us (.block body))
      : SpellsDefinition
          (openingTokens isGenerator
            ++ (.ident name :: .mark .parenOpen :: (ts ++ .mark .parenClose :: us)))
          ⟨name, ps, isGenerator, body, range⟩

/-- An expression begins with an identifier, an opening parenthesis or a literal. -/
def Token.startsExpr (t : Token) : Bool :=
  (Reader.ident? t).isSome || t == .mark .parenOpen || (Reader.literal? t).isSome

/-- A statement begins with one of three keywords or with an expression. -/
def Token.startsStmt (t : Token) : Bool :=
  t == .keyword .return || t == .keyword .yield || t == .keyword .if || t.startsExpr

/-- What is true of the first token of a phrase that has one for sure. -/
def Phrase.Start : Phrase → List Token → Prop
  | .primary _, ts => ∃ t rest, ts = t :: rest ∧ t.startsExpr = true
  | .operand _, ts => ∃ t rest, ts = t :: rest ∧ t.startsExpr = true
  | .expr _, ts => ∃ t rest, ts = t :: rest ∧ t.startsExpr = true
  | .stmt _, ts => ∃ t rest, ts = t :: rest ∧ t.startsStmt = true
  | _, _ => True

/-- Expressions and statements begin as they should, by induction on the spelling. -/
theorem Spells.start {ts : List Token} {phrase : Phrase} (h : Spells ts phrase)
    : phrase.Start ts := by
  induction h with
  | literal spelled => exact ⟨_, [], rfl, by simp [Token.startsExpr, spelled]⟩
  | var => exact ⟨_, [], rfl, rfl⟩
  | call _ => exact ⟨_, _, rfl, rfl⟩
  | group _ => exact ⟨_, _, rfl, by decide⟩
  | tuple _ => exact ⟨_, _, rfl, by decide⟩
  | operand _ ih => exact ih
  | attr _ ih =>
      obtain ⟨t, rest, rfl, starts⟩ := ih
      exact ⟨t, _, rfl, starts⟩
  | expr _ ih => exact ih
  | compare _ _ _ ih _ =>
      obtain ⟨t, rest, rfl, starts⟩ := ih
      exact ⟨t, _, rfl, starts⟩
  | assign _ _ ih _ =>
      obtain ⟨t, rest, rfl, starts⟩ := ih
      exact ⟨t, _, rfl, by simp [Token.startsStmt, starts]⟩
  | giveBackNone => exact ⟨_, _, rfl, by decide⟩
  | giveBack _ => exact ⟨_, _, rfl, by decide⟩
  | yield _ => exact ⟨_, _, rfl, by decide⟩
  | discard _ ih =>
      obtain ⟨t, rest, rfl, starts⟩ := ih
      exact ⟨t, _, rfl, by simp [Token.startsStmt, starts]⟩
  | branch _ => exact ⟨_, _, rfl, by decide⟩
  | noItems => trivial
  | lastItem _ => trivial
  | item _ _ => trivial
  | ifThen _ _ => trivial
  | ifElse _ _ _ => trivial
  | elseIf _ _ _ => trivial
  | block _ => trivial
  | noStmts => trivial
  | nextStmt _ _ => trivial

end RecordSynth.Source
