import RecordSynth.Proofs.Source.Erasure
import RecordSynth.Proofs.Source.Grammar

/-! The grammar with places: what placed tokens form which phrase. Apart from places it is the same
grammar. Whatever tokens spell, they form it where they stand.
-/

namespace RecordSynth.Source

/-- Where the first of the tokens stands. -/
def firstRange (ts : List PlacedToken) : ByteRange :=
  (ts.head?.map PlacedToken.range).getD default

/-- Where the last of the tokens stands. -/
def lastRange (ts : List PlacedToken) : ByteRange :=
  (ts.getLast?.map PlacedToken.range).getD default

theorem lastRange_concat (ts : List PlacedToken) (t : PlacedToken)
    : lastRange (ts ++ [t]) = t.range := by
  rw [lastRange, List.getLast?_concat]
  rfl

/-- The tokens form the phrase: they spell it, and it stands where they do. Here a branch begins
with its `if`.
-/
inductive Forms : List PlacedToken → Phrase → Prop where
  | literal {t : PlacedToken} {value : Literal} (spelled : Reader.literal? t.token = some value)
      : Forms [t] (.primary (.literal t.range value))
  | var {t : PlacedToken} {name : String} (isName : t.token = .ident name)
      : Forms [t] (.primary (.var t.range name))
  | call {t start close : PlacedToken} {callee : String} {ts : List PlacedToken} {comma : Bool}
      {args : List Expr} (isName : t.token = .ident callee)
      (isStart : start.token = .mark .parenOpen) (formed : Forms ts (.items comma args))
      (isClose : close.token = .mark .parenClose)
      : Forms (t :: start :: (ts ++ [close]))
          (.primary (.call (t.range.merge close.range) callee t.range args))
  | group {start close : PlacedToken} {ts : List PlacedToken} {x : Expr}
      (isStart : start.token = .mark .parenOpen) (formed : Forms ts (.expr x))
      (isClose : close.token = .mark .parenClose)
      : Forms (start :: (ts ++ [close]))
          (.primary (x.placedAt (start.range.merge close.range)))
  | tuple {start close : PlacedToken} {ts : List PlacedToken} {comma : Bool} {xs : List Expr}
      (isStart : start.token = .mark .parenOpen) (formed : Forms ts (.items comma xs))
      (isClose : close.token = .mark .parenClose) (marked : xs.length = 1 → comma = true)
      : Forms (start :: (ts ++ [close])) (.primary (.tuple (start.range.merge close.range) xs))
  | operand {ts : List PlacedToken} {x : Expr} (formed : Forms ts (.primary x))
      : Forms ts (.operand x)
  | attr {dot t : PlacedToken} {ts : List PlacedToken} {x : Expr} {field : String}
      (formed : Forms ts (.operand x)) (isDot : dot.token = .mark .dot)
      (isName : t.token = .ident field)
      : Forms (ts ++ [dot, t]) (.operand (.attr (x.range.merge t.range) x field))
  | expr {ts : List PlacedToken} {x : Expr} (formed : Forms ts (.operand x))
      : Forms ts (.expr x)
  | compare {t : PlacedToken} {ts us : List PlacedToken} {op : Comparator} {left right : Expr}
      (leftFormed : Forms ts (.expr left)) (operator : Reader.comparator? t.token = some op)
      (rightFormed : Forms us (.operand right))
      : Forms (ts ++ t :: us) (.expr (.compare (left.range.merge right.range) op left right))
  | noItems : Forms [] (.items false [])
  | lastItem {ts : List PlacedToken} {x : Expr} (formed : Forms ts (.expr x))
      : Forms ts (.items false [x])
  | item {t : PlacedToken} {ts us : List PlacedToken} {x : Expr} {comma : Bool} {xs : List Expr}
      (first : Forms ts (.expr x)) (isComma : t.token = .mark .comma)
      (rest : Forms us (.items comma xs))
      : Forms (ts ++ t :: us) (.items (comma || xs.isEmpty) (x :: xs))
  | assign {t close : PlacedToken} {ts us : List PlacedToken} {object value : Expr}
      {field : String} {targetRange : ByteRange}
      (target : Forms ts (.expr (.attr targetRange object field)))
      (isAssign : t.token = .mark .assign) (formed : Forms us (.expr value))
      (isClose : close.token = .mark .semicolon)
      : Forms (ts ++ t :: (us ++ [close]))
          (.stmt (.assign ((firstRange ts).merge close.range) object field value))
  | giveBackNone {t close : PlacedToken} (isReturn : t.token = .keyword .return)
      (isClose : close.token = .mark .semicolon)
      : Forms [t, close] (.stmt (.giveBack (t.range.merge close.range) none))
  | giveBack {t close : PlacedToken} {ts : List PlacedToken} {value : Expr}
      (isReturn : t.token = .keyword .return) (formed : Forms ts (.expr value))
      (isClose : close.token = .mark .semicolon)
      : Forms (t :: (ts ++ [close]))
          (.stmt (.giveBack (t.range.merge close.range) (some value)))
  | yield {t close : PlacedToken} {ts : List PlacedToken} {value : Expr}
      (isYield : t.token = .keyword .yield) (formed : Forms ts (.expr value))
      (isClose : close.token = .mark .semicolon)
      : Forms (t :: (ts ++ [close])) (.stmt (.yield (t.range.merge close.range) value))
  | discard {close : PlacedToken} {ts : List PlacedToken} {value : Expr}
      (formed : Forms ts (.expr value)) (isClose : close.token = .mark .semicolon)
      : Forms (ts ++ [close]) (.stmt (.discard ((firstRange ts).merge close.range) value))
  | branch {ts : List PlacedToken} {s : Stmt} (formed : Forms ts (.branch s))
      : Forms ts (.stmt s)
  | ifThen {t : PlacedToken} {ts us : List PlacedToken} {test : Expr} {thenBody : List Stmt}
      (isIf : t.token = .keyword .if) (testFormed : Forms ts (.expr test))
      (thenFormed : Forms us (.block thenBody))
      : Forms (t :: (ts ++ us))
          (.branch (.branch (t.range.merge (lastRange us)) test thenBody []))
  | ifElse {t divider : PlacedToken} {ts us vs : List PlacedToken} {test : Expr}
      {thenBody elseBody : List Stmt} (isIf : t.token = .keyword .if)
      (testFormed : Forms ts (.expr test)) (thenFormed : Forms us (.block thenBody))
      (isElse : divider.token = .keyword .else) (elseFormed : Forms vs (.block elseBody))
      : Forms (t :: (ts ++ (us ++ divider :: vs)))
          (.branch (.branch (t.range.merge (lastRange vs)) test thenBody elseBody))
  | elseIf {t divider : PlacedToken} {ts us vs : List PlacedToken} {test : Expr}
      {thenBody : List Stmt} {nested : Stmt} (isIf : t.token = .keyword .if)
      (testFormed : Forms ts (.expr test)) (thenFormed : Forms us (.block thenBody))
      (isElse : divider.token = .keyword .else) (nestedFormed : Forms vs (.branch nested))
      : Forms (t :: (ts ++ (us ++ divider :: vs)))
          (.branch (.branch (t.range.merge nested.range) test thenBody [nested]))
  | block {start close : PlacedToken} {ts : List PlacedToken} {ss : List Stmt}
      (isStart : start.token = .mark .braceOpen) (formed : Forms ts (.stmts ss))
      (isClose : close.token = .mark .braceClose)
      : Forms (start :: (ts ++ [close])) (.block ss)
  | noStmts : Forms [] (.stmts [])
  | nextStmt {ts us : List PlacedToken} {s : Stmt} {ss : List Stmt} (first : Forms ts (.stmt s))
      (rest : Forms us (.stmts ss))
      : Forms (ts ++ us) (.stmts (s :: ss))

/-- The tokens form the list of parameters. -/
inductive FormsParams : List PlacedToken → List Param → Prop where
  | noParams : FormsParams [] []
  | lastParam {t : PlacedToken} {name : String} (isName : t.token = .ident name)
      : FormsParams [t] [⟨name, t.range⟩]
  | param {t comma : PlacedToken} {name : String} {ts : List PlacedToken} {ps : List Param}
      (isName : t.token = .ident name) (isComma : comma.token = .mark .comma)
      (rest : FormsParams ts ps)
      : FormsParams (t :: comma :: ts) (⟨name, t.range⟩ :: ps)

/-- The tokens form the definition. -/
inductive FormsDefinition : List PlacedToken → Definition → Prop where
  | definition {t start close : PlacedToken} {opening ts us : List PlacedToken} {name : String}
      {ps : List Param} {isGenerator : Bool} {body : List Stmt}
      (opens : opening.map PlacedToken.token = openingTokens isGenerator)
      (isName : t.token = .ident name) (isStart : start.token = .mark .parenOpen)
      (paramsFormed : FormsParams ts ps) (isClose : close.token = .mark .parenClose)
      (bodyFormed : Forms us (.block body))
      : FormsDefinition (opening ++ (t :: start :: (ts ++ close :: us)))
          ⟨name, ps, isGenerator, body, (firstRange opening).merge (lastRange us)⟩

-----------------------------------------------------------------------------------------
-- What forms a phrase spells it
-----------------------------------------------------------------------------------------

/-- The tokens spell the phrase, with the `if` of a branch. -/
def Phrase.SpelledBy (ts : List Token) : Phrase → Prop
  | .branch s => ∃ us, ts = .keyword .if :: us ∧ Spells us (.branch s)
  | phrase => Spells ts phrase

/-- Tokens spell what they form, by induction on the forming. -/
theorem Forms.spelledBy {ts : List PlacedToken} {phrase : Phrase} (h : Forms ts phrase)
    : phrase.SpelledBy (ts.map PlacedToken.token) := by
  induction h with
  | literal spelled => exact Spells.literal spelled
  | var isName =>
      rw [List.map_singleton, isName]
      exact Spells.var
  | call isName isStart _ isClose ih =>
      simp only [List.map_cons, List.map_append, List.map_nil, isName, isStart, isClose]
      exact Spells.call ih
  | group isStart _ isClose ih =>
      simp only [List.map_cons, List.map_append, List.map_nil, isStart, isClose]
      exact Spells.group ih
  | tuple isStart _ isClose marked ih =>
      simp only [List.map_cons, List.map_append, List.map_nil, isStart, isClose]
      exact Spells.tuple ih marked
  | operand _ ih => exact Spells.operand ih
  | attr _ isDot isName ih =>
      simp only [List.map_cons, List.map_append, List.map_nil, isDot, isName]
      exact Spells.attr ih
  | expr _ ih => exact Spells.expr ih
  | compare _ operator _ leftSpelled rightSpelled =>
      rw [List.map_append, List.map_cons]
      exact Spells.compare leftSpelled operator rightSpelled
  | noItems => exact Spells.noItems
  | lastItem _ ih => exact Spells.lastItem ih
  | item _ isComma _ firstSpelled restSpelled =>
      rw [List.map_append, List.map_cons, isComma]
      exact Spells.item firstSpelled restSpelled
  | assign _ isAssign _ isClose targetSpelled spelled =>
      simp only [List.map_cons, List.map_append, List.map_nil, isAssign, isClose]
      exact Spells.assign targetSpelled spelled
  | giveBackNone isReturn isClose =>
      simp only [List.map_cons, List.map_nil, isReturn, isClose]
      exact Spells.giveBackNone
  | giveBack isReturn _ isClose ih =>
      simp only [List.map_cons, List.map_append, List.map_nil, isReturn, isClose]
      exact Spells.giveBack ih
  | yield isYield _ isClose ih =>
      simp only [List.map_cons, List.map_append, List.map_nil, isYield, isClose]
      exact Spells.yield ih
  | discard _ isClose ih =>
      simp only [List.map_cons, List.map_append, List.map_nil, isClose]
      exact Spells.discard ih
  | branch _ ih =>
      obtain ⟨us, isIf, spelled⟩ := ih
      rw [isIf]
      exact Spells.branch spelled
  | ifThen isIf _ _ testSpelled thenSpelled =>
      refine ⟨_, ?_, Spells.ifThen testSpelled thenSpelled⟩
      rw [List.map_cons, List.map_append, isIf]
  | ifElse isIf _ _ isElse _ testSpelled thenSpelled elseSpelled =>
      refine ⟨_, ?_, Spells.ifElse testSpelled thenSpelled elseSpelled⟩
      simp only [List.map_cons, List.map_append, isIf, isElse]
  | elseIf isIf _ _ isElse _ testSpelled thenSpelled nestedSpelled =>
      obtain ⟨us, isNestedIf, spelled⟩ := nestedSpelled
      refine ⟨_, ?_, Spells.elseIf testSpelled thenSpelled spelled⟩
      simp only [List.map_cons, List.map_append, isIf, isElse, isNestedIf]
  | block isStart _ isClose ih =>
      simp only [List.map_cons, List.map_append, List.map_nil, isStart, isClose]
      exact Spells.block ih
  | noStmts => exact Spells.noStmts
  | nextStmt _ _ firstSpelled restSpelled =>
      rw [List.map_append]
      exact Spells.nextStmt firstSpelled restSpelled

theorem FormsParams.spells {ts : List PlacedToken} {ps : List Param} (h : FormsParams ts ps)
    : SpellsParams (ts.map PlacedToken.token) ps := by
  induction h with
  | noParams => exact .noParams
  | lastParam isName =>
      rw [List.map_singleton, isName]
      exact .lastParam
  | param isName isComma _ ih =>
      rw [List.map_cons, List.map_cons, isName, isComma]
      exact .param ih

/-- Tokens spell the definition that they form. -/
theorem FormsDefinition.spells {ts : List PlacedToken} {d : Definition}
    (h : FormsDefinition ts d)
    : SpellsDefinition (ts.map PlacedToken.token) d := by
  cases h with
  | definition opens isName isStart paramsFormed isClose bodyFormed =>
      simp only [List.map_append, List.map_cons, opens, isName, isStart, isClose]
      exact .definition paramsFormed.spells bodyFormed.spelledBy

/-- The tokens begin with one that is accepted. -/
def Begin (accepts : Token → Bool) (ts : List PlacedToken) : Prop :=
  ∃ t rest, ts = t :: rest ∧ accepts t.token = true

/-- Expressions begin as they do without places. -/
theorem Forms.expr_begin {ts : List PlacedToken} {x : Expr} (h : Forms ts (.expr x))
    : Begin Token.startsExpr ts := by
  obtain ⟨_, _, kinds, starts⟩ := Spells.start h.spelledBy
  obtain ⟨t, rest, rfl, rfl, _⟩ := List.map_eq_cons_iff.mp kinds
  exact ⟨t, rest, rfl, starts⟩

/-- Statements begin as they do without places. -/
theorem Forms.stmt_begin {ts : List PlacedToken} {s : Stmt} (h : Forms ts (.stmt s))
    : Begin Token.startsStmt ts := by
  obtain ⟨_, _, kinds, starts⟩ := Spells.start h.spelledBy
  obtain ⟨t, rest, rfl, rfl, _⟩ := List.map_eq_cons_iff.mp kinds
  exact ⟨t, rest, rfl, starts⟩

/-- Blocks begin with a brace. -/
theorem Forms.block_begin {ts : List PlacedToken} {ss : List Stmt} (h : Forms ts (.block ss))
    : Begin (· == .mark .braceOpen) ts := by
  cases h with
  | block isStart _ _ => exact ⟨_, _, rfl, beq_iff_eq.mpr isStart⟩

/-- Unless there are none, statements begin like the first of them. -/
theorem Forms.stmts_begin {ts : List PlacedToken} {ss : List Stmt} (h : Forms ts (.stmts ss))
    : ts = [] ∨ Begin Token.startsStmt ts := by
  cases h with
  | noStmts => exact Or.inl rfl
  | nextStmt first _ =>
      obtain ⟨t, rest, rfl, starts⟩ := first.stmt_begin
      exact Or.inr ⟨t, _, rfl, starts⟩

-----------------------------------------------------------------------------------------
-- What tokens spell, they form where they stand
-----------------------------------------------------------------------------------------

section Splitting

variable {ts : List PlacedToken} {us vs : List Token}

/-- Placed tokens are split where their kinds are. -/
theorem split_at {token : Token} (kinds : ts.map PlacedToken.token = us ++ token :: vs)
    : ∃ left middle right, ts = left ++ middle :: right ∧ left.map PlacedToken.token = us
        ∧ middle.token = token ∧ right.map PlacedToken.token = vs := by
  obtain ⟨left, more, rfl, leftKinds, moreKinds⟩ := List.map_eq_append_iff.mp kinds
  obtain ⟨middle, right, rfl, kind, rightKinds⟩ := List.map_eq_cons_iff.mp moreKinds
  exact ⟨left, middle, right, rfl, leftKinds, kind, rightKinds⟩

/-- What stands before a last token. -/
theorem split_last {token : Token} (kinds : ts.map PlacedToken.token = us ++ [token])
    : ∃ left last, ts = left ++ [last] ∧ left.map PlacedToken.token = us
        ∧ last.token = token := by
  obtain ⟨left, last, none, rfl, leftKinds, kind, noneKinds⟩ := split_at kinds
  obtain rfl := List.map_eq_nil_iff.mp noneKinds
  exact ⟨left, last, rfl, leftKinds, kind⟩

/-- What stands between two tokens. -/
theorem split_between {a b : Token} (kinds : ts.map PlacedToken.token = a :: (us ++ [b]))
    : ∃ before inner after, ts = before :: (inner ++ [after]) ∧ before.token = a
        ∧ inner.map PlacedToken.token = us ∧ after.token = b := by
  obtain ⟨before, more, rfl, isA, moreKinds⟩ := List.map_eq_cons_iff.mp kinds
  obtain ⟨inner, after, rfl, innerKinds, isB⟩ := split_last moreKinds
  exact ⟨before, inner, after, rfl, isA, innerKinds, isB⟩

theorem split_single {token : Token} (kinds : ts.map PlacedToken.token = [token])
    : ∃ t, ts = [t] ∧ t.token = token := by
  obtain ⟨t, none, rfl, kind, noneKinds⟩ := List.map_eq_cons_iff.mp kinds
  obtain rfl := List.map_eq_nil_iff.mp noneKinds
  exact ⟨t, rfl, kind⟩

end Splitting

/-- The tokens form the phrase up to places, if the `if` of a branch is put before them. -/
def Phrase.FormedBy (ts : List PlacedToken) : Phrase → Prop
  | .primary x => ∃ x', x'.erased = x.erased ∧ Forms ts (.primary x')
  | .operand x => ∃ x', x'.erased = x.erased ∧ Forms ts (.operand x')
  | .expr x => ∃ x', x'.erased = x.erased ∧ Forms ts (.expr x')
  | .items comma xs =>
    ∃ xs', xs'.map Expr.erased = xs.map Expr.erased ∧ Forms ts (.items comma xs')
  | .stmt s => ∃ s', s'.erased = s.erased ∧ Forms ts (.stmt s')
  | .branch s =>
    ∀ t, t.token = .keyword .if → ∃ s', s'.erased = s.erased ∧ Forms (t :: ts) (.branch s')
  | .block ss => ∃ ss', ss'.map Stmt.erased = ss.map Stmt.erased ∧ Forms ts (.block ss')
  | .stmts ss => ∃ ss', ss'.map Stmt.erased = ss.map Stmt.erased ∧ Forms ts (.stmts ss')

/-- An attribute access without places is one with places. -/
theorem attr_of_erased {x' : Expr} {range : ByteRange} {x : Expr} {field : String}
    (same : x'.erased = (Expr.attr range x field).erased)
    : ∃ range' object', x' = .attr range' object' field ∧ object'.erased = x.erased := by
  cases x' with
  | attr range' object' field' =>
      simp only [Expr.erased, Expr.attr.injEq, true_and] at same
      obtain ⟨sameObject, rfl⟩ := same
      exact ⟨range', object', rfl, sameObject⟩
  | literal _ _ => simp [Expr.erased] at same
  | var _ _ => simp [Expr.erased] at same
  | call _ _ _ _ => simp [Expr.erased] at same
  | tuple _ _ => simp [Expr.erased] at same
  | compare _ _ _ _ => simp [Expr.erased] at same

/-- Wherever tokens stand, they form what they spell, by induction on the spelling. -/
theorem Spells.formedBy {tokens : List Token} {phrase : Phrase} (h : Spells tokens phrase)
    {ts : List PlacedToken} (kinds : ts.map PlacedToken.token = tokens)
    : phrase.FormedBy ts := by
  induction h generalizing ts with
  | literal spelled =>
      obtain ⟨t, rfl, rfl⟩ := split_single kinds
      refine ⟨_, ?_, .literal spelled⟩
      rfl
  | var =>
      obtain ⟨t, rfl, isName⟩ := split_single kinds
      refine ⟨_, ?_, .var isName⟩
      rfl
  | call _ ih =>
      obtain ⟨t, more, rfl, isName, moreKinds⟩ := List.map_eq_cons_iff.mp kinds
      obtain ⟨start, inner, close, rfl, isStart, innerKinds, isClose⟩ := split_between moreKinds
      obtain ⟨args, same, formed⟩ := ih innerKinds
      refine ⟨_, ?_, .call isName isStart formed isClose⟩
      rw [Expr.erased, Expr.erased, Expr.erasedAll_eq_map, Expr.erasedAll_eq_map, same]
  | @group _ x range _ ih =>
      obtain ⟨start, inner, close, rfl, isStart, innerKinds, isClose⟩ := split_between kinds
      obtain ⟨x', same, formed⟩ := ih innerKinds
      refine ⟨_, ?_, .group isStart formed isClose⟩
      rw [Expr.erased_placedAt, Expr.erased_placedAt, same]
  | @tuple _ comma xs _ _ marked ih =>
      obtain ⟨start, inner, close, rfl, isStart, innerKinds, isClose⟩ := split_between kinds
      obtain ⟨xs', same, formed⟩ := ih innerKinds
      have length : xs'.length = xs.length := by simpa using congrArg List.length same
      refine ⟨_, ?_, .tuple isStart formed isClose (length ▸ marked)⟩
      rw [Expr.erased, Expr.erased, Expr.erasedAll_eq_map, Expr.erasedAll_eq_map, same]
  | operand _ ih =>
      obtain ⟨x, same, formed⟩ := ih kinds
      exact ⟨x, same, .operand formed⟩
  | attr _ ih =>
      obtain ⟨front, dot, last, rfl, frontKinds, isDot, lastKinds⟩ := split_at kinds
      obtain ⟨t, rfl, isName⟩ := split_single lastKinds
      obtain ⟨x, same, formed⟩ := ih frontKinds
      refine ⟨_, ?_, .attr formed isDot isName⟩
      rw [Expr.erased, Expr.erased, same]
  | expr _ ih =>
      obtain ⟨x, same, formed⟩ := ih kinds
      exact ⟨x, same, .expr formed⟩
  | compare _ operator _ ihLeft ihRight =>
      obtain ⟨front, t, back, rfl, frontKinds, rfl, backKinds⟩ := split_at kinds
      obtain ⟨left, leftSame, leftFormed⟩ := ihLeft frontKinds
      obtain ⟨right, rightSame, rightFormed⟩ := ihRight backKinds
      refine ⟨_, ?_, .compare leftFormed operator rightFormed⟩
      rw [Expr.erased, Expr.erased, leftSame, rightSame]
  | noItems =>
      obtain rfl := List.map_eq_nil_iff.mp kinds
      exact ⟨[], rfl, .noItems⟩
  | lastItem _ ih =>
      obtain ⟨x, same, formed⟩ := ih kinds
      exact ⟨[x], by rw [List.map_singleton, same, List.map_singleton], .lastItem formed⟩
  | @item _ _ x comma xs _ _ ihFirst ihRest =>
      obtain ⟨front, t, back, rfl, frontKinds, isComma, backKinds⟩ := split_at kinds
      obtain ⟨x', firstSame, first⟩ := ihFirst frontKinds
      obtain ⟨xs', restSame, rest⟩ := ihRest backKinds
      have empty : xs'.isEmpty = xs.isEmpty := by
        rw [← List.isEmpty_map (f := Expr.erased), restSame, List.isEmpty_map]
      refine ⟨x' :: xs', ?_, empty ▸ .item first isComma rest⟩
      rw [List.map_cons, List.map_cons, firstSame, restSame]
  | assign _ _ ihTarget ih =>
      obtain ⟨front, t, back, rfl, frontKinds, isAssign, backKinds⟩ := split_at kinds
      obtain ⟨inner, close, rfl, innerKinds, isClose⟩ := split_last backKinds
      obtain ⟨target, targetSame, targetFormed⟩ := ihTarget frontKinds
      obtain ⟨range, object, rfl, objectSame⟩ := attr_of_erased targetSame
      obtain ⟨value, same, formed⟩ := ih innerKinds
      refine ⟨_, ?_, .assign targetFormed isAssign formed isClose⟩
      rw [Stmt.erased, Stmt.erased, objectSame, same]
  | giveBackNone =>
      obtain ⟨t, more, rfl, isReturn, moreKinds⟩ := List.map_eq_cons_iff.mp kinds
      obtain ⟨close, rfl, isClose⟩ := split_single moreKinds
      refine ⟨_, ?_, .giveBackNone isReturn isClose⟩
      rfl
  | giveBack _ ih =>
      obtain ⟨t, inner, close, rfl, isReturn, innerKinds, isClose⟩ := split_between kinds
      obtain ⟨value, same, formed⟩ := ih innerKinds
      refine ⟨_, ?_, .giveBack isReturn formed isClose⟩
      rw [Stmt.erased, Stmt.erased, same]
  | yield _ ih =>
      obtain ⟨t, inner, close, rfl, isYield, innerKinds, isClose⟩ := split_between kinds
      obtain ⟨value, same, formed⟩ := ih innerKinds
      refine ⟨_, ?_, .yield isYield formed isClose⟩
      rw [Stmt.erased, Stmt.erased, same]
  | discard _ ih =>
      obtain ⟨inner, close, rfl, innerKinds, isClose⟩ := split_last kinds
      obtain ⟨value, same, formed⟩ := ih innerKinds
      refine ⟨_, ?_, .discard formed isClose⟩
      rw [Stmt.erased, Stmt.erased, same]
  | branch _ ih =>
      obtain ⟨t, inner, rfl, isIf, innerKinds⟩ := List.map_eq_cons_iff.mp kinds
      obtain ⟨s, same, formed⟩ := ih innerKinds t isIf
      exact ⟨s, same, .branch formed⟩
  | ifThen _ _ ihTest ihThen =>
      obtain ⟨front, back, rfl, frontKinds, backKinds⟩ := List.map_eq_append_iff.mp kinds
      obtain ⟨test, testSame, testFormed⟩ := ihTest frontKinds
      obtain ⟨thenBody, thenSame, thenFormed⟩ := ihThen backKinds
      intro t isIf
      refine ⟨_, ?_, .ifThen isIf testFormed thenFormed⟩
      simp only [Stmt.erased, Stmt.erasedAll_eq_map, testSame, thenSame]
  | ifElse _ _ _ ihTest ihThen ihElse =>
      obtain ⟨front, more, rfl, frontKinds, moreKinds⟩ := List.map_eq_append_iff.mp kinds
      obtain ⟨middle, divider, back, rfl, middleKinds, isElse, backKinds⟩ := split_at moreKinds
      obtain ⟨test, testSame, testFormed⟩ := ihTest frontKinds
      obtain ⟨thenBody, thenSame, thenFormed⟩ := ihThen middleKinds
      obtain ⟨elseBody, elseSame, elseFormed⟩ := ihElse backKinds
      intro t isIf
      refine ⟨_, ?_, .ifElse isIf testFormed thenFormed isElse elseFormed⟩
      simp only [Stmt.erased, Stmt.erasedAll_eq_map, testSame, thenSame, elseSame]
  | elseIf _ _ _ ihTest ihThen ihNested =>
      obtain ⟨front, more, rfl, frontKinds, moreKinds⟩ := List.map_eq_append_iff.mp kinds
      obtain ⟨middle, divider, back, rfl, middleKinds, isElse, backKinds⟩ := split_at moreKinds
      obtain ⟨t', inner, rfl, isNestedIf, innerKinds⟩ := List.map_eq_cons_iff.mp backKinds
      obtain ⟨test, testSame, testFormed⟩ := ihTest frontKinds
      obtain ⟨thenBody, thenSame, thenFormed⟩ := ihThen middleKinds
      obtain ⟨nested, nestedSame, nestedFormed⟩ := ihNested innerKinds t' isNestedIf
      intro t isIf
      refine ⟨_, ?_, .elseIf isIf testFormed thenFormed isElse nestedFormed⟩
      simp only [Stmt.erased, Stmt.erasedAll_eq_map, testSame, thenSame, List.map_cons,
        List.map_nil, nestedSame]
  | block _ ih =>
      obtain ⟨start, inner, close, rfl, isStart, innerKinds, isClose⟩ := split_between kinds
      obtain ⟨ss, same, formed⟩ := ih innerKinds
      exact ⟨ss, same, .block isStart formed isClose⟩
  | noStmts =>
      obtain rfl := List.map_eq_nil_iff.mp kinds
      exact ⟨[], rfl, .noStmts⟩
  | nextStmt _ _ ihFirst ihRest =>
      obtain ⟨front, back, rfl, frontKinds, backKinds⟩ := List.map_eq_append_iff.mp kinds
      obtain ⟨s, firstSame, first⟩ := ihFirst frontKinds
      obtain ⟨ss, restSame, rest⟩ := ihRest backKinds
      refine ⟨s :: ss, ?_, .nextStmt first rest⟩
      rw [List.map_cons, List.map_cons, firstSame, restSame]

theorem SpellsParams.formedBy {tokens : List Token} {ps : List Param}
    (h : SpellsParams tokens ps) {ts : List PlacedToken}
    (kinds : ts.map PlacedToken.token = tokens)
    : ∃ ps', ps'.map Param.erased = ps.map Param.erased ∧ FormsParams ts ps' := by
  induction h generalizing ts with
  | noParams =>
      obtain rfl := List.map_eq_nil_iff.mp kinds
      exact ⟨[], rfl, .noParams⟩
  | lastParam =>
      obtain ⟨t, rfl, isName⟩ := split_single kinds
      refine ⟨_, ?_, .lastParam isName⟩
      rfl
  | param _ ih =>
      obtain ⟨t, more, rfl, isName, moreKinds⟩ := List.map_eq_cons_iff.mp kinds
      obtain ⟨comma, back, rfl, isComma, backKinds⟩ := List.map_eq_cons_iff.mp moreKinds
      obtain ⟨ps, same, formed⟩ := ih backKinds
      refine ⟨_, ?_, .param isName isComma formed⟩
      rw [List.map_cons, List.map_cons, same]
      rfl

/-- Wherever tokens stand, they form the definition that they spell. -/
theorem SpellsDefinition.formedBy {tokens : List Token} {d : Definition}
    (h : SpellsDefinition tokens d) {ts : List PlacedToken}
    (kinds : ts.map PlacedToken.token = tokens)
    : ∃ d', d'.erased = d.erased ∧ FormsDefinition ts d' := by
  cases h with
  | definition paramsSpelled bodySpelled =>
      obtain ⟨opening, more, rfl, opens, moreKinds⟩ := List.map_eq_append_iff.mp kinds
      obtain ⟨t, more, rfl, isName, moreKinds⟩ := List.map_eq_cons_iff.mp moreKinds
      obtain ⟨start, more, rfl, isStart, moreKinds⟩ := List.map_eq_cons_iff.mp moreKinds
      obtain ⟨inner, close, back, rfl, innerKinds, isClose, backKinds⟩ := split_at moreKinds
      obtain ⟨ps, paramsSame, paramsFormed⟩ := paramsSpelled.formedBy innerKinds
      obtain ⟨body, bodySame, bodyFormed⟩ := bodySpelled.formedBy backKinds
      refine ⟨_, ?_, .definition opens isName isStart paramsFormed isClose bodyFormed⟩
      simp only [Definition.erased, paramsSame, Stmt.erasedAll_eq_map, bodySame]

end RecordSynth.Source
