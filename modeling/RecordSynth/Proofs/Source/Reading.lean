import RecordSynth.Proofs.Source.Derivation

/-! Reading finds what the tokens form: for each phrase of the grammar, reading tokens that form it
gives that phrase and leaves the tokens behind it.
-/

namespace RecordSynth.Source.Reader

/-- The reading gives `a` and leaves `rest`. -/
def Gives {α : Type} {n : Nat} (reading : Reading α n) (a : α) (rest : List PlacedToken)
    : Prop :=
  ∃ shorter : rest.length < n, reading = .ok (a, ⟨rest, shorter⟩)

-----------------------------------------------------------------------------------------
-- Single tokens
-----------------------------------------------------------------------------------------

section Tokens

variable {α : Type} {t : PlacedToken} {rest : List PlacedToken} {stop : ByteRange}

theorem take?_of_eq {token : Token} (same : t.token = token)
    : take? token (t :: rest) = some (t.range, ⟨rest, Nat.lt_succ_self _⟩) :=
  if_pos same

theorem take?_of_ne {token : Token} (other : t.token ≠ token)
    : take? token (t :: rest) = none :=
  if_neg other

theorem takeIf?_of_some {f : Token → Option α} {a : α} (accepted : f t.token = some a)
    : takeIf? f (t :: rest) = some ((a, t.range), ⟨rest, Nat.lt_succ_self _⟩) := by
  rw [takeIf?, accepted, Option.map_some]

theorem takeIf?_of_none {f : Token → Option α} (refused : f t.token = none)
    : takeIf? f (t :: rest) = none := by
  rw [takeIf?, refused, Option.map_none]

theorem expect_of_eq {token : Token} (same : t.token = token) (expected : Expected)
    : expect stop token expected (t :: rest)
      = .ok (t.range, ⟨rest, Nat.lt_succ_self _⟩) := by
  rw [expect, take?_of_eq same]

theorem expectIdent_of_eq {name : String} (same : t.token = .ident name)
    : expectIdent stop (t :: rest)
      = .ok ((name, t.range), ⟨rest, Nat.lt_succ_self _⟩) := by
  rw [expectIdent, takeIf?_of_some (a := name) (by rw [same]; rfl)]

end Tokens

-----------------------------------------------------------------------------------------
-- Where expressions end
-----------------------------------------------------------------------------------------

/-- The tokens that stand behind an expression inside of a phrase. -/
def closers : List Token :=
  [.mark .parenClose, .mark .comma, .mark .semicolon, .mark .assign, .mark .braceOpen]

/-- An expression does not go on with the first of these tokens. -/
structure Closes (rest : List PlacedToken) : Prop where
  paren : take? (.mark .parenOpen) rest = none
  dot : take? (.mark .dot) rest = none
  comparator : takeIf? comparator? rest = none

theorem closes_cons {t : PlacedToken} {rest : List PlacedToken} (closer : t.token ∈ closers)
    : Closes (t :: rest) := by
  have known : ∀ token ∈ closers,
      token ≠ .mark .parenOpen ∧ token ≠ .mark .dot ∧ comparator? token = none := by
    decide
  obtain ⟨notParen, notDot, noOperator⟩ := known _ closer
  exact ⟨take?_of_ne notParen, take?_of_ne notDot, takeIf?_of_none noOperator⟩

/-- Attribute accesses end where no dot follows. -/
theorem attributes_done {stop : ByteRange} {n : Nat} {x : Expr} {rest : List PlacedToken}
    {shorter : rest.length < n} (dot : take? (.mark .dot) rest = none)
    : attributes stop x rest shorter = .ok (x, ⟨rest, shorter⟩) := by
  rw [attributes, dot]
  rfl

/-- Comparisons end where no operator follows. -/
theorem comparisons_done {stop : ByteRange} {n : Nat} {x : Expr} {rest : List PlacedToken}
    {shorter : rest.length < n} (comparator : takeIf? comparator? rest = none)
    : comparisons stop x rest shorter = .ok (x, ⟨rest, shorter⟩) := by
  rw [comparisons, comparator]
  rfl

end Reader

open Reader

/-- Reading the tokens, whatever stands behind them, finds the phrase. What is read of an operand or
an expression may go on, so there the reading is one of the continuation.
-/
def Phrase.Found (ts : List PlacedToken) : Phrase → Prop
  | .primary x => ∀ (stop : ByteRange) (rest all : List PlacedToken), all = ts ++ rest →
      take? (.mark .parenOpen) rest = none → Gives (Reader.primary stop all) x rest
  | .operand x => ∀ (stop : ByteRange) (rest all : List PlacedToken), all = ts ++ rest →
      take? (.mark .parenOpen) rest = none →
      ∃ shorter : rest.length < all.length,
        Reader.operand stop all = attributes stop x rest shorter
  | .expr x => ∀ (stop : ByteRange) (rest all : List PlacedToken), all = ts ++ rest →
      take? (.mark .parenOpen) rest = none → take? (.mark .dot) rest = none →
      ∃ shorter : rest.length < all.length,
        Reader.expr stop all = comparisons stop x rest shorter
  | .items comma xs => ∀ (stop : ByteRange) (rest all : List PlacedToken) (close : PlacedToken)
      (n : Nat) (bound : all.length < n) (done : List Expr) (before : Bool),
      all = ts ++ close :: rest → close.token = .mark .parenClose →
      Gives (Reader.items stop done before all bound)
        ⟨done.reverse ++ xs, if xs.isEmpty then before else comma, close.range⟩ rest
  | .stmt s => ∀ (stop : ByteRange) (rest all : List PlacedToken), all = ts ++ rest →
      take? (.keyword .else) rest = none → Gives (Reader.stmt stop all) s rest
  | .branch s => ∃ t us, ts = t :: us ∧ t.token = .keyword .if ∧
      ∀ (stop : ByteRange) (rest all : List PlacedToken) (n : Nat) (bound : all.length < n),
        all = us ++ rest → take? (.keyword .else) rest = none →
        Gives (Reader.branch stop t.range all bound) s rest
  | .block ss => ∀ (stop : ByteRange) (rest all : List PlacedToken), all = ts ++ rest →
      Gives (Reader.block stop all) (ss, lastRange ts) rest
  | .stmts ss => ∀ (stop : ByteRange) (rest all : List PlacedToken) (close : PlacedToken)
      (n : Nat) (bound : all.length < n) (done : List Stmt), all = ts ++ close :: rest →
      close.token = .mark .braceClose →
      Gives (Reader.stmts stop done all bound) (done.reverse ++ ss, close.range) rest

-----------------------------------------------------------------------------------------
-- Each phrase is read if its parts are
-----------------------------------------------------------------------------------------

namespace Phrase.Found

variable {ts : List PlacedToken} {x : Expr}

/-- An expression is read to its end where the tokens behind it do not continue it. -/
theorem expr_gives (found : Phrase.Found ts (.expr x)) (stop : ByteRange)
    {rest all : List PlacedToken} (whole : all = ts ++ rest) (closes : Closes rest)
    : Gives (Reader.expr stop all) x rest := by
  obtain ⟨shorter, reading⟩ := found stop rest all whole closes.paren closes.dot
  exact ⟨shorter, by rw [reading, comparisons_done closes.comparator]⟩

/-- An expression with a semicolon behind it is read together with the semicolon. -/
theorem expr_then_semicolon (found : Phrase.Found ts (.expr x)) (stop : ByteRange)
    {rest all : List PlacedToken} {close : PlacedToken} {n : Nat} (bound : all.length < n)
    (whole : all = ts ++ close :: rest) (semicolon : close.token = .mark .semicolon)
    : Gives (exprThenSemicolon stop all bound) (x, close.range) rest := by
  have closes : Closes (close :: rest) := closes_cons (by rw [semicolon]; decide)
  obtain ⟨shorter, reading⟩ := found.expr_gives stop whole closes
  refine ⟨?_, ?_⟩
  · exact Nat.lt_trans (Nat.lt_succ_self _) (Nat.lt_trans shorter bound)
  · rw [exprThenSemicolon, reading]
    simp only [bind, Except.bind, expect_of_eq semicolon]
    rfl

theorem literal {t : PlacedToken} {value : Literal} (spelled : literal? t.token = some value)
    : Phrase.Found [t] (.primary (.literal t.range value)) := by
  intro stop rest all whole _
  subst whole
  -- No identifier and no parenthesis is a constant, so the reader gets to the constants.
  have notIdent : ident? t.token = Option.none := by
    cases isToken : t.token <;> rw [isToken] at spelled <;> first | rfl | cases spelled
  have notParen : t.token ≠ .mark .parenOpen := by
    intro isParen
    rw [isParen] at spelled
    cases spelled
  refine ⟨Nat.lt_succ_self _, ?_⟩
  simp only [List.cons_append, List.nil_append]
  rw [Reader.primary, takeIf?_of_none notIdent, take?_of_ne notParen, takeIf?_of_some spelled]
  rfl

theorem var {t : PlacedToken} {name : String} (isName : t.token = .ident name)
    : Phrase.Found [t] (.primary (.var t.range name)) := by
  intro stop rest all whole paren
  subst whole
  have isIdent : ident? t.token = some name := by rw [isName]; rfl
  refine ⟨Nat.lt_succ_self _, ?_⟩
  simp only [List.cons_append, List.nil_append]
  rw [Reader.primary, takeIf?_of_some isIdent]
  simp only [paren]
  rfl

theorem operand (found : Phrase.Found ts (.primary x)) : Phrase.Found ts (.operand x) := by
  intro stop rest all whole paren
  obtain ⟨shorter, reading⟩ := found stop rest all whole paren
  exact ⟨shorter, by rw [Reader.operand, reading]; rfl⟩

/-- An attribute access goes on reading where its object ends. -/
theorem attr {dot t : PlacedToken} {field : String} (found : Phrase.Found ts (.operand x))
    (isDot : dot.token = .mark .dot) (isName : t.token = .ident field)
    : Phrase.Found (ts ++ [dot, t]) (.operand (.attr (x.range.merge t.range) x field)) := by
  intro stop rest all whole _
  have whole' : all = ts ++ dot :: t :: rest := by rw [whole]; simp
  have notParen : take? (.mark .parenOpen) (dot :: t :: rest) = Option.none :=
    take?_of_ne (by rw [isDot]; decide)
  obtain ⟨shorter, reading⟩ := found stop _ all whole' notParen
  refine ⟨?_, ?_⟩
  · simp only [List.length_cons] at shorter
    omega
  · rw [reading, attributes, take?_of_eq isDot]
    simp only [bind, Except.bind, expectIdent_of_eq isName]

theorem expr (found : Phrase.Found ts (.operand x)) : Phrase.Found ts (.expr x) := by
  intro stop rest all whole paren dot
  obtain ⟨shorter, reading⟩ := found stop rest all whole paren
  exact ⟨shorter, by rw [Reader.expr, reading, attributes_done dot]; rfl⟩

/-- A comparison goes on reading where its right operand ends. -/
theorem compare {t : PlacedToken} {us : List PlacedToken} {op : Comparator} {left right : Expr}
    (leftFound : Phrase.Found ts (.expr left)) (operator : comparator? t.token = some op)
    (rightFound : Phrase.Found us (.operand right))
    : Phrase.Found (ts ++ t :: us)
        (.expr (.compare (left.range.merge right.range) op left right)) := by
  intro stop rest all whole paren dot
  have whole' : all = ts ++ t :: (us ++ rest) := by rw [whole]; simp
  have notMark : ∀ m, m = .parenOpen ∨ m = .dot → t.token ≠ .mark m := by
    rintro m (rfl | rfl) isMark <;> rw [isMark] at operator <;> cases operator
  obtain ⟨shorter, reading⟩ :=
    leftFound stop _ all whole' (take?_of_ne (notMark _ (Or.inl rfl)))
      (take?_of_ne (notMark _ (Or.inr rfl)))
  obtain ⟨shorter', reading'⟩ := rightFound stop rest _ rfl paren
  refine ⟨?_, ?_⟩
  · simp only [List.length_cons] at shorter
    omega
  · rw [reading, comparisons, takeIf?_of_some operator]
    simp only [bind, Except.bind, reading', attributes_done dot]

theorem ne_of_startsExpr {t token : Token} (starts : t.startsExpr = true)
    (other : token.startsExpr = false)
    : t ≠ token := by
  rintro rfl
  rw [starts] at other
  cases other

theorem ne_of_startsStmt {t token : Token} (starts : t.startsStmt = true)
    (other : token.startsStmt = false)
    : t ≠ token := by
  rintro rfl
  rw [starts] at other
  cases other

theorem noItems : Phrase.Found [] (.items false []) := by
  intro stop rest all close n bound done before whole isClose
  subst whole
  refine ⟨Nat.lt_trans (Nat.lt_succ_self _) bound, ?_⟩
  simp only [List.nil_append]
  rw [Reader.items, take?_of_eq isClose]
  simp [pure, Except.pure]

/-- The list ends behind an item that no comma follows. -/
theorem lastItem (begins : Begin Token.startsExpr ts)
    (found : Phrase.Found ts (.expr x))
    : Phrase.Found ts (.items false [x]) := by
  intro stop rest all close n bound done before whole isClose
  obtain ⟨p, ps, rfl, starts⟩ := begins
  have closes : Closes (close :: rest) := closes_cons (by rw [isClose]; decide)
  obtain ⟨shorter, reading⟩ := found.expr_gives stop whole closes
  have notComma : close.token ≠ .mark .comma := by rw [isClose]; decide
  subst whole
  refine ⟨?_, ?_⟩
  · exact Nat.lt_trans (Nat.lt_succ_self _) (Nat.lt_trans shorter bound)
  · simp only [List.cons_append] at reading ⊢
    rw [Reader.items, take?_of_ne (ne_of_startsExpr starts rfl)]
    simp only [bind, Except.bind, reading, take?_of_ne notComma, expect_of_eq isClose]
    simp [pure, Except.pure]

/-- Behind an item and a comma, the list goes on or ends. -/
theorem item {t : PlacedToken} {us : List PlacedToken} {comma : Bool} {xs : List Expr}
    (begins : Begin Token.startsExpr ts)
    (found : Phrase.Found ts (.expr x)) (isComma : t.token = .mark .comma)
    (restFound : Phrase.Found us (.items comma xs))
    : Phrase.Found (ts ++ t :: us) (.items (comma || xs.isEmpty) (x :: xs)) := by
  intro stop rest all close n bound done before whole isClose
  obtain ⟨p, ps, rfl, starts⟩ := begins
  have whole' : all = p :: ps ++ t :: (us ++ close :: rest) := by rw [whole]; simp
  have closes : Closes (t :: (us ++ close :: rest)) := closes_cons (by rw [isComma]; decide)
  obtain ⟨shorter, reading⟩ := found.expr_gives stop whole' closes
  have bound' : (us ++ close :: rest).length < n :=
    Nat.lt_trans (Nat.lt_succ_self _) (Nat.lt_trans shorter bound)
  obtain ⟨shorter', restReading⟩ :=
    restFound stop rest _ close n bound' (x :: done) true rfl isClose
  subst whole'
  refine ⟨shorter', ?_⟩
  simp only [List.cons_append] at reading ⊢
  rw [Reader.items, take?_of_ne (ne_of_startsExpr starts rfl)]
  simp only [bind, Except.bind, reading, take?_of_eq isComma, restReading]
  cases xs <;> simp

theorem call {t start close : PlacedToken} {callee : String} {comma : Bool} {args : List Expr}
    (isName : t.token = .ident callee) (isStart : start.token = .mark .parenOpen)
    (found : Phrase.Found ts (.items comma args)) (isClose : close.token = .mark .parenClose)
    : Phrase.Found (t :: start :: (ts ++ [close]))
        (.primary (.call (t.range.merge close.range) callee t.range args)) := by
  intro stop rest all whole _
  have isIdent : ident? t.token = some callee := by rw [isName]; rfl
  have whole' : all = t :: start :: (ts ++ close :: rest) := by rw [whole]; simp
  subst whole'
  have bound : (ts ++ close :: rest).length
      < (t :: start :: (ts ++ close :: rest)).length := by
    simp only [List.length_cons]
    omega
  obtain ⟨shorter, reading⟩ := found stop rest _ close _ bound [] false rfl isClose
  refine ⟨shorter, ?_⟩
  rw [Reader.primary, takeIf?_of_some isIdent]
  simp only [take?_of_eq isStart, bind, Except.bind, reading]
  rfl

/-- A list in parentheses is read up to the closing parenthesis. -/
theorem parenthesised {start close : PlacedToken} {comma : Bool} {xs : List Expr}
    (isStart : start.token = .mark .parenOpen) (found : Phrase.Found ts (.items comma xs))
    (isClose : close.token = .mark .parenClose)
    : Phrase.Found (start :: (ts ++ [close]))
        (.primary (Items.expr ⟨xs, if xs.isEmpty then false else comma, close.range⟩
          start.range)) := by
  intro stop rest all whole _
  have whole' : all = start :: (ts ++ close :: rest) := by rw [whole]; simp
  subst whole'
  have notIdent : ident? start.token = Option.none := by rw [isStart]; rfl
  obtain ⟨shorter, reading⟩ :=
    found stop rest _ close _ (Nat.lt_succ_self _) [] false rfl isClose
  refine ⟨shorter, ?_⟩
  rw [Reader.primary, takeIf?_of_none notIdent, take?_of_eq isStart]
  simp only [bind, Except.bind, reading]
  rfl

/-- A list is a tuple unless it has one item and no comma. -/
theorem items_expr_of_marked {xs : List Expr} {comma : Bool} {close : ByteRange}
    (start : ByteRange) (marked : xs.length = 1 → comma = true)
    : Items.expr ⟨xs, comma, close⟩ start = .tuple (start.merge close) xs := by
  unfold Items.expr
  split
  · next item oneItem noComma =>
    dsimp only at oneItem noComma
    rw [oneItem, noComma] at marked
    cases marked rfl
  · rfl

theorem tuple {start close : PlacedToken} {comma : Bool} {xs : List Expr}
    (isStart : start.token = .mark .parenOpen) (found : Phrase.Found ts (.items comma xs))
    (isClose : close.token = .mark .parenClose) (marked : xs.length = 1 → comma = true)
    : Phrase.Found (start :: (ts ++ [close]))
        (.primary (.tuple (start.range.merge close.range) xs)) := by
  have marked' : xs.length = 1 → (if xs.isEmpty then false else comma) = true := by
    intro single
    obtain ⟨x, rfl⟩ := List.length_eq_one_iff.mp single
    exact marked rfl
  rw [← items_expr_of_marked start.range marked']
  exact parenthesised isStart found isClose

theorem stmt_of_startsExpr {p : PlacedToken} {ps : List PlacedToken} (stop : ByteRange)
    (starts : p.token.startsExpr = true)
    : Reader.stmt stop (p :: ps) = assignmentOrExpr stop (p :: ps) := by
  rw [Reader.stmt, take?_of_ne (ne_of_startsExpr starts rfl),
    take?_of_ne (ne_of_startsExpr starts rfl), take?_of_ne (ne_of_startsExpr starts rfl)]

theorem assign {t close : PlacedToken} {us : List PlacedToken} {object value : Expr}
    {field : String} {targetRange : ByteRange}
    (begins : Begin Token.startsExpr ts)
    (targetFound : Phrase.Found ts (.expr (.attr targetRange object field)))
    (isAssign : t.token = .mark .assign) (found : Phrase.Found us (.expr value))
    (isClose : close.token = .mark .semicolon)
    : Phrase.Found (ts ++ t :: (us ++ [close]))
        (.stmt (.assign ((firstRange ts).merge close.range) object field value)) := by
  intro stop rest all whole _
  obtain ⟨p, ps, rfl, starts⟩ := begins
  have whole' : all = p :: ps ++ t :: (us ++ close :: rest) := by rw [whole]; simp
  have closes : Closes (t :: (us ++ close :: rest)) := closes_cons (by rw [isAssign]; decide)
  obtain ⟨shorter, reading⟩ := targetFound.expr_gives stop whole' closes
  have bound : (us ++ close :: rest).length < all.length :=
    Nat.lt_trans (Nat.lt_succ_self _) shorter
  obtain ⟨shorter', reading'⟩ := found.expr_then_semicolon stop bound rfl isClose
  subst whole'
  refine ⟨shorter', ?_⟩
  simp only [List.cons_append] at reading ⊢
  rw [stmt_of_startsExpr stop starts, assignmentOrExpr]
  simp only [bind, Except.bind, reading, take?_of_eq isAssign, reading']
  rfl

theorem discard {close : PlacedToken} {value : Expr}
    (begins : Begin Token.startsExpr ts)
    (found : Phrase.Found ts (.expr value)) (isClose : close.token = .mark .semicolon)
    : Phrase.Found (ts ++ [close])
        (.stmt (.discard ((firstRange ts).merge close.range) value)) := by
  intro stop rest all whole _
  obtain ⟨p, ps, rfl, starts⟩ := begins
  have whole' : all = p :: ps ++ close :: rest := by rw [whole]; simp
  have closes : Closes (close :: rest) := closes_cons (by rw [isClose]; decide)
  obtain ⟨shorter, reading⟩ := found.expr_gives stop whole' closes
  have notAssign : close.token ≠ .mark .assign := by rw [isClose]; decide
  subst whole'
  refine ⟨Nat.lt_trans (Nat.lt_succ_self _) shorter, ?_⟩
  simp only [List.cons_append] at reading ⊢
  rw [stmt_of_startsExpr stop starts, assignmentOrExpr]
  simp only [bind, Except.bind, reading, take?_of_ne notAssign, expect_of_eq isClose]
  rfl

theorem giveBackNone {t close : PlacedToken} (isReturn : t.token = .keyword .return)
    (isClose : close.token = .mark .semicolon)
    : Phrase.Found [t, close] (.stmt (.giveBack (t.range.merge close.range) none)) := by
  intro stop rest all whole _
  subst whole
  refine ⟨?_, ?_⟩
  · simp only [List.cons_append, List.nil_append, List.length_cons]
    omega
  · simp only [List.cons_append, List.nil_append]
    rw [Reader.stmt, take?_of_eq isReturn]
    simp only [Reader.giveBack, take?_of_eq isClose]
    rfl

theorem giveBack {t close : PlacedToken} {value : Expr}
    (begins : Begin Token.startsExpr ts)
    (isReturn : t.token = .keyword .return) (found : Phrase.Found ts (.expr value))
    (isClose : close.token = .mark .semicolon)
    : Phrase.Found (t :: (ts ++ [close]))
        (.stmt (.giveBack (t.range.merge close.range) (some value))) := by
  intro stop rest all whole _
  obtain ⟨p, ps, rfl, starts⟩ := begins
  have whole' : all = t :: (p :: ps ++ close :: rest) := by rw [whole]; simp
  subst whole'
  have notClose : p.token ≠ .mark .semicolon := ne_of_startsExpr starts rfl
  obtain ⟨shorter, reading⟩ :=
    found.expr_then_semicolon stop (Nat.lt_succ_self _) rfl isClose
  refine ⟨shorter, ?_⟩
  simp only [List.cons_append] at reading ⊢
  rw [Reader.stmt, take?_of_eq isReturn]
  simp only [Reader.giveBack, take?_of_ne notClose, bind, Except.bind, reading]
  rfl

theorem yield {t close : PlacedToken} {value : Expr} (isYield : t.token = .keyword .yield)
    (found : Phrase.Found ts (.expr value)) (isClose : close.token = .mark .semicolon)
    : Phrase.Found (t :: (ts ++ [close]))
        (.stmt (.yield (t.range.merge close.range) value)) := by
  intro stop rest all whole _
  have whole' : all = t :: (ts ++ close :: rest) := by rw [whole]; simp
  subst whole'
  have notReturn : t.token ≠ .keyword .return := by rw [isYield]; decide
  obtain ⟨shorter, reading⟩ :=
    found.expr_then_semicolon stop (Nat.lt_succ_self _) rfl isClose
  refine ⟨shorter, ?_⟩
  rw [Reader.stmt, take?_of_ne notReturn, take?_of_eq isYield]
  simp only [bind, Except.bind, reading]
  rfl

theorem branch {s : Stmt} (found : Phrase.Found ts (.branch s))
    : Phrase.Found ts (.stmt s) := by
  intro stop rest all whole noElse
  obtain ⟨t, us, rfl, isIf, reads⟩ := found
  subst whole
  have notReturn : t.token ≠ .keyword .return := by rw [isIf]; decide
  have notYield : t.token ≠ .keyword .yield := by rw [isIf]; decide
  obtain ⟨shorter, reading⟩ := reads stop rest _ _ (Nat.lt_succ_self _) rfl noElse
  refine ⟨shorter, ?_⟩
  simp only [List.cons_append]
  rw [Reader.stmt, take?_of_ne notReturn, take?_of_ne notYield, take?_of_eq isIf]
  exact reading

theorem block {start close : PlacedToken} {ss : List Stmt}
    (isStart : start.token = .mark .braceOpen) (found : Phrase.Found ts (.stmts ss))
    (isClose : close.token = .mark .braceClose)
    : Phrase.Found (start :: (ts ++ [close])) (.block ss) := by
  intro stop rest all whole
  have whole' : all = start :: (ts ++ close :: rest) := by rw [whole]; simp
  subst whole'
  obtain ⟨shorter, reading⟩ := found stop rest _ close _ (Nat.lt_succ_self _) [] rfl isClose
  have ends : lastRange (start :: (ts ++ [close])) = close.range :=
    lastRange_concat (start :: ts) close
  rw [ends]
  refine ⟨shorter, ?_⟩
  rw [Reader.block, expect_of_eq isStart]
  exact reading

theorem noStmts : Phrase.Found [] (.stmts []) := by
  intro stop rest all close n bound done whole isClose
  subst whole
  refine ⟨Nat.lt_trans (Nat.lt_succ_self _) bound, ?_⟩
  simp only [List.nil_append]
  rw [Reader.stmts, take?_of_eq isClose, List.append_nil]
  rfl

/-- Behind a statement, the next one or the end of the block stands, and no `else`. -/
theorem nextStmt {us : List PlacedToken} {s : Stmt} {ss : List Stmt}
    (begins : Begin Token.startsStmt ts)
    (found : Phrase.Found ts (.stmt s)) (next : us = [] ∨ Begin Token.startsStmt us)
    (restFound : Phrase.Found us (.stmts ss))
    : Phrase.Found (ts ++ us) (.stmts (s :: ss)) := by
  intro stop rest all close n bound done whole isClose
  obtain ⟨p, ps, rfl, starts⟩ := begins
  have whole' : all = p :: ps ++ (us ++ close :: rest) := by rw [whole]; simp
  have noElse : take? (.keyword .else) (us ++ close :: rest) = Option.none := by
    -- What follows is the closing brace or the first token of the next statement.
    rcases next with rfl | ⟨q, qs, rfl, startsNext⟩
    · exact take?_of_ne (by rw [isClose]; decide)
    · exact take?_of_ne (ne_of_startsStmt startsNext rfl)
  obtain ⟨shorter, reading⟩ := found stop _ all whole' noElse
  obtain ⟨shorter', restReading⟩ :=
    restFound stop rest _ close n (Nat.lt_trans shorter bound) (s :: done) rfl isClose
  have notClose : p.token ≠ .mark .braceClose := ne_of_startsStmt starts rfl
  subst whole'
  refine ⟨shorter', ?_⟩
  simp only [List.cons_append] at reading ⊢
  rw [Reader.stmts, take?_of_ne notClose]
  simp only [List.isEmpty_cons, Bool.false_eq_true, ↓reduceIte, bind, Except.bind,
    reading, restReading]
  simp

-----------------------------------------------------------------------------------------
-- Branches, whose alternatives begin alike
-----------------------------------------------------------------------------------------

section Branches

variable {t divider : PlacedToken} {us vs : List PlacedToken} {test : Expr}
variable {thenBody elseBody : List Stmt}

/-- The test and the body of a branch are read before what decides about its alternative. -/
theorem test_and_body (testFound : Phrase.Found ts (.expr test))
    (thenFound : Phrase.Found us (.block thenBody))
    (opens : Begin (· == .mark .braceOpen) us) (stop : ByteRange)
    {rest all : List PlacedToken} (whole : all = ts ++ (us ++ rest))
    : Gives (Reader.expr stop all) test (us ++ rest)
      ∧ Gives (Reader.block stop (us ++ rest)) (thenBody, lastRange us) rest := by
  have closes : Closes (us ++ rest) := by
    obtain ⟨p, ps, rfl, isOpen⟩ := opens
    exact closes_cons (by rw [beq_iff_eq.mp isOpen]; decide)
  exact ⟨testFound.expr_gives stop whole closes, thenFound stop rest _ rfl⟩

theorem ifThen (isIf : t.token = .keyword .if) (testFound : Phrase.Found ts (.expr test))
    (thenFound : Phrase.Found us (.block thenBody))
    (opens : Begin (· == .mark .braceOpen) us)
    : Phrase.Found (t :: (ts ++ us))
        (.branch (.branch (t.range.merge (lastRange us)) test thenBody [])) := by
  refine ⟨t, _, rfl, isIf, ?_⟩
  intro stop rest all n bound whole noElse
  have whole' : all = ts ++ (us ++ rest) := by rw [whole]; simp
  obtain ⟨⟨shorter₁, reading₁⟩, shorter₂, reading₂⟩ :=
    testFound.test_and_body thenFound opens stop whole'
  refine ⟨by omega, ?_⟩
  rw [Reader.branch]
  simp only [bind, Except.bind, reading₁, reading₂, noElse]
  rfl

theorem ifElse (isIf : t.token = .keyword .if) (testFound : Phrase.Found ts (.expr test))
    (thenFound : Phrase.Found us (.block thenBody))
    (opens : Begin (· == .mark .braceOpen) us)
    (isElse : divider.token = .keyword .else) (elseFound : Phrase.Found vs (.block elseBody))
    (elseOpens : Begin (· == .mark .braceOpen) vs)
    : Phrase.Found (t :: (ts ++ (us ++ divider :: vs)))
        (.branch (.branch (t.range.merge (lastRange vs)) test thenBody elseBody)) := by
  refine ⟨t, _, rfl, isIf, ?_⟩
  intro stop rest all n bound whole _
  have whole' : all = ts ++ (us ++ divider :: (vs ++ rest)) := by rw [whole]; simp
  obtain ⟨⟨shorter₁, reading₁⟩, shorter₂, reading₂⟩ :=
    testFound.test_and_body thenFound opens stop whole'
  obtain ⟨shorter₃, reading₃⟩ := elseFound stop rest _ rfl
  -- An alternative in braces is not taken for a branch of its own.
  have noIf : take? (.keyword .if) (vs ++ rest) = Option.none := by
    obtain ⟨p, ps, rfl, isOpen⟩ := elseOpens
    exact take?_of_ne (by rw [beq_iff_eq.mp isOpen]; decide)
  rw [List.length_cons] at shorter₂
  refine ⟨by omega, ?_⟩
  rw [Reader.branch]
  simp only [bind, Except.bind, reading₁, reading₂, take?_of_eq isElse, noIf, reading₃]
  rfl

theorem elseIf {nested : Stmt} (isIf : t.token = .keyword .if)
    (testFound : Phrase.Found ts (.expr test)) (thenFound : Phrase.Found us (.block thenBody))
    (opens : Begin (· == .mark .braceOpen) us)
    (isElse : divider.token = .keyword .else) (nestedFound : Phrase.Found vs (.branch nested))
    : Phrase.Found (t :: (ts ++ (us ++ divider :: vs)))
        (.branch (.branch (t.range.merge nested.range) test thenBody [nested])) := by
  obtain ⟨p, ps, rfl, isNestedIf, reads⟩ := nestedFound
  refine ⟨t, _, rfl, isIf, ?_⟩
  intro stop rest all n bound whole noElse
  have whole' : all = ts ++ (us ++ divider :: p :: (ps ++ rest)) := by rw [whole]; simp
  obtain ⟨⟨shorter₁, reading₁⟩, shorter₂, reading₂⟩ :=
    testFound.test_and_body thenFound opens stop whole'
  simp only [List.length_cons] at shorter₂
  obtain ⟨shorter₃, reading₃⟩ := reads stop rest _ n (by omega) rfl noElse
  refine ⟨shorter₃, ?_⟩
  rw [Reader.branch]
  simp only [bind, Except.bind, reading₁, reading₂, take?_of_eq isElse, take?_of_eq isNestedIf,
    reading₃]
  rfl

end Branches

end Phrase.Found

-----------------------------------------------------------------------------------------
-- What tokens form is read from them
-----------------------------------------------------------------------------------------

/-- A phrase is read from the tokens that form it, by induction on the forming. -/
theorem Forms.found {ts : List PlacedToken} {phrase : Phrase} (h : Forms ts phrase)
    : phrase.Found ts := by
  induction h with
  | literal spelled => exact Phrase.Found.literal spelled
  | var isName => exact Phrase.Found.var isName
  | call isName isStart _ isClose ih => exact Phrase.Found.call isName isStart ih isClose
  | group isStart formed isClose ih =>
      exact Phrase.Found.parenthesised isStart (ih.lastItem formed.expr_begin) isClose
  | tuple isStart _ isClose marked ih => exact Phrase.Found.tuple isStart ih isClose marked
  | operand _ ih => exact ih.operand
  | attr _ isDot isName ih => exact ih.attr isDot isName
  | expr _ ih => exact ih.expr
  | compare _ operator _ leftFound rightFound => exact leftFound.compare operator rightFound
  | noItems => exact Phrase.Found.noItems
  | lastItem formed ih => exact ih.lastItem formed.expr_begin
  | item first isComma _ firstFound restFound =>
      exact firstFound.item first.expr_begin isComma restFound
  | assign target isAssign _ isClose targetFound found =>
      exact targetFound.assign target.expr_begin isAssign found isClose
  | giveBackNone isReturn isClose => exact Phrase.Found.giveBackNone isReturn isClose
  | giveBack isReturn formed isClose ih => exact ih.giveBack formed.expr_begin isReturn isClose
  | yield isYield _ isClose ih => exact ih.yield isYield isClose
  | discard formed isClose ih => exact ih.discard formed.expr_begin isClose
  | branch _ ih => exact ih.branch
  | ifThen isIf _ thenFormed testFound thenFound =>
      exact testFound.ifThen isIf thenFound thenFormed.block_begin
  | ifElse isIf _ thenFormed isElse elseFormed testFound thenFound elseFound =>
      exact testFound.ifElse isIf thenFound thenFormed.block_begin isElse elseFound
        elseFormed.block_begin
  | elseIf isIf _ thenFormed isElse _ testFound thenFound nestedFound =>
      exact testFound.elseIf isIf thenFound thenFormed.block_begin isElse nestedFound
  | block isStart _ isClose ih => exact ih.block isStart isClose
  | noStmts => exact Phrase.Found.noStmts
  | nextStmt first rest firstFound restFound =>
      exact firstFound.nextStmt first.stmt_begin rest.stmts_begin restFound

theorem ne_mark_of_ident {token : Token} {name : String} (isName : token = .ident name)
    (m : Mark)
    : token ≠ .mark m := by
  intro isMark
  rw [isName] at isMark
  cases isMark

/-- Parameters are read up to the closing parenthesis, by induction on their forming. -/
theorem FormsParams.found {ts : List PlacedToken} {ps : List Param} (h : FormsParams ts ps)
    (stop : ByteRange) {all : List PlacedToken} (rest : List PlacedToken)
    {close : PlacedToken} {n : Nat} (bound : all.length < n) (done : List Param)
    (whole : all = ts ++ close :: rest) (isClose : close.token = .mark .parenClose)
    : Gives (Reader.params stop done all bound) (done.reverse ++ ps) rest := by
  induction h generalizing all done with
  | noParams =>
      subst whole
      refine ⟨Nat.lt_trans (Nat.lt_succ_self _) bound, ?_⟩
      simp only [List.nil_append]
      rw [Reader.params, take?_of_eq isClose, List.append_nil]
      rfl
  | @lastParam t name isName =>
      subst whole
      simp only [List.cons_append, List.nil_append, List.length_cons] at bound ⊢
      have notClose := ne_mark_of_ident isName .parenClose
      have notComma : close.token ≠ .mark .comma := by rw [isClose]; decide
      refine ⟨by omega, ?_⟩
      rw [Reader.params, take?_of_ne notClose]
      simp only [bind, Except.bind, expectIdent_of_eq isName, take?_of_ne notComma,
        expect_of_eq isClose]
      simp [pure, Except.pure]
  | @param t comma name ts ps isName isComma _ ih =>
      subst whole
      simp only [List.cons_append, List.length_cons] at bound ⊢
      -- A name stands here, so the list goes on.
      have notClose := ne_mark_of_ident isName .parenClose
      have bound' : (ts ++ close :: rest).length < n := by omega
      obtain ⟨shorter, reading⟩ := ih bound' (⟨name, t.range⟩ :: done) rfl
      refine ⟨shorter, ?_⟩
      rw [Reader.params, take?_of_ne notClose]
      simp only [bind, Except.bind, expectIdent_of_eq isName, take?_of_eq isComma, reading]
      simp

/-- From `fn` on, a definition is read up to the end of its body. -/
theorem signatureAndBody_gives {fn t paren close : PlacedToken} {ts us : List PlacedToken}
    {name : String} {ps : List Param} {body : List Stmt} (isFn : fn.token = .keyword .fn)
    (isName : t.token = .ident name) (isParen : paren.token = .mark .parenOpen)
    (paramsFormed : FormsParams ts ps) (isClose : close.token = .mark .parenClose)
    (bodyFormed : Forms us (.block body)) (stop start : ByteRange) (isGenerator : Bool)
    (rest : List PlacedToken)
    : Gives (signatureAndBody stop start isGenerator
        (fn :: t :: paren :: (ts ++ close :: (us ++ rest))))
        ⟨name, ps, isGenerator, body, start.merge (lastRange us)⟩ rest := by
  obtain ⟨shorter₁, reading₁⟩ :=
    paramsFormed.found stop (us ++ rest) (Nat.lt_succ_self _) [] rfl isClose
  obtain ⟨shorter₂, reading₂⟩ := bodyFormed.found stop rest (us ++ rest) rfl
  refine ⟨?_, ?_⟩
  · simp only [List.length_cons] at shorter₁ ⊢
    omega
  · rw [signatureAndBody]
    simp only [bind, Except.bind, expect_of_eq isFn, expectIdent_of_eq isName,
      expect_of_eq isParen, reading₁, reading₂]
    rfl

/-- A definition is read from the tokens that form it, whatever stands behind them. -/
theorem FormsDefinition.found {ts : List PlacedToken} {d : Definition}
    (h : FormsDefinition ts d) (stop : ByteRange) {rest all : List PlacedToken}
    (whole : all = ts ++ rest)
    : Gives (Reader.definition stop all) d rest := by
  cases h with
  | @definition t start close opening ts us name ps isGenerator body opens isName isStart
      paramsFormed isClose bodyFormed =>
    cases isGenerator with
    | false =>
        obtain ⟨fn, rfl, isFn⟩ := split_single opens
        have notGen : fn.token ≠ .keyword .gen := by rw [isFn]; decide
        have whole' : all = fn :: t :: start :: (ts ++ close :: (us ++ rest)) := by
          rw [whole]
          simp
        subst whole'
        rw [Reader.definition, take?_of_ne notGen]
        exact signatureAndBody_gives isFn isName isStart paramsFormed isClose bodyFormed stop _
          false rest
    | true =>
        obtain ⟨gen, more, rfl, isGen, moreKinds⟩ := List.map_eq_cons_iff.mp opens
        obtain ⟨fn, rfl, isFn⟩ := split_single moreKinds
        obtain ⟨shorter, reading⟩ :=
          signatureAndBody_gives isFn isName isStart paramsFormed isClose bodyFormed stop
            gen.range true rest
        have whole' : all = gen :: fn :: t :: start :: (ts ++ close :: (us ++ rest)) := by
          rw [whole]
          simp
        subst whole'
        refine ⟨Nat.lt_succ_of_lt shorter, ?_⟩
        rw [Reader.definition, take?_of_eq isGen]
        simp only [bind, Except.bind, reading]
        rfl

/-- Definitions are read one after the other, by induction on their forming. -/
theorem Reader.FormsAll.found {ts : List PlacedToken} {ds : List Definition} (h : FormsAll ts ds)
    (stop : ByteRange) (done : List Definition)
    : definitions stop done ts = .ok (done.reverse ++ ds) := by
  induction h generalizing done with
  | nil =>
      rw [definitions, List.append_nil]
      rfl
  | @cons ts us d ds first _ ih =>
      obtain ⟨shorter, reading⟩ := first.found stop rfl
      have notEmpty : (ts ++ us).isEmpty = false := by
        cases isAll : ts ++ us with
        | nil =>
            rw [isAll] at shorter
            cases shorter
        | cons _ _ => rfl
      rw [definitions]
      simp only [notEmpty, Bool.false_eq_true, ↓reduceIte, bind, Except.bind, reading, ih,
        List.reverse_cons, List.append_assoc, List.singleton_append]

/-- The definition that tokens form is what is read from them. -/
theorem FormsDefinition.read {ts : List PlacedToken} {d : Definition} (h : FormsDefinition ts d)
    (stop : ByteRange)
    : Definition.ofTokens stop ts = .ok d := by
  have all : FormsAll ts [d] := List.append_nil ts ▸ .cons h .nil
  rw [Definition.ofTokens, all.found stop []]
  rfl

/-- Reading gives a definition exactly if the tokens form it: what is accepted is what the grammar
derives, and the tree is that of the derivation.
-/
theorem Definition.ofTokens_eq_ok_iff {stop : ByteRange} {ts : List PlacedToken}
    {d : Definition}
    : Definition.ofTokens stop ts = .ok d ↔ FormsDefinition ts d :=
  ⟨Definition.forms_of_ofTokens, fun h => h.read stop⟩

/-- The grammar is not ambiguous, since reading gives one definition. -/
theorem FormsDefinition.unique {ts : List PlacedToken} {d d' : Definition}
    (h : FormsDefinition ts d) (h' : FormsDefinition ts d')
    : d = d' :=
  Except.ok.inj ((h.read default).symm.trans (h'.read default))

/-- The one definition that tokens spell is read from them, wherever the tokens stand. -/
theorem SpellsDefinition.read {tokens : List Token} {d : Definition}
    (h : SpellsDefinition tokens d) (stop : ByteRange) {ts : List PlacedToken}
    (kinds : ts.map PlacedToken.token = tokens)
    : ∃ d', d'.erased = d.erased ∧ Definition.ofTokens stop ts = .ok d' := by
  obtain ⟨d', same, formed⟩ := h.formedBy kinds
  exact ⟨d', same, formed.read stop⟩

end RecordSynth.Source
