import RecordSynth.Proofs.Source.Placement

/-! Reading finds nothing but phrases: whatever is read, the tokens that the reading takes form
it. So the grammar says what the reader accepts, and which tree it gives.
-/

namespace RecordSynth.Source

namespace Reader

/-- Whatever the reading gives, the tokens that it takes from `ts` form it. -/
def Derives {α : Type} {n : Nat} (ts : List PlacedToken) (reading : Reading α n)
    (forms : α → List PlacedToken → Prop) : Prop :=
  ∀ a rest, reading = .ok (a, rest) → ∃ taken, ts = taken ++ rest.1 ∧ forms a taken

-----------------------------------------------------------------------------------------
-- Readings that are put together
-----------------------------------------------------------------------------------------

section Composition

variable {α β : Type} {n m : Nat} {t : PlacedToken} {ts rest : List PlacedToken}
variable {P Q : α → List PlacedToken → Prop}

theorem derives_return {a : α} (shorter : rest.length < n) (formed : P a [])
    : Derives rest (pure (a, ⟨rest, shorter⟩) : Reading α n) P := by
  rintro _ _ ⟨⟩
  exact ⟨[], rfl, formed⟩

theorem derives_error {fault : Fault} : Derives ts (.error fault : Reading α n) P :=
  nofun

theorem Derives.mono {reading : Reading α n} (h : Derives ts reading P)
    (weaker : ∀ a us, P a us → Q a us)
    : Derives ts reading Q := by
  intro a rest success
  obtain ⟨taken, whole, formed⟩ := h a rest success
  exact ⟨taken, whole, weaker a taken formed⟩

/-- A token that is taken first is the first of those that form what is read. -/
theorem Derives.after {reading : Reading α n}
    (h : Derives rest reading fun a us => P a (t :: us))
    : Derives (t :: rest) reading P := by
  intro a left success
  obtain ⟨taken, rfl, formed⟩ := h a left success
  exact ⟨t :: taken, rfl, formed⟩

/-- What a second reading takes stands behind what the first one takes. -/
theorem Derives.bind {R : β → List PlacedToken → Prop} {reading : Reading α n}
    {next : α × Rest n → Reading β m} (first : Derives ts reading P)
    (second : ∀ a rest (shorter : rest.length < n) us, P a us →
      Derives rest (next (a, ⟨rest, shorter⟩)) fun b vs => R b (us ++ vs))
    : Derives ts (reading >>= next) R := by
  intro b left success
  cases found : reading with
  | error fault =>
      rw [found] at success
      cases success
  | ok given =>
      obtain ⟨a, rest, shorter⟩ := given
      rw [found] at success
      obtain ⟨taken, rfl, formed⟩ := first a ⟨rest, shorter⟩ found
      obtain ⟨more, whole, formedMore⟩ := second a rest shorter taken formed b left success
      refine ⟨taken ++ more, ?_, formedMore⟩
      rw [List.append_assoc, ← whole]

/-- What is taken stands in front. -/
theorem Derives.inFront {reading : Reading α n} (h : Derives ts reading P)
    : Derives ts reading fun a us => P a us ∧ us <+: ts := by
  intro a left success
  obtain ⟨taken, whole, formed⟩ := h a left success
  exact ⟨taken, whole, formed, left.1, whole.symm⟩

end Composition

-----------------------------------------------------------------------------------------
-- Single tokens
-----------------------------------------------------------------------------------------

section Tokens

variable {stop : ByteRange}

theorem take?_cases (token : Token) (ts : List PlacedToken)
    : take? token ts = none
      ∨ ∃ t rest, ts = t :: rest ∧ t.token = token
        ∧ take? token (t :: rest) = some (t.range, ⟨rest, Nat.lt_succ_self _⟩) := by
  rcases ts with _ | ⟨t, rest⟩
  · exact Or.inl rfl
  · by_cases same : t.token = token
    · exact Or.inr ⟨t, rest, rfl, same, if_pos same⟩
    · exact Or.inl (if_neg same)

theorem takeIf?_cases {α : Type} (f : Token → Option α) (ts : List PlacedToken)
    : takeIf? f ts = none
      ∨ ∃ t rest a, ts = t :: rest ∧ f t.token = some a
        ∧ takeIf? f (t :: rest) = some ((a, t.range), ⟨rest, Nat.lt_succ_self _⟩) := by
  rcases ts with _ | ⟨t, rest⟩
  · exact Or.inl rfl
  · cases accepted : f t.token with
    | none => exact Or.inl (by rw [takeIf?, accepted, Option.map_none])
    | some a =>
        exact Or.inr ⟨t, rest, a, rfl, accepted, by rw [takeIf?, accepted, Option.map_some]⟩

theorem derives_expect (token : Token) (expected : Expected) (ts : List PlacedToken)
    : Derives ts (expect stop token expected ts)
        fun range us => ∃ t, us = [t] ∧ t.token = token ∧ t.range = range := by
  rcases take?_cases token ts with none | ⟨t, rest, rfl, same, taken⟩
  · rw [expect, none]
    exact derives_error
  · rw [expect, taken]
    exact Derives.after (derives_return _ ⟨t, rfl, same, rfl⟩)

theorem eq_ident_of_ident? {token : Token} {name : String} (h : ident? token = some name)
    : token = .ident name := by
  cases token <;> cases h
  rfl

theorem derives_expectIdent (ts : List PlacedToken)
    : Derives ts (expectIdent stop ts)
        fun named us => ∃ t, us = [t] ∧ t.token = .ident named.1 ∧ t.range = named.2 := by
  rcases takeIf?_cases ident? ts with none | ⟨t, rest, name, rfl, isName, taken⟩
  · rw [expectIdent, none]
    exact derives_error
  · rw [expectIdent, taken]
    exact Derives.after (derives_return _ ⟨t, rfl, eq_ident_of_ident? isName, rfl⟩)

end Tokens

-----------------------------------------------------------------------------------------
-- Expressions
-----------------------------------------------------------------------------------------

section Expressions

/-- One item with no comma behind it is an expression. -/
theorem expr_of_items {us : List PlacedToken} {x : Expr} {comma : Bool}
    (h : Forms us (.items comma [x])) (unmarked : comma = false)
    : Forms us (.expr x) := by
  generalize same : Phrase.items comma [x] = phrase at h
  cases h with
  | lastItem formed =>
      obtain ⟨_, single⟩ := Phrase.items.inj same
      obtain ⟨rfl, _⟩ := List.cons.inj single
      exact formed
  | item first isComma rest =>
      -- A list that goes on behind its first item has a comma.
      obtain ⟨marked, single⟩ := Phrase.items.inj same
      obtain ⟨_, rfl⟩ := List.cons.inj single
      rw [unmarked, List.isEmpty_nil, Bool.or_true] at marked
      cases marked
  | _ => cases same

/-- A list of items that was read: the tokens before its closing parenthesis form the items behind
those in the reversed `done`.
-/
def FormsItems (done : List Expr) (before : Bool) (list : Items) (us : List PlacedToken)
    : Prop :=
  ∃ comma xs vs close, us = vs ++ [close] ∧ close.token = .mark .parenClose
    ∧ close.range = list.close ∧ list.items = done.reverse ++ xs
    ∧ list.trailingComma = (if xs.isEmpty then before else comma)
    ∧ Forms vs (.items comma xs)

/-- A list in parentheses is a group or a tuple. -/
theorem FormsItems.primary {list : Items} {start : PlacedToken} {us : List PlacedToken}
    (isStart : start.token = .mark .parenOpen) (h : FormsItems [] false list us)
    : Forms (start :: us) (.primary (list.expr start.range)) := by
  obtain ⟨comma, xs, vs, close, rfl, isClose, sameClose, items, marked, formed⟩ := h
  rw [List.reverse_nil, List.nil_append] at items
  rw [Items.expr, items, ← sameClose]
  split
  · next x isPlain =>
      -- Without a comma the parentheses only group.
      rw [isPlain] at marked
      exact .group isStart (expr_of_items formed marked.symm) isClose
  · next notGroup =>
      refine .tuple isStart formed isClose ?_
      intro single
      obtain ⟨x, rfl⟩ := List.length_eq_one_iff.mp single
      cases comma with
      | true => rfl
      | false => exact absurd marked (notGroup x rfl)

/-- Attribute accesses that are read go on with an operand to their left. -/
theorem derives_attributes (stop : ByteRange) {n : Nat} {object : Expr}
    {front : List PlacedToken} (ts : List PlacedToken) (bound : ts.length < n)
    (formed : Forms front (.operand object))
    : Derives ts (attributes stop object ts bound)
        fun x us => Forms (front ++ us) (.operand x) := by
  rw [attributes]
  rcases take?_cases (.mark .dot) ts with none | ⟨dot, rest, rfl, isDot, taken⟩
  · rw [none]
    exact derives_return bound (by rw [List.append_nil]; exact formed)
  · rw [taken]
    refine Derives.after ((derives_expectIdent rest).bind ?_)
    rintro ⟨name, _⟩ rest' shorter _ ⟨t, rfl, isName, rfl⟩
    have whole : Forms (front ++ [dot, t])
        (.operand (.attr (object.range.merge t.range) object name)) :=
      .attr formed isDot isName
    have more := derives_attributes stop rest' (Nat.lt_trans shorter (Nat.lt_of_succ_lt bound))
      whole
    simpa only [List.append_assoc, List.cons_append, List.nil_append] using more
termination_by ts.length
decreasing_by subst_vars; grind

mutual

/-- An expression that is read is formed by the tokens taken for it. -/
theorem derives_expr (stop : ByteRange) (ts : List PlacedToken)
    : Derives ts (expr stop ts) fun x us => Forms us (.expr x) := by
  rw [expr]
  refine (derives_operand stop ts).bind ?_
  intro left rest shorter us formed
  exact derives_comparisons stop rest shorter (.expr formed)
termination_by (ts.length, 3)

/-- Comparisons that are read go on with an expression to their left. -/
theorem derives_comparisons (stop : ByteRange) {n : Nat} {left : Expr}
    {front : List PlacedToken} (ts : List PlacedToken) (bound : ts.length < n)
    (formed : Forms front (.expr left))
    : Derives ts (comparisons stop left ts bound) fun x us => Forms (front ++ us) (.expr x) := by
  rw [comparisons]
  rcases takeIf?_cases comparator? ts with none | ⟨t, rest, op, rfl, operator, taken⟩
  · rw [none]
    exact derives_return bound (by rw [List.append_nil]; exact formed)
  · rw [taken]
    refine Derives.after ((derives_operand stop rest).bind ?_)
    intro right rest' shorter us rightFormed
    have whole : Forms (front ++ t :: us)
        (.expr (.compare (left.range.merge right.range) op left right)) :=
      .compare formed operator rightFormed
    have more := derives_comparisons stop rest' (Nat.lt_trans shorter (Nat.lt_of_succ_lt bound))
      whole
    simpa only [List.append_assoc, List.cons_append] using more
termination_by (ts.length, 0)
decreasing_by all_goals subst_vars; grind

/-- An operand that is read is formed by the tokens taken for it. -/
theorem derives_operand (stop : ByteRange) (ts : List PlacedToken)
    : Derives ts (operand stop ts) fun x us => Forms us (.operand x) := by
  rw [operand]
  refine (derives_primary stop ts).bind ?_
  intro object rest shorter us formed
  exact derives_attributes stop rest shorter (.operand formed)
termination_by (ts.length, 2)

/-- A literal, a variable, a call or a list in parentheses that is read is formed by the tokens
taken for it.
-/
theorem derives_primary (stop : ByteRange) (ts : List PlacedToken)
    : Derives ts (primary stop ts) fun x us => Forms us (.primary x) := by
  rw [primary]
  rcases takeIf?_cases ident? ts with none | ⟨t, rest, name, rfl, isIdent, taken⟩
  · rw [none]
    rcases take?_cases (.mark .parenOpen) ts with noParen | ⟨start, rest, rfl, isStart, taken⟩
    · rw [noParen]
      rcases takeIf?_cases literal? ts with noLiteral | ⟨t, rest, value, rfl, isLiteral, taken⟩
      · rw [noLiteral]
        exact derives_error
      · rw [taken]
        exact Derives.after (derives_return _ (.literal isLiteral))
    · rw [taken]
      refine Derives.after ((derives_items stop [] false rest _).bind ?_)
      intro list rest' shorter us formed
      exact derives_return shorter (by rw [List.append_nil]; exact formed.primary isStart)
  · rw [taken]
    have isName := eq_ident_of_ident? isIdent
    rcases take?_cases (.mark .parenOpen) rest with noParen | ⟨start, rest', rfl, isStart, taken'⟩
    · simp only [noParen]
      exact Derives.after (derives_return _ (.var isName))
    · simp only [taken']
      refine Derives.after (Derives.after ((derives_items stop [] false rest' _).bind ?_))
      rintro list left shorter _ ⟨comma, xs, vs, close, rfl, isClose, sameClose, items, _, formed⟩
      rw [List.reverse_nil, List.nil_append] at items
      refine derives_return shorter ?_
      rw [items, ← sameClose, List.append_nil]
      exact .call isName isStart formed isClose
termination_by (ts.length, 1)

/-- Items that are read up to the closing parenthesis are formed by the tokens before it. -/
theorem derives_items (stop : ByteRange) {n : Nat} (done : List Expr) (before : Bool)
    (ts : List PlacedToken) (bound : ts.length < n)
    : Derives ts (items stop done before ts bound) (FormsItems done before) := by
  rw [items]
  rcases take?_cases (.mark .parenClose) ts with none | ⟨close, rest, rfl, isClose, taken⟩
  · rw [none]
    refine (derives_expr stop ts).bind ?_
    intro x rest shorter us formed
    rcases take?_cases (.mark .comma) rest with noComma | ⟨t, rest', rfl, isComma, taken⟩
    · simp only [noComma]
      refine (derives_expect _ _ rest).bind ?_
      rintro _ rest' shorter' _ ⟨close, rfl, isClose, rfl⟩
      refine derives_return _ ⟨false, [x], us, close, ?_, isClose, rfl, ?_, rfl, .lastItem formed⟩
      · rw [List.append_nil]
      · rw [List.reverse_cons]
    · simp only [taken]
      have more := derives_items stop (x :: done) true rest'
        (Nat.lt_trans (Nat.lt_of_succ_lt shorter) bound)
      refine Derives.after (more.mono ?_)
      rintro list _ ⟨comma, xs, vs, close, rfl, isClose, sameClose, items, marked, restFormed⟩
      refine ⟨comma || xs.isEmpty, x :: xs, us ++ t :: vs, close, ?_, isClose, sameClose, ?_, ?_,
        .item formed isComma restFormed⟩
      · rw [List.append_assoc, List.cons_append]
      · rw [items, List.reverse_cons, List.append_assoc, List.singleton_append]
      · rw [marked]
        cases xs <;> simp
  · rw [taken]
    refine Derives.after (derives_return _
      ⟨false, [], [], close, ?_, isClose, rfl, ?_, rfl, .noItems⟩)
    · rw [List.nil_append]
    · rw [List.append_nil]
termination_by (ts.length, 4)
decreasing_by all_goals subst_vars; grind

end

end Expressions

-----------------------------------------------------------------------------------------
-- Statements
-----------------------------------------------------------------------------------------

section Statements

/-- The tokens form an expression and the semicolon after it. -/
def FormsLine (read : Expr × ByteRange) (us : List PlacedToken) : Prop :=
  ∃ vs close, us = vs ++ [close] ∧ close.token = .mark .semicolon ∧ close.range = read.2
    ∧ Forms vs (.expr read.1)

theorem derives_exprThenSemicolon (stop : ByteRange) {n : Nat} (ts : List PlacedToken)
    (bound : ts.length < n)
    : Derives ts (exprThenSemicolon stop ts bound) FormsLine := by
  rw [exprThenSemicolon]
  refine (derives_expr stop ts).bind ?_
  intro x rest shorter us formed
  refine (derives_expect _ _ rest).bind ?_
  rintro _ rest' shorter' _ ⟨close, rfl, isClose, rfl⟩
  exact derives_return _ ⟨us, close, by rw [List.append_nil], isClose, rfl, formed⟩

/-- What stands first in front of other tokens stands first of all of them. -/
theorem startRange_of_inFront {us ts : List PlacedToken} (inFront : us <+: ts)
    (stop : ByteRange) (notEmpty : us ≠ [])
    : startRange stop ts = firstRange us := by
  obtain ⟨rest, rfl⟩ := inFront
  cases us with
  | nil => exact absurd rfl notEmpty
  | cons t us => rfl

/-- A statement that begins with an expression is formed by the tokens taken for it. -/
theorem derives_assignmentOrExpr (stop : ByteRange) (ts : List PlacedToken)
    : Derives ts (assignmentOrExpr stop ts) fun s us => Forms us (.stmt s) := by
  rw [assignmentOrExpr]
  refine (derives_expr stop ts).inFront.bind ?_
  rintro target rest shorter us ⟨formed, inFront⟩
  obtain ⟨first, others, isFirst, -⟩ := formed.expr_begin
  rw [startRange_of_inFront inFront stop (isFirst ▸ List.cons_ne_nil first others)]
  rcases take?_cases (.mark .assign) rest with none | ⟨t, rest', rfl, isAssign, taken⟩
  · simp only [none]
    refine (derives_expect _ _ rest).bind ?_
    rintro _ rest' shorter' _ ⟨close, rfl, isClose, rfl⟩
    exact derives_return _ (by rw [List.append_nil]; exact .discard formed isClose)
  · simp only [taken]
    -- Only attributes can be assigned.
    cases target with
    | attr range object field =>
        refine Derives.after ((derives_exprThenSemicolon stop rest' _).bind ?_)
        rintro ⟨value, _⟩ left shorter' _ ⟨vs, close, rfl, isClose, rfl, valueFormed⟩
        refine derives_return _ ?_
        rw [List.append_nil]
        exact .assign formed isAssign valueFormed isClose
    | literal _ _ => exact derives_error
    | var _ _ => exact derives_error
    | call _ _ _ _ => exact derives_error
    | tuple _ _ => exact derives_error
    | compare _ _ _ _ => exact derives_error

theorem derives_giveBack (stop : ByteRange) {t : PlacedToken}
    (isReturn : t.token = .keyword .return) {n : Nat} (ts : List PlacedToken)
    (bound : ts.length < n)
    : Derives ts (giveBack stop t.range ts bound) fun s us => Forms (t :: us) (.stmt s) := by
  rw [giveBack]
  rcases take?_cases (.mark .semicolon) ts with none | ⟨close, rest, rfl, isClose, taken⟩
  · rw [none]
    refine (derives_exprThenSemicolon stop ts bound).bind ?_
    rintro ⟨value, _⟩ rest shorter _ ⟨vs, close, rfl, isClose, rfl, formed⟩
    exact derives_return _ (by rw [List.append_nil]; exact .giveBack isReturn formed isClose)
  · rw [taken]
    exact Derives.after (derives_return _ (.giveBackNone isReturn isClose))

/-- Statements that were read: the tokens before the closing brace form those behind the ones in the
reversed `done`.
-/
def FormsStmts (done : List Stmt) (read : List Stmt × ByteRange) (us : List PlacedToken) : Prop :=
  ∃ ss vs close, us = vs ++ [close] ∧ close.token = .mark .braceClose ∧ close.range = read.2
    ∧ read.1 = done.reverse ++ ss ∧ Forms vs (.stmts ss)

mutual

/-- A statement that is read is formed by the tokens taken for it. -/
theorem derives_stmt (stop : ByteRange) (ts : List PlacedToken)
    : Derives ts (stmt stop ts) fun s us => Forms us (.stmt s) := by
  rw [stmt]
  rcases take?_cases (.keyword .return) ts with noReturn | ⟨t, rest, rfl, isReturn, taken⟩
  · rw [noReturn]
    rcases take?_cases (.keyword .yield) ts with noYield | ⟨t, rest, rfl, isYield, taken⟩
    · rw [noYield]
      rcases take?_cases (.keyword .if) ts with noIf | ⟨t, rest, rfl, isIf, taken⟩
      · rw [noIf]
        exact derives_assignmentOrExpr stop ts
      · rw [taken]
        exact Derives.after ((derives_branch stop isIf rest _).mono fun _ _ => .branch)
    · rw [taken]
      refine Derives.after ((derives_exprThenSemicolon stop rest _).bind ?_)
      rintro ⟨value, _⟩ rest' shorter _ ⟨vs, close, rfl, isClose, rfl, formed⟩
      exact derives_return _ (by rw [List.append_nil]; exact .yield isYield formed isClose)
  · rw [taken]
    exact Derives.after (derives_giveBack stop isReturn rest _)
termination_by (ts.length, 3)

/-- A branch that is read is formed by its `if` and the tokens taken behind it. -/
theorem derives_branch (stop : ByteRange) {t : PlacedToken} (isIf : t.token = .keyword .if)
    {n : Nat} (ts : List PlacedToken) (bound : ts.length < n)
    : Derives ts (branch stop t.range ts bound) fun s us => Forms (t :: us) (.branch s) := by
  rw [branch]
  refine (derives_expr stop ts).bind ?_
  intro test rest shorter us testFormed
  refine (derives_block stop rest).bind ?_
  rintro ⟨thenBody, _⟩ rest' shorter' vs ⟨thenFormed, rfl⟩
  rcases take?_cases (.keyword .else) rest' with noElse | ⟨divider, rest'', rfl, isElse, taken⟩
  · simp only [noElse]
    refine derives_return _ ?_
    rw [List.append_nil]
    exact .ifThen isIf testFormed thenFormed
  · simp only [taken]
    refine Derives.after ?_
    rcases take?_cases (.keyword .if) rest'' with noIf | ⟨t', left, rfl, isNestedIf, taken'⟩
    · simp only [noIf]
      refine (derives_block stop rest'').bind ?_
      rintro ⟨elseBody, _⟩ left shorter'' ws ⟨elseFormed, rfl⟩
      refine derives_return _ ?_
      rw [List.append_nil]
      exact .ifElse isIf testFormed thenFormed isElse elseFormed
    · simp only [taken']
      refine Derives.after ((derives_branch stop isNestedIf left _).bind ?_)
      intro nested left' shorter'' ws nestedFormed
      refine derives_return _ ?_
      rw [List.append_nil]
      exact .elseIf isIf testFormed thenFormed isElse nestedFormed
termination_by (ts.length, 2)
decreasing_by all_goals subst_vars; grind

/-- A block that is read is formed by the tokens taken for it, and ends with the last of them. -/
theorem derives_block (stop : ByteRange) (ts : List PlacedToken)
    : Derives ts (block stop ts)
        fun read us => Forms us (.block read.1) ∧ lastRange us = read.2 := by
  rw [block]
  refine (derives_expect _ _ ts).bind ?_
  rintro _ rest shorter _ ⟨start, rfl, isStart, -⟩
  refine (derives_stmts stop [] rest shorter).mono ?_
  rintro ⟨body, _⟩ _ ⟨ss, vs, close, rfl, isClose, rfl, read, formed⟩
  rw [List.reverse_nil, List.nil_append] at read
  rw [read]
  exact ⟨.block isStart formed isClose, lastRange_concat (start :: vs) close⟩
termination_by (ts.length, 1)

/-- Statements that are read up to the closing brace are formed by the tokens before it. -/
theorem derives_stmts (stop : ByteRange) {n : Nat} (done : List Stmt) (ts : List PlacedToken)
    (bound : ts.length < n)
    : Derives ts (stmts stop done ts bound) (FormsStmts done) := by
  rw [stmts]
  rcases take?_cases (.mark .braceClose) ts with none | ⟨close, rest, rfl, isClose, taken⟩
  · simp only [none]
    split
    · exact derives_error
    · refine (derives_stmt stop ts).bind ?_
      intro s rest shorter us formed
      refine (derives_stmts stop (s :: done) rest (Nat.lt_trans shorter bound)).mono ?_
      rintro read _ ⟨ss, vs, close, rfl, isClose, sameClose, isRead, restFormed⟩
      refine ⟨s :: ss, us ++ vs, close, ?_, isClose, sameClose, ?_, .nextStmt formed restFormed⟩
      · rw [List.append_assoc]
      · rw [isRead, List.reverse_cons, List.append_assoc, List.singleton_append]
  · rw [taken]
    refine Derives.after (derives_return _ ⟨[], [], close, ?_, isClose, rfl, ?_, .noStmts⟩)
    · rw [List.nil_append]
    · rw [List.append_nil]
termination_by (ts.length, 4)

end

end Statements

-----------------------------------------------------------------------------------------
-- Definitions
-----------------------------------------------------------------------------------------

section Definitions

/-- Parameters that were read: the tokens before the closing parenthesis form those behind the ones
in the reversed `done`.
-/
def FormsList (done read : List Param) (us : List PlacedToken) : Prop :=
  ∃ ps vs close, us = vs ++ [close] ∧ close.token = .mark .parenClose
    ∧ read = done.reverse ++ ps ∧ FormsParams vs ps

/-- Parameters that are read are formed by the tokens before the closing parenthesis. -/
theorem derives_params (stop : ByteRange) {n : Nat} (done : List Param) (ts : List PlacedToken)
    (bound : ts.length < n)
    : Derives ts (params stop done ts bound) (FormsList done) := by
  rw [params]
  rcases take?_cases (.mark .parenClose) ts with none | ⟨close, rest, rfl, isClose, taken⟩
  · rw [none]
    refine (derives_expectIdent ts).bind ?_
    rintro ⟨name, _⟩ rest shorter _ ⟨t, rfl, isName, rfl⟩
    rcases take?_cases (.mark .comma) rest with noComma | ⟨comma, rest', rfl, isComma, taken⟩
    · simp only [noComma]
      refine (derives_expect _ _ rest).bind ?_
      rintro _ rest' shorter' _ ⟨close, rfl, isClose, -⟩
      refine derives_return _
        ⟨[⟨name, t.range⟩], [t], close, ?_, isClose, ?_, .lastParam isName⟩
      · rw [List.append_nil]
      · rw [List.reverse_cons]
    · simp only [taken]
      have more := derives_params stop (⟨name, t.range⟩ :: done) rest'
        (Nat.lt_trans (Nat.lt_of_succ_lt shorter) bound)
      refine Derives.after (more.mono ?_)
      rintro read _ ⟨ps, vs, close, rfl, isClose, rfl, formed⟩
      refine ⟨⟨name, t.range⟩ :: ps, t :: comma :: vs, close, ?_, isClose, ?_,
        .param isName isComma formed⟩
      · rw [List.singleton_append, List.cons_append, List.cons_append]
      · rw [List.reverse_cons, List.append_assoc, List.singleton_append]
  · rw [taken]
    refine Derives.after (derives_return _ ⟨[], [], close, ?_, isClose, ?_, .noParams⟩)
    · rw [List.nil_append]
    · rw [List.append_nil]
termination_by ts.length
decreasing_by subst_vars; grind

/-- From `fn` on, what is read is formed by the tokens taken for it, with those before `fn`. -/
theorem derives_signatureAndBody (stop start : ByteRange) (isGenerator : Bool)
    (ts : List PlacedToken)
    : Derives ts (signatureAndBody stop start isGenerator ts)
        fun d us => ∃ t vs, us = t :: vs ∧ t.token = .keyword .fn
          ∧ ∀ front : List PlacedToken,
            (front ++ [t]).map PlacedToken.token = openingTokens isGenerator →
            firstRange (front ++ [t]) = start → FormsDefinition (front ++ us) d := by
  rw [signatureAndBody]
  refine (derives_expect _ _ ts).bind ?_
  rintro _ rest₁ shorter₁ _ ⟨t₁, rfl, isFn, -⟩
  refine (derives_expectIdent rest₁).bind ?_
  rintro ⟨name, _⟩ rest₂ shorter₂ _ ⟨t₂, rfl, isName, -⟩
  refine (derives_expect _ _ rest₂).bind ?_
  rintro _ rest₃ shorter₃ _ ⟨t₃, rfl, isStart, -⟩
  refine (derives_params stop [] rest₃ shorter₃).bind ?_
  rintro _ rest₄ shorter₄ _ ⟨ps, us, close, rfl, isClose, rfl, paramsFormed⟩
  refine (derives_block stop rest₄).bind ?_
  rintro ⟨body, _⟩ rest₅ shorter₅ vs ⟨bodyFormed, rfl⟩
  refine derives_return _ ⟨t₁, _, rfl, isFn, ?_⟩
  rintro front opens rfl
  have formed := FormsDefinition.definition opens isName isStart paramsFormed isClose bodyFormed
  simpa using formed

/-- A definition that is read is formed by the tokens taken for it. -/
theorem derives_definition (stop : ByteRange) (ts : List PlacedToken)
    : Derives ts (definition stop ts) fun d us => FormsDefinition us d := by
  rw [definition]
  rcases take?_cases (.keyword .gen) ts with noGen | ⟨t, rest, rfl, isGen, taken⟩
  · rw [noGen]
    refine (derives_signatureAndBody stop _ false ts).inFront.mono ?_
    rintro d _ ⟨⟨t, vs, rfl, isFn, formed⟩, inFront⟩
    refine formed [] ?_ (startRange_of_inFront inFront stop nofun).symm
    rw [List.nil_append, List.map_singleton, isFn]
    rfl
  · rw [taken]
    refine Derives.after ((derives_signatureAndBody stop t.range true rest).bind ?_)
    rintro d left shorter _ ⟨t', vs, rfl, isFn, formed⟩
    refine derives_return _ ?_
    rw [List.append_nil]
    refine formed [t] ?_ rfl
    rw [List.singleton_append, List.map_cons, List.map_singleton, isGen, isFn]
    rfl

/-- The tokens form the definitions, one after the other. -/
inductive FormsAll : List PlacedToken → List Definition → Prop where
  | nil : FormsAll [] []
  | cons {ts us : List PlacedToken} {d : Definition} {ds : List Definition}
      (first : FormsDefinition ts d) (rest : FormsAll us ds)
      : FormsAll (ts ++ us) (d :: ds)

theorem FormsAll.single {ts : List PlacedToken} {d : Definition} (h : FormsAll ts [d])
    : FormsDefinition ts d := by
  obtain _ | ⟨first, rest⟩ := h
  cases rest
  rw [List.append_nil]
  exact first

/-- Definitions that are read until no token is left are formed by all of the tokens. -/
theorem formsAll_of_definitions (stop : ByteRange) (done : List Definition)
    (ts : List PlacedToken) {read : List Definition} (h : definitions stop done ts = .ok read)
    : ∃ ds, read = done.reverse ++ ds ∧ FormsAll ts ds := by
  rw [definitions] at h
  split at h
  · next empty =>
      cases h
      rw [List.isEmpty_iff.mp empty]
      exact ⟨[], (List.append_nil _).symm, .nil⟩
  · cases first : definition stop ts with
    | error fault =>
        rw [first] at h
        cases h
    | ok given =>
        obtain ⟨d, rest, shorter⟩ := given
        rw [first] at h
        obtain ⟨taken, whole, formed⟩ := derives_definition stop ts d ⟨rest, shorter⟩ first
        obtain ⟨ds, rfl, restFormed⟩ := formsAll_of_definitions stop (d :: done) rest h
        refine ⟨d :: ds, ?_, ?_⟩
        · rw [List.reverse_cons, List.append_assoc, List.singleton_append]
        · rw [whole]
          exact .cons formed restFormed
termination_by ts.length

end Definitions

end Reader

open Reader

/-- A definition that is read is formed by the tokens that it is read from. -/
theorem Definition.forms_of_ofTokens {stop : ByteRange} {ts : List PlacedToken} {d : Definition}
    (h : Definition.ofTokens stop ts = .ok d)
    : FormsDefinition ts d := by
  rw [Definition.ofTokens] at h
  split at h
  · cases h
  · next only read =>
      cases h
      obtain ⟨ds, single, formed⟩ := formsAll_of_definitions stop [] ts read
      rw [List.reverse_nil, List.nil_append] at single
      subst single
      exact formed.single
  · cases h
  · cases h

/-- A definition that is read is spelled by the tokens that it is read from. -/
theorem Definition.spells_of_ofTokens {stop : ByteRange} {ts : List PlacedToken} {d : Definition}
    (h : Definition.ofTokens stop ts = .ok d)
    : SpellsDefinition (ts.map PlacedToken.token) d :=
  (forms_of_ofTokens h).spells

end RecordSynth.Source
