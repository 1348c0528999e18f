import RecordSynth.Proofs.Source.Lookahead

/-! Reading fails at the first token that cannot stand where it does: where a phrase can stand, all
outcomes of reading it are traced, by the recursion of the reader.
-/

namespace RecordSynth.Source.Reader

variable {stop : ByteRange}

-----------------------------------------------------------------------------------------
-- Single tokens
-----------------------------------------------------------------------------------------

section Tokens

variable {before ts : List PlacedToken}

theorem traces_expect {token : Token} (expected : Expected) (admits : Admits before (only token))
    : Traces stop (way (expect stop token expected)) before ts := by
  refine Traces.mono ?_ (expect_le stop token expected)
  refine traces_choose_take? (fun t _ _ _ => traces_done t.range) ?_
  exact traces_unexpected expected (admits.completable (only_mem token))

/-- A phrase may end with a token that is expected. -/
theorem traces_expectThen {α : Type} {token : Token} (expected : Expected)
    (admits : Admits before (only token)) (f : ByteRange → α)
    : Traces stop ((way (expect stop token expected)).andThen fun range => Way.done (f range))
        before ts :=
  (traces_expect expected admits).thenDone (derives_expect token expected ts).way f

theorem traces_expectIdent (admits : Admits before identifiers)
    : Traces stop (way (expectIdent stop)) before ts := by
  refine Traces.mono ?_ (expectIdent_le stop)
  refine traces_choose_takeIf? (fun t _ name _ _ => traces_done (name, t.range)) ?_
  exact traces_unexpected .identifier (admits.completable (ident_mem ""))

end Tokens

-----------------------------------------------------------------------------------------
-- Expressions
-----------------------------------------------------------------------------------------

section Expressions

/-- Behind an operand, attribute accesses are traced wherever an operand can stand. -/
theorem traces_attributes {before front : List PlacedToken} {object : Expr}
    (ts : List PlacedToken) (admits : Admits before (spellings .operand))
    (formed : Forms front (.operand object))
    : Traces stop (boundedWay fun _ => attributes stop object) (before ++ front) ts := by
  refine Traces.mono ?_ (attributes_le stop object)
  refine traces_choose_take? ?_ (traces_done object)
  intro dot rest isCons isDot
  have names : Admits (before ++ front ++ [dot]) identifiers := by
    rw [List.append_assoc]
    refine admits.behind ?_
    rintro _ ⟨name, rfl⟩
    have whole := attr_mem_operands ⟨object, formed.spelledBy⟩ name
    simpa [isDot] using whole
  refine (traces_expectIdent names).andThen (derives_expectIdent rest).way ?_
  rintro ⟨name, _⟩ _ rest' ⟨t, rfl, isName, rfl⟩ rfl
  have longer := traces_attributes rest' admits (Forms.attr formed isDot isName)
  simpa using longer
termination_by ts.length
decreasing_by subst_vars; grind

mutual

/-- Where an expression can stand, reading one is traced. -/
theorem traces_expr {before : List PlacedToken} (ts : List PlacedToken)
    (admits : Admits before (spellings .expr))
    : Traces stop (way (expr stop)) before ts := by
  refine Traces.mono ?_ (expr_le stop)
  refine (traces_operand ts (admits.mono fun _ => mem_exprs)).andThen
    (derives_operand stop ts).way ?_
  intro left us rest formed isRest
  exact traces_comparisons rest admits (.expr formed)
termination_by (ts.length, 3)
decreasing_by all_goals subst_vars; grind

/-- Behind an expression, comparisons are traced wherever an expression can stand. -/
theorem traces_comparisons {before front : List PlacedToken} {left : Expr}
    (ts : List PlacedToken) (admits : Admits before (spellings .expr))
    (formed : Forms front (.expr left))
    : Traces stop (boundedWay fun _ => comparisons stop left) (before ++ front) ts := by
  refine Traces.mono ?_ (comparisons_le stop left)
  refine traces_choose_takeIf? ?_ (traces_done left)
  intro t rest op isCons operator
  have operands : Admits (before ++ front ++ [t]) (spellings .operand) := by
    rw [List.append_assoc]
    refine admits.behind fun us mem => ?_
    have whole := compare_mem_exprs ⟨left, formed.spelledBy⟩ operator mem
    simpa using whole
  refine (traces_operand rest operands).andThen (derives_operand stop rest).way ?_
  rintro right us rest' rightFormed rfl
  have longer := traces_comparisons rest' admits (.compare formed operator rightFormed)
  simpa using longer
termination_by (ts.length, 0)
decreasing_by all_goals subst_vars; grind

/-- Where an operand can stand, reading one is traced. -/
theorem traces_operand {before : List PlacedToken} (ts : List PlacedToken)
    (admits : Admits before (spellings .operand))
    : Traces stop (way (operand stop)) before ts := by
  refine Traces.mono ?_ (operand_le stop)
  refine (traces_primary ts (admits.mono fun _ => mem_operands)).andThen
    (derives_primary stop ts).way ?_
  intro object us rest formed _
  exact traces_attributes rest admits (.operand formed)
termination_by (ts.length, 2)

/-- Where a primary can stand, reading one is traced. -/
theorem traces_primary {before : List PlacedToken} (ts : List PlacedToken)
    (admits : Admits before (spellings .primary))
    : Traces stop (way (primary stop)) before ts := by
  refine Traces.mono ?_ (primary_le stop)
  refine traces_choose_takeIf? ?named
    (traces_choose_take? ?list (traces_choose_takeIf? ?literal ?_))
  case named =>
    intro t rest name isCons isIdent
    have isName := eq_ident_of_ident? isIdent
    refine traces_choose_take? ?_ (traces_done _)
    intro start rest' isCons' isStart
    refine (traces_items rest' ?_).thenDone
      (derives_boundedWay fun _ bound => derives_items stop [] false rest' bound) _
    rw [List.append_assoc]
    refine admits.behind fun us mem => ?_
    have whole := call_mem_primaries name mem
    rwa [← isStart, ← isName] at whole
  case list =>
    intro start rest isCons isStart
    refine (traces_items rest (admits.behind fun us mem => ?_)).thenDone
      (derives_boundedWay fun _ bound => derives_items stop [] false rest bound) _
    have whole := paren_mem_primaries mem
    rwa [← isStart] at whole
  case literal => exact fun _ _ _ _ _ => traces_done _
  exact traces_unexpected .expression (admits.completable none_mem_primaries)
termination_by (ts.length, 1)
decreasing_by all_goals subst_vars; grind

/-- Where a list can stand, reading its items is traced. -/
theorem traces_items {before : List PlacedToken} {done : List Expr} {comma : Bool}
    (ts : List PlacedToken) (admits : Admits before lists)
    : Traces stop (boundedWay fun _ => items stop done comma) before ts := by
  refine Traces.mono ?_ (items_le stop done comma)
  refine traces_choose_take? (fun _ _ _ _ => traces_done _) ?_
  refine (traces_expr ts ?_).andThen (derives_expr stop ts).way ?_
  · exact admits.ahead _ fun _ => lastItem_mem_lists
  intro item us rest formed isRest
  have isItem : us.map PlacedToken.token ∈ spellings .expr := ⟨item, formed.spelledBy⟩
  refine traces_choose_take? ?_ ?_
  · intro t rest' isCons isComma
    refine traces_items rest' ?_
    rw [List.append_assoc]
    refine admits.behind fun vs mem => ?_
    have whole := item_mem_lists isItem mem
    simpa [isComma] using whole
  · refine traces_expectThen _ (admits.behind ?_) _
    rintro _ rfl
    exact lastItem_mem_lists isItem
termination_by (ts.length, 4)
decreasing_by all_goals subst_vars; grind

end

end Expressions

-----------------------------------------------------------------------------------------
-- Statements
-----------------------------------------------------------------------------------------

section Statements

theorem traces_exprThenSemicolon {before : List PlacedToken} (ts : List PlacedToken)
    (admits : Admits before lines)
    : Traces stop (boundedWay fun _ => exprThenSemicolon stop) before ts := by
  refine Traces.mono ?_ (exprThenSemicolon_le stop)
  refine (traces_expr ts (admits.first (only_mem _))).andThen (derives_expr stop ts).way ?_
  intro value us rest formed _
  exact traces_expectThen _ (admits.second us ⟨value, formed.spelledBy⟩) _

/-- A statement may end with an expression and its semicolon. -/
theorem traces_lineThen {before : List PlacedToken} (ts : List PlacedToken)
    (admits : Admits before lines) (f : Expr × ByteRange → Stmt)
    : Traces stop ((boundedWay fun _ => exprThenSemicolon stop).andThen fun line =>
        Way.done (f line)) before ts :=
  (traces_exprThenSemicolon ts admits).thenDone
    (derives_boundedWay fun _ bound => derives_exprThenSemicolon stop ts bound) f

/-- Behind a target and the `=` after it, the rest of an assignment is traced. -/
theorem traces_assign {before front rest : List PlacedToken} {start : ByteRange} {target : Expr}
    {t : PlacedToken} (admits : Admits before (spellings .stmt))
    (formed : Forms front (.expr target)) (isAssign : t.token = .mark .assign)
    : Traces stop (assignWay stop start target) (before ++ front ++ [t]) rest := by
  by_cases isAttr : ∃ range object field, target = .attr range object field
  · obtain ⟨range, object, field, rfl⟩ := isAttr
    refine traces_lineThen rest ?_ _
    rw [List.append_assoc]
    refine admits.behind fun us mem => ?_
    have whole := assign_mem_stmts formed.spelledBy mem
    simpa [isAssign] using whole
  · have notAttr : ∀ range object field, target ≠ .attr range object field :=
      fun range object field same => isAttr ⟨range, object, field, same⟩
    have isFails : assignWay stop start target = .fails ⟨.assignmentTarget, target.range⟩ := by
      cases target with
      | attr range object field => exact absurd rfl (notAttr range object field)
      | _ => rfl
    have whole : before ++ front ++ [t] ++ rest = before ++ (front ++ t :: rest) := by simp
    rw [isFails]
    rintro _ rfl
    exact .target whole admits formed notAttr isAssign

/-- A statement that begins with an expression is traced where a statement can stand. -/
theorem traces_assignmentOrExpr {before : List PlacedToken} (ts : List PlacedToken)
    (admits : Admits before (spellings .stmt))
    : Traces stop (way (assignmentOrExpr stop)) before ts := by
  refine Traces.mono (traces_fromStart ?_) (assignmentOrExpr_le stop)
  refine (traces_expr ts ?_).andThen (derives_expr stop ts).way ?_
  · exact admits.ahead _ fun _ mem => discard_mem_stmts (mem_mul_only _ mem _)
  intro target us rest formed _
  have isTarget : us.map PlacedToken.token ∈ spellings .expr := ⟨target, formed.spelledBy⟩
  refine traces_choose_take? (fun t _ _ isAssign => traces_assign admits formed isAssign) ?_
  refine traces_expectThen _ (admits.behind ?_) _
  rintro _ rfl
  exact discard_mem_stmts (mem_mul_only _ isTarget _)

/-- Behind a `return`, what it gives back is traced. -/
theorem traces_giveBack {before : List PlacedToken} {t : PlacedToken} (ts : List PlacedToken)
    (admits : Admits before (spellings .stmt)) (isReturn : t.token = .keyword .return)
    : Traces stop (boundedWay fun _ => giveBack stop t.range) (before ++ [t]) ts := by
  refine Traces.mono ?_ (giveBack_le stop t.range)
  refine traces_choose_take? (fun _ _ _ _ => traces_done _) ?_
  refine traces_lineThen ts (admits.behind fun us mem => ?_) _
  have whole := return_mem_stmts mem
  rwa [← isReturn] at whole

mutual

/-- Where a statement can stand, reading one is traced. -/
theorem traces_stmt {before : List PlacedToken} (ts : List PlacedToken)
    (admits : Admits before (spellings .stmt))
    : Traces stop (way (stmt stop)) before ts := by
  refine Traces.mono ?_ (stmt_le stop)
  refine traces_choose_take? ?giveBack (traces_choose_take? ?yield (traces_choose_take? ?branch ?_))
  case giveBack => exact fun t rest _ isReturn => traces_giveBack rest admits isReturn
  case yield =>
    intro t rest _ isYield
    refine traces_lineThen rest (admits.behind fun us mem => ?_) _
    have whole := yield_mem_stmts mem
    rwa [← isYield] at whole
  case branch =>
    intro t rest isCons isIf
    refine traces_branch rest (admits.behind fun us mem => ?_)
    have whole := if_mem_stmts mem
    rwa [← isIf] at whole
  exact traces_assignmentOrExpr ts admits
termination_by (ts.length, 3)
decreasing_by all_goals subst_vars; grind

/-- Behind an `if`, where a branch can go on, reading it is traced. -/
theorem traces_branch {before : List PlacedToken} {start : ByteRange} (ts : List PlacedToken)
    (admits : Admits before (spellings .branch))
    : Traces stop (boundedWay fun _ => branch stop start) before ts := by
  refine Traces.mono ?_ (branch_le stop start)
  refine (traces_expr ts ?_).andThen (derives_expr stop ts).way ?_
  · exact admits.ahead _ fun _ mem => ifThen_mem_branches mem empty_mem_blocks
  intro test us rest testFormed isRest
  have isTest : us.map PlacedToken.token ∈ spellings .expr := ⟨test, testFormed.spelledBy⟩
  refine (traces_block rest ?_).andThen (derives_block stop rest).way ?_
  · exact admits.behind fun _ mem => ifThen_mem_branches isTest mem
  rintro ⟨thenBody, _⟩ vs rest' ⟨thenFormed, rfl⟩ isRest'
  have isThen : vs.map PlacedToken.token ∈ spellings .block := ⟨thenBody, thenFormed.spelledBy⟩
  refine traces_choose_take? ?_ (traces_done _)
  intro divider rest₁ isCons isElse
  refine traces_choose_take? ?_ ?_
  · intro t rest₂ isCons' isIf
    refine (traces_branch rest₂ ?_).thenDone
      (derives_boundedWay fun _ bound => derives_branch stop isIf rest₂ bound) _
    simp only [List.append_assoc]
    refine admits.behind fun ws mem => ?_
    have whole := elseIf_mem_branches isTest isThen mem
    simpa [isElse, isIf] using whole
  · refine (traces_block rest₁ ?_).thenDone (derives_block stop rest₁).way _
    simp only [List.append_assoc]
    refine admits.behind fun ws mem => ?_
    have whole := ifElse_mem_branches isTest isThen mem
    simpa [isElse] using whole
termination_by (ts.length, 2)
decreasing_by all_goals subst_vars; grind

/-- Where a block can stand, reading one is traced. -/
theorem traces_block {before : List PlacedToken} (ts : List PlacedToken)
    (admits : Admits before (spellings .block))
    : Traces stop (way (block stop)) before ts := by
  refine Traces.mono ?_ (block_le stop)
  refine (traces_expect _ ?_).andThen (derives_expect _ _ ts).way ?_
  · refine admits.ahead [.mark .braceClose] ?_
    rintro _ rfl
    exact empty_mem_blocks
  rintro _ _ rest ⟨start, rfl, isStart, -⟩ isRest
  refine traces_stmts rest (admits.behind fun us mem => ?_)
  have whole := brace_mem_blocks mem
  rwa [← isStart] at whole
termination_by (ts.length, 1)
decreasing_by all_goals subst_vars; grind

/-- Where the rest of a block can stand, reading its statements is traced. -/
theorem traces_stmts {before : List PlacedToken} {done : List Stmt} (ts : List PlacedToken)
    (admits : Admits before bodies)
    : Traces stop (boundedWay fun _ => stmts stop done) before ts := by
  refine Traces.mono ?_ (stmts_le stop done)
  refine traces_choose_take? (fun _ _ _ _ => traces_done _) (traces_ifNil ?_ ?_)
  · exact fun _ => traces_unexpected .braceClose (admits.completable close_mem_bodies)
  intro notEmpty
  refine (traces_stmt ts ?_).andThen (derives_stmt stop ts).way ?_
  · exact admits.ahead _ fun _ mem => stmt_mem_bodies mem close_mem_bodies
  intro s us rest formed isRest
  obtain ⟨first, others, isFirst, -⟩ := formed.stmt_begin
  exact traces_stmts rest
    (admits.behind fun _ mem => stmt_mem_bodies ⟨s, formed.spelledBy⟩ mem)
termination_by (ts.length, 4)
decreasing_by all_goals subst_vars; grind

end

end Statements

-----------------------------------------------------------------------------------------
-- Definitions
-----------------------------------------------------------------------------------------

section Definitions

/-- Where parameters can stand, reading them is traced. -/
theorem traces_params {before : List PlacedToken} {done : List Param} (ts : List PlacedToken)
    (admits : Admits before paramLists)
    : Traces stop (boundedWay fun _ => params stop done) before ts := by
  refine Traces.mono ?_ (params_le stop done)
  refine traces_choose_take? (fun _ _ _ _ => traces_done _) ?_
  refine (traces_expectIdent (admits.ahead [.mark .parenClose] ?_)).andThen
    (derives_expectIdent ts).way ?_
  · rintro _ ⟨name, rfl⟩
    exact lastParam_mem_paramLists name
  rintro ⟨name, _⟩ _ rest ⟨t, rfl, isName, rfl⟩ isRest
  refine traces_choose_take? ?_ ?_
  · intro comma rest' isCons isComma
    refine traces_params rest' ?_
    rw [List.append_assoc]
    refine admits.behind fun us mem => ?_
    have whole := param_mem_paramLists name mem
    rwa [← isName, ← isComma] at whole
  · refine traces_expectThen _ (admits.behind ?_) _
    rintro _ rfl
    have whole := lastParam_mem_paramLists name
    rwa [← isName] at whole
termination_by ts.length
decreasing_by subst_vars; grind

/-- Where a definition can go on with its `fn`, reading it from there is traced. -/
theorem traces_signatureAndBody {before : List PlacedToken} {start : ByteRange}
    {isGenerator : Bool} (ts : List PlacedToken) (admits : Admits before signatures)
    : Traces stop (way (signatureAndBody stop start isGenerator)) before ts := by
  refine Traces.mono ?_ (signatureAndBody_le stop start isGenerator)
  refine (traces_expect _ (admits.first fromName_mem)).andThen (derives_expect _ _ ts).way ?_
  rintro _ _ rest₁ ⟨t₁, rfl, isFn, -⟩ -
  have admits₁ := admits.second [t₁] (congrArg (· :: []) isFn)
  refine (traces_expectIdent (admits₁.first fromParen_mem)).andThen
    (derives_expectIdent rest₁).way ?_
  rintro ⟨name, _⟩ _ rest₂ ⟨t₂, rfl, isName, -⟩ -
  have admits₂ := admits₁.second [t₂] ⟨name, congrArg (· :: []) isName⟩
  refine (traces_expect _ (admits₂.first fromParams_mem)).andThen
    (derives_expect _ _ rest₂).way ?_
  rintro _ _ rest₃ ⟨t₃, rfl, isStart, -⟩ -
  have admits₃ := admits₂.second [t₃] (congrArg (· :: []) isStart)
  refine (traces_params rest₃ (admits₃.first empty_mem_blocks)).andThen
    (derives_boundedWay fun _ bound => derives_params stop [] rest₃ bound) ?_
  rintro _ _ rest₄ ⟨ps, us, close, rfl, isClose, rfl, formed⟩ -
  have list : (us ++ [close]).map PlacedToken.token ∈ paramLists := by
    rw [List.map_append, List.map_singleton, isClose]
    exact mem_mul_only paramSpellings ⟨_, formed.spells⟩ _
  exact (traces_block rest₄ (admits₃.second _ list)).thenDone (derives_block stop rest₄).way _

/-- Where a definition can stand, reading one is traced. -/
theorem traces_definition {before : List PlacedToken} (ts : List PlacedToken)
    (admits : Admits before definitionSpellings)
    : Traces stop (way (definition stop)) before ts := by
  refine Traces.mono ?_ (definition_le stop)
  refine traces_choose_take? ?_ (traces_fromStart ?_)
  · intro t rest _ isGen
    refine (traces_signatureAndBody rest (admits.behind fun us mem => ?_)).thenDone
      (derives_signatureAndBody stop t.range true rest).way _
    obtain ⟨_, rfl, inside⟩ := exists_of_mem_signatures mem true
    rw [List.map_singleton, isGen]
    exact inside
  · refine traces_signatureAndBody ts (admits.mono fun us mem => ?_)
    obtain ⟨_, rfl, inside⟩ := exists_of_mem_signatures mem false
    exact inside

theorem length_pos_of_formsDefinition {ts : List PlacedToken} {d : Definition}
    (h : FormsDefinition ts d)
    : 0 < ts.length := by
  cases h with
  | definition _ _ _ _ _ _ =>
      simp only [List.length_append, List.length_cons]
      omega

/-- Where definitions can stand, reading them until no token is left is traced. -/
theorem traces_definitions {before : List PlacedToken} {done : List Definition}
    (ts : List PlacedToken) (admits : Admits before sources)
    : Traces stop (definitionsWay stop done) before ts := by
  refine Traces.mono ?_ (definitions_le stop done)
  refine traces_ifNil (fun _ => traces_done _) fun notEmpty => ?_
  refine (traces_definition ts ?_).andThen (derives_definition stop ts).way ?_
  · refine admits.ahead [] fun us mem => ?_
    exact definition_append_mem_sources mem (Language.nil_mem_kstar _)
  intro d us rest formed isRest
  have shorter := length_pos_of_formsDefinition formed
  exact traces_definitions rest
    (admits.behind fun _ mem => definition_append_mem_sources ⟨d, formed.spells⟩ mem)
termination_by ts.length
decreasing_by subst_vars; grind

end Definitions

end RecordSynth.Source.Reader
