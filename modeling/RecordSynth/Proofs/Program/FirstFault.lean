import RecordSynth.Proofs.Program.Compilation
import RecordSynth.Proofs.Program.Demands

/-! Compilation fails with the fault of the first demand that is not met, and succeeds if all are
met. Each step of the emission is decided by the demands of its tree, given that what has been
emitted before has entered into the tables what the earlier demands say. The proof follows the
trees.
-/

namespace RecordSynth

open Source

-----------------------------------------------------------------------------------------
-- Steps that are decided by demands
-----------------------------------------------------------------------------------------

/-- The outcome of a step is what its demands say after earlier ones: the first fault, or, if all of
them are met, something that holds after all these demands.
-/
def Reports {α : Type} (isGenerator : Bool) (earlier demands : List Demand)
    (holds : List Demand → α → Prop) : Except Fault α → Prop
  | .ok a => Demand.firstFault? isGenerator earlier demands = none ∧ holds (earlier ++ demands) a
  | .error fault => Demand.firstFault? isGenerator earlier demands = some fault

namespace Reports

variable {α β : Type} {isGenerator : Bool} {earlier demands more : List Demand}
  {demand : Demand} {holds : List Demand → α → Prop} {holds' : List Demand → β → Prop}
  {x : Except Fault α}

/-- A step that goes on with another one is decided by the demands of both. -/
theorem bind {f : α → Except Fault β} (first : Reports isGenerator earlier demands holds x)
    (next : ∀ a, x = .ok a → holds (earlier ++ demands) a →
      Reports isGenerator (earlier ++ demands) more holds' (f a))
    : Reports isGenerator earlier (demands ++ more) holds' (x >>= f) := by
  have split := @Demand.firstFault?_append isGenerator earlier demands more
  cases x with
  | error fault => exact split.trans (congrArg (Option.or · _) first)
  | ok a =>
      obtain ⟨free, isHeld⟩ := first
      rw [free, Option.none_or] at split
      have second := next a rfl isHeld
      change Reports isGenerator earlier (demands ++ more) holds' (f a)
      cases result : f a with
      | error fault =>
          rw [result] at second
          exact split.trans second
      | ok b =>
          rw [result] at second
          exact ⟨split.trans second.1, List.append_assoc earlier demands more ▸ second.2⟩

/-- A step that demands nothing more comes to something else. -/
theorem map {f : α → Except Fault β} {g : α → β}
    (first : Reports isGenerator earlier demands holds x) (isPure : ∀ a, f a = .ok (g a))
    (next : ∀ a, holds (earlier ++ demands) a → holds' (earlier ++ demands) (g a))
    : Reports isGenerator earlier demands holds' (x >>= f) := by
  cases x with
  | error fault => exact first
  | ok a =>
      change Reports isGenerator earlier demands holds' (f a)
      rw [isPure]
      exact ⟨first.1, next a first.2⟩

theorem met {a : α} (isMet : demand.fault? isGenerator earlier = none)
    (isHeld : holds (earlier ++ [demand]) a)
    : Reports isGenerator earlier [demand] holds (.ok a) :=
  ⟨(Demand.firstFault?_singleton demand).trans isMet, isHeld⟩

/-- A demand that is met is followed by the others. -/
theorem met_cons (isMet : demand.fault? isGenerator earlier = none)
    (rest : Reports isGenerator (earlier ++ [demand]) demands holds x)
    : Reports isGenerator earlier (demand :: demands) holds x := by
  have first : Reports isGenerator earlier [demand] (fun _ _ => True) (.ok ()) :=
    met isMet trivial
  exact first.bind fun _ _ _ => rest

theorem fault {fault : Fault} (isFault : demand.fault? isGenerator earlier = some fault)
    : Reports isGenerator earlier (demand :: demands) holds (.error fault) :=
  congrArg (Option.or · _) isFault

end Reports

namespace Emission

/-- What has been emitted is what earlier demands say, as far as later ones go by it: the parameters
and the tables.
-/
structure Tracks (params : Params) (earlier : List Demand) (e : Emission) : Prop where
  params : params.toList = Demand.params earlier
  names : e.names.toList = Demand.nameTable earlier
  consts : e.consts.toList = Demand.constTable earlier
  consts_le : e.consts.toList.length ≤ operandLimit

section Steps

variable {params : Params} {isGenerator : Bool} {earlier : List Demand} {e e' : Emission}
  {demand : Demand} {range : ByteRange}

/-- A step that meets a demand enters what the demand enters. -/
theorem Tracks.step {params' : Params} (tracks : Tracks params earlier e)
    (isParams : params'.toList = params.toList ++ demand.param?.toList)
    (names : e'.names.toList = enterAll e.names.toList demand.name?.toList)
    (consts : e'.consts.toList = enterAll e.consts.toList demand.const?.toList)
    (consts_le : e'.consts.toList.length ≤ operandLimit)
    : Tracks params' (earlier ++ [demand]) e' where
  params := by rw [isParams, tracks.params, Demand.params_concat]
  names := by rw [names, tracks.names, Demand.nameTable_concat]
  consts := by rw [consts, tracks.consts, Demand.constTable_concat]
  consts_le := consts_le

/-- A demand that is only looked at leaves everything as it is. -/
theorem Tracks.look (tracks : Tracks params earlier e) (noParam : demand.param? = none)
    (noName : demand.name? = none) (noConst : demand.const? = none)
    : Tracks params (earlier ++ [demand]) e :=
  tracks.step (by simp [noParam]) (by simp [noName]) (by simp [noConst]) tracks.consts_le

theorem Tracks.emit (tracks : Tracks params earlier e) (instr : Instr)
    : Tracks params earlier (e.emit instr) :=
  ⟨tracks.params, tracks.names, tracks.consts, tracks.consts_le⟩

theorem operand_cases (n : Nat) (table : Table) (range : ByteRange)
    : (n < operandLimit ∧ operand n table range = .ok n)
      ∨ (¬n < operandLimit ∧ operand n table range = .error ⟨.tableFull table, range⟩) := by
  unfold operand
  split
  · next fits => exact Or.inl ⟨fits, rfl⟩
  · next full => exact Or.inr ⟨full, rfl⟩

theorem namePosition_cases (e : Emission) (name : String) (range : ByteRange)
    : let room := name ∈ e.names.toList ∨ e.names.toList.length < operandLimit
      (room ∧ ∃ i e', e.namePosition name range = .ok (i, e'))
      ∨ (¬room ∧ e.namePosition name range = .error ⟨.tableFull .names, range⟩) := by
  intro room
  unfold namePosition
  split
  · next i found =>
    exact Or.inl ⟨Or.inl (Roster.position?_eq_some_iff_idxOf.mp found).1, i, e, rfl⟩
  · next fresh =>
    dsimp only
    rcases operand_cases e.names.size .names range with ⟨fits, isResult⟩ | ⟨full, isResult⟩
    · simp only [isResult]
      exact Or.inl ⟨Or.inr fits, _, _, rfl⟩
    · simp only [isResult]
      have absent := Roster.position?_eq_none_iff_not_mem.mp fresh
      exact Or.inr ⟨not_or.mpr ⟨absent, full⟩, trivial⟩

theorem constPosition_cases (e : Emission) (value : Literal) (range : ByteRange)
    (consts_le : e.consts.toList.length ≤ operandLimit)
    : let room := value ∈ e.consts.toList ∨ e.consts.toList.length < operandLimit
      (room ∧ ∃ i e', e.constPosition value range = .ok (i, e'))
      ∨ (¬room ∧ e.constPosition value range = .error ⟨.tableFull .consts, range⟩) := by
  intro room
  unfold constPosition
  split
  · next i found =>
    -- A position in a table that is not too large can be an operand.
    obtain ⟨present, position⟩ := Roster.position?_eq_some_iff_idxOf.mp found
    have fits : i < operandLimit :=
      Nat.lt_of_lt_of_le (position ▸ List.idxOf_lt_length_of_mem present) consts_le
    simp only [operand_eq_ok_iff.mpr ⟨fits, rfl⟩]
    exact Or.inl ⟨Or.inl present, _, _, rfl⟩
  · next fresh =>
    dsimp only
    rcases operand_cases e.consts.size .consts range with ⟨fits, isResult⟩ | ⟨full, isResult⟩
    · simp only [isResult]
      exact Or.inl ⟨Or.inr fits, _, _, rfl⟩
    · simp only [isResult]
      have absent := Roster.position?_eq_none_iff_not_mem.mp fresh
      exact Or.inr ⟨not_or.mpr ⟨absent, full⟩, trivial⟩

theorem reports_emitWithName (tracks : Tracks params earlier e) (instr : Nat → Instr)
    (name : String) (range : ByteRange)
    : Reports isGenerator earlier [.name name range] (Tracks params)
        (e.emitWithName instr name range) := by
  have cases := namePosition_cases e name range
  rw [tracks.names] at cases
  rcases cases with ⟨room, i, e₁, positioned⟩ | ⟨noRoom, isResult⟩
  · have isResult : e.emitWithName instr name range = .ok (e₁.emit (instr i)) := by
      rw [emitWithName, positioned]
    have adds : Adds params.toList e _ _ _ _ := adds_emitWithName isResult
    rw [isResult]
    exact .met (if_pos room)
      (tracks.step (List.append_nil _).symm adds.names adds.consts
        (adds.consts_le tracks.consts_le))
  · rw [emitWithName, isResult]
    exact .fault (if_neg noRoom)

theorem reports_emitConst (tracks : Tracks params earlier e) (value : Literal)
    (range : ByteRange)
    : Reports isGenerator earlier [.const value range] (Tracks params)
        (e.emitConst value range) := by
  have cases := constPosition_cases e value range tracks.consts_le
  rw [tracks.consts] at cases
  rcases cases with ⟨room, i, e₁, positioned⟩ | ⟨noRoom, isResult⟩
  · have isResult : e.emitConst value range = .ok (e₁.emit (.loadConst i)) := by
      rw [emitConst, positioned]
    have adds : Adds params.toList e _ _ _ _ := adds_emitConst isResult
    rw [isResult]
    exact .met (if_pos room)
      (tracks.step (List.append_nil _).symm adds.names adds.consts
        (adds.consts_le tracks.consts_le))
  · rw [emitConst, isResult]
    exact .fault (if_neg noRoom)

theorem reports_emitCount (tracks : Tracks params earlier e) (instr : Nat → Instr) (count : Nat)
    (table : Table) (range : ByteRange)
    : Reports isGenerator earlier [.operands count table range] (Tracks params)
        (e.emitCount instr count table range) := by
  unfold emitCount
  rcases operand_cases count table range with ⟨fits, isResult⟩ | ⟨full, isResult⟩
  · rw [isResult]
    exact .met (if_pos fits) ((tracks.look rfl rfl rfl).emit _)
  · rw [isResult]
    exact .fault (if_neg full)

theorem reports_patchHere (tracks : Tracks params earlier e) (jump : Nat) {position : Nat}
    (isNext : e.code.size = position) (range : ByteRange)
    : Reports isGenerator earlier [.target position range] (Tracks params)
        (e.patchHere jump range) := by
  subst isNext
  unfold patchHere here
  by_cases fits : e.code.size < targetLimit
  · rw [if_pos fits]
    have looked : Tracks params (earlier ++ [.target e.code.size range]) e :=
      tracks.look rfl rfl rfl
    exact .met (if_pos fits) ⟨looked.params, looked.names, looked.consts, looked.consts_le⟩
  · rw [if_neg fits]
    exact .fault (if_neg fits)

/-- A call is at fault exactly if it turns out to call nothing. -/
theorem callFault?_eq (callee : String) (calleeRange : ByteRange) (args : List Expr)
    (range : ByteRange)
    : Demand.callFault? callee calleeRange args range
      = match callOf range callee calleeRange args with
        | .ok _ => none
        | .error fault => some fault := by
  unfold Demand.callFault? callOf
  by_cases isLabel : callee = "nameof"
  · rw [if_pos isLabel, if_pos (beq_iff_eq.mpr isLabel)]
    unfold labelOf?
    split
    · simp [isLabel]
    · simp
  rw [if_neg isLabel, if_neg (beq_iff_eq.not.mpr isLabel)]
  by_cases isJoin : callee = "concat"
  · rw [if_pos isJoin, if_pos (beq_iff_eq.mpr isJoin)]
  rw [if_neg isJoin, if_neg (beq_iff_eq.not.mpr isJoin)]
  cases Builtin.ofName? callee with
  | none => rfl
  | some function =>
      dsimp only
      split
      · rfl
      · rfl

end Steps

-----------------------------------------------------------------------------------------
-- Trees, part by part
-----------------------------------------------------------------------------------------

mutual

/-- An expression is decided by what it demands, by recursion on the expression. -/
theorem reports_expr {params : Params} {isGenerator : Bool} {earlier : List Demand}
    {e : Emission} (tracks : Tracks params earlier e) (x : Expr)
    : Reports isGenerator earlier x.demands (Tracks params) (expr params e x) := by
  cases x with
  | literal range value => exact reports_emitConst tracks value range
  | var range name =>
      rw [expr]
      split
      · next slot found =>
        have present := (Roster.position?_eq_some_iff_idxOf.mp found).1
        exact .met (if_pos (tracks.params ▸ present)) ((tracks.look rfl rfl rfl).emit _)
      · next absent =>
        have unbound := Roster.position?_eq_none_iff_not_mem.mp absent
        exact .fault (if_neg (tracks.params ▸ unbound))
  | attr range object field =>
      rw [expr, Expr.demands]
      refine (reports_expr tracks object).bind fun e₁ _ tracks₁ => ?_
      exact reports_emitWithName tracks₁ .loadAttr field range
  | call range callee calleeRange args =>
      rw [expr, Expr.demands]
      have decided := callFault?_eq callee calleeRange args range
      cases isResult : callOf range callee calleeRange args with
      | error fault =>
          rw [isResult] at decided
          exact .fault decided
      | ok call =>
          rw [isResult] at decided
          have looked : Tracks params (earlier ++ [.call callee calleeRange args range]) e :=
            tracks.look rfl rfl rfl
          refine .met_cons decided ?_
          rcases callOf_eq_ok_cases isResult with
            ⟨name, label, rfl⟩ | ⟨unlabelled, isJoin, rfl⟩ |
              ⟨function, unlabelled, builtin, single, rfl⟩
          · rw [label]
            exact reports_emitWithName looked .loadName name range
          · rw [unlabelled, if_pos isJoin]
            refine (reports_exprs looked args).bind fun e₁ _ tracks₁ => ?_
            exact reports_emitCount tracks₁ .buildString args.length .concat range
          · have notJoin : callee ≠ "concat" := by
              rintro rfl
              exact nomatch ofName?_concat.symm.trans builtin
            rw [unlabelled, if_neg notJoin, List.append_nil]
            exact (reports_exprs looked args).map (fun _ => rfl) fun e₁ tracks₁ => tracks₁.emit _
  | tuple range items =>
      rw [expr, Expr.demands]
      refine (reports_exprs tracks items).bind fun e₁ _ tracks₁ => ?_
      exact reports_emitCount tracks₁ .buildTuple items.length .tuple range
  | compare range op left right =>
      rw [expr, Expr.demands]
      refine (reports_expr tracks left).bind fun e₁ _ tracks₁ => ?_
      exact (reports_expr tracks₁ right).map (fun _ => rfl) fun e₂ tracks₂ => tracks₂.emit _

/-- Expressions are decided by what they demand in order. -/
theorem reports_exprs {params : Params} {isGenerator : Bool} {earlier : List Demand}
    {e : Emission} (tracks : Tracks params earlier e) (xs : List Expr)
    : Reports isGenerator earlier (Expr.demandsAll xs) (Tracks params) (exprs params e xs) := by
  cases xs with
  | nil => exact ⟨rfl, (List.append_nil earlier).symm ▸ tracks⟩
  | cons x rest =>
      rw [exprs, Expr.demandsAll]
      refine (reports_expr tracks x).bind fun e₁ _ tracks₁ => ?_
      exact reports_exprs tracks₁ rest

end

theorem size_emit_after_expr {params : Params} {e e' : Emission} {x : Expr}
    (emitted : expr params e x = .ok e') (instr : Instr) (l : Layout)
    : (e'.emit instr).code.size = e.code.size + (x.code l).length + 1 := by
  obtain ⟨-, adds⟩ := expr_adds params e x e' emitted
  have size := adds.size_of_length (fun l l' => x.length_code l l') l
  exact (Array.size_push _).trans (congrArg (· + 1) size)

theorem size_after_stmts {params : Params} {isGenerator : Bool} {e e' : Emission}
    {ss : List Stmt} (emitted : stmts params isGenerator e ss = .ok e') (l : Layout)
    : e'.code.size = e.code.size + (Stmt.codeAll l e.code.size ss).length := by
  obtain ⟨-, adds, -⟩ := stmts_adds params isGenerator e ss e' emitted
  exact adds.size_of_length (fun l l' => Stmt.length_codeAll l l' _ ss) l

/-- A branch begins with its test and its body, whatever comes behind them. -/
theorem reports_test_and_body {params : Params} {isGenerator : Bool} {earlier more : List Demand}
    {e : Emission} {l : Layout} {thenBody : List Stmt}
    {next : Emission → Emission → Result Emission} (tracks : Tracks params earlier e) (test : Expr)
    (body : ∀ {earlier e}, Tracks params earlier e →
      Reports isGenerator earlier (Stmt.demandsAll l e.code.size thenBody) (Tracks params)
        (stmts params isGenerator e thenBody))
    : let startThen := e.code.size + (test.code l).length + 1
      let inFront := earlier ++ test.demands ++ Stmt.demandsAll l startThen thenBody
      (∀ e₁ e₂, Tracks params inFront e₂ →
        e₂.code.size = startThen + (Stmt.codeAll l startThen thenBody).length →
        Reports isGenerator inFront more (Tracks params) (next e₁ e₂)) →
      Reports isGenerator earlier
        (test.demands ++ (Stmt.demandsAll l startThen thenBody ++ more)) (Tracks params)
        (do
          let e₁ ← expr params e test
          let e₂ ← stmts params isGenerator (e₁.emit (.jumpIfFalse e₁.code.size)) thenBody
          next e₁ e₂) := by
  intro startThen inFront rest
  refine (reports_expr tracks test).bind fun e₁ first tracks₁ => ?_
  have start := size_emit_after_expr first (.jumpIfFalse e₁.code.size) l
  have bodyReports := body (tracks₁.emit (.jumpIfFalse e₁.code.size))
  rw [start] at bodyReports
  refine bodyReports.bind fun e₂ second tracks₂ => ?_
  have afterThen := size_after_stmts second l
  rw [start] at afterThen
  exact rest e₁ e₂ tracks₂ afterThen

mutual

/-- A statement is decided by what it demands where it stands, by recursion on the statement. -/
theorem reports_stmt {params : Params} {earlier : List Demand} {e : Emission}
    (tracks : Tracks params earlier e) (isGenerator : Bool) (l : Layout) (s : Stmt)
    : Reports isGenerator earlier (s.demands l e.code.size) (Tracks params)
        (stmt params isGenerator e s) := by
  cases s with
  | assign range object field value =>
      rw [stmt, Stmt.demands]
      refine (reports_expr tracks value).bind fun e₁ _ tracks₁ => ?_
      refine (reports_expr tracks₁ object).bind fun e₂ _ tracks₂ => ?_
      exact reports_emitWithName tracks₂ .storeAttr field range
  | giveBack range value =>
      cases value with
      | none =>
          rw [stmt, Stmt.demands]
          exact (reports_emitConst tracks .none range).map (fun _ => rfl)
            fun e₁ tracks₁ => tracks₁.emit _
      | some value =>
          rw [stmt, Stmt.demands]
          exact (reports_expr tracks value).map (fun _ => rfl) fun e₁ tracks₁ => tracks₁.emit _
  | yield range value =>
      rw [stmt, Stmt.demands]
      cases isGenerator with
      | false => exact .fault rfl
      | true =>
          refine .met_cons rfl ?_
          have looked : Tracks params (earlier ++ [.generator range]) e := tracks.look rfl rfl rfl
          exact (reports_expr looked value).map (fun _ => rfl) fun e₁ tracks₁ => tracks₁.emit _
  | branch range test thenBody elseBody =>
      have body {earlier : List Demand} {e : Emission} (tracks : Tracks params earlier e) :=
        reports_stmts tracks isGenerator l thenBody
      cases elseBody with
      | nil =>
          rw [stmt, Stmt.demands]
          refine reports_test_and_body tracks test body fun e₁ e₂ tracks₂ afterThen => ?_
          exact reports_patchHere tracks₂ e₁.code.size afterThen range
      | cons firstElse restElse =>
          rw [stmt, Stmt.demands]
          refine reports_test_and_body tracks test body fun e₁ e₂ tracks₂ afterThen => ?_
          -- The alternative starts behind the jump that ends the body.
          have behindJump : (e₂.emit (.jump e₂.code.size)).code.size = _ :=
            (Array.size_push _).trans (congrArg (· + 1) afterThen)
          refine (reports_patchHere (tracks₂.emit _) e₁.code.size behindJump range).bind
            fun e₃ third tracks₃ => ?_
          have startElse := congrArg (·.code.size) (patchHere_eq_ok_iff.mp third).2
          simp only [size_patch, behindJump] at startElse
          have other := reports_stmts tracks₃ isGenerator l (firstElse :: restElse)
          rw [startElse] at other
          refine other.bind fun e₄ fourth tracks₄ => ?_
          have afterElse := size_after_stmts fourth l
          rw [startElse] at afterElse
          exact reports_patchHere tracks₄ e₂.code.size afterElse range
  | discard range value =>
      rw [stmt, Stmt.demands]
      exact (reports_expr tracks value).map (fun _ => rfl) fun e₁ tracks₁ => tracks₁.emit _

/-- Statements are decided by what they demand one after the other. -/
theorem reports_stmts {params : Params} {earlier : List Demand} {e : Emission}
    (tracks : Tracks params earlier e) (isGenerator : Bool) (l : Layout) (ss : List Stmt)
    : Reports isGenerator earlier (Stmt.demandsAll l e.code.size ss) (Tracks params)
        (stmts params isGenerator e ss) := by
  cases ss with
  | nil => exact ⟨rfl, (List.append_nil earlier).symm ▸ tracks⟩
  | cons s rest =>
      rw [stmts, Stmt.demandsAll]
      refine (reports_stmt tracks isGenerator l s).bind fun e₁ first tracks₁ => ?_
      obtain ⟨-, adds, -⟩ := stmt_adds params isGenerator e s e₁ first
      rw [← adds.size_of_length (fun l l' => s.length_code l l' _) l]
      exact reports_stmts tracks₁ isGenerator l rest

end

-----------------------------------------------------------------------------------------
-- Whole definitions
-----------------------------------------------------------------------------------------

/-- Parameters are decided by demands to be new, by induction on the parameters. -/
theorem reports_bindParams {isGenerator : Bool} {earlier : List Demand} {bound : Params}
    (tracks : Tracks bound earlier .empty) (ps : List Param)
    : Reports isGenerator earlier (ps.map fun p => .param p.name p.range)
        (fun demands params => Tracks params demands .empty) (bindParams bound ps) := by
  induction ps generalizing bound earlier with
  | nil => exact ⟨rfl, (List.append_nil earlier).symm ▸ tracks⟩
  | cons p rest ih =>
      rw [bindParams, List.map_cons]
      split
      · next slot found =>
        have present := (Roster.position?_eq_some_iff_idxOf.mp found).1
        exact .fault (if_pos (tracks.params ▸ present))
      · next fresh =>
        have absent := Roster.position?_eq_none_iff_not_mem.mp fresh
        rw [tracks.params] at absent
        have size : bound.size = (Demand.params earlier).length :=
          congrArg List.length tracks.params
        rcases operand_cases bound.size .params p.range with ⟨fits, isResult⟩ | ⟨full, isResult⟩
        · rw [isResult]
          exact .met_cons ((if_neg absent).trans (if_pos (size ▸ fits)))
            (ih (tracks.step (Roster.toList_push ..) rfl rfl tracks.consts_le))
        · rw [isResult]
          exact .fault ((if_neg absent).trans (if_neg (size ▸ full)))

end Emission

open Emission in
/-- The compilation of a definition is decided by the demands of the definition. -/
theorem Program.reports_ofDefinition (d : Definition)
    : Reports d.isGenerator [] d.demands (fun _ _ => True) (Program.ofDefinition d) := by
  have start : Tracks .empty [] .empty := ⟨rfl, rfl, rfl, Nat.zero_le _⟩
  refine (reports_bindParams start d.params).bind fun params _ tracks => ?_
  refine (reports_stmts tracks d.isGenerator d.layout d.body).bind fun e _ tracks => ?_
  exact (reports_emitConst tracks .none d.range).map (fun _ => rfl) fun _ _ => trivial

/-- What compilation accepts and what it reports. A definition compiles exactly if it is accepted,
which is if all its demands are met. Otherwise the error is the fault of the first demand that is
not met: at its place, and with all demands before it met.
-/
theorem Program.ofDefinition_outcome_iff (d : Definition)
    : ((∃ p, Program.ofDefinition d = .ok p) ↔ d.Accepted)
      ∧ (d.Accepted
        ↔ ∀ met demand rest, d.demands = met ++ demand :: rest →
          demand.fault? d.isGenerator met = none)
      ∧ ∀ fault, Program.ofDefinition d = .error fault
        ↔ ∃ met demand rest,
          d.demands = met ++ demand :: rest
          ∧ (∀ before earlier between, met = before ++ earlier :: between →
            earlier.fault? d.isGenerator before = none)
          ∧ demand.fault? d.isGenerator met = some fault := by
  have accepted : (∃ p, Program.ofDefinition d = .ok p) ↔ d.Accepted := by
    simp [Program.ofDefinition_eq_ok_iff]
  have none_iff := @Demand.firstFault?_eq_none_iff d.isGenerator []
  have some_iff := @Demand.firstFault?_eq_some_iff d.isGenerator []
  simp only [List.nil_append] at none_iff some_iff
  simp only [← none_iff, ← some_iff]
  have reports := Program.reports_ofDefinition d
  refine ⟨accepted, ?_⟩
  rw [← accepted]
  cases result : Program.ofDefinition d with
  | ok p =>
      rw [result] at reports
      simp [reports.1]
  | error fault =>
      rw [result] at reports
      have isFault : Demand.firstFault? d.isGenerator [] d.demands = some fault := reports
      simp [isFault]

end RecordSynth
