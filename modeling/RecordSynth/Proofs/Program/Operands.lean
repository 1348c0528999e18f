import RecordSynth.Proofs.Program.Soundness

/-! Operands fit. A compiled program has in each instruction the whole position or count that is
meant, and none of them reaches the limit: positions stay within tables that do, and a call or a
tuple with more operands is not compiled.
-/

namespace RecordSynth

namespace Instr

/-- How many operands an instruction says that it takes. -/
def count? : Instr → Option Nat
  | buildTuple count | buildString count => some count
  | _ => none

/-- The position in a table, or the count, that an instruction has. -/
def operand? : Instr → Option Nat
  | loadConst i | loadParam i | loadAttr i | storeAttr i | loadName i => some i
  | instr => instr.count?

end Instr

/-- Each count of the code is within the limit. -/
def CountsFit (code : List Instr) : Prop :=
  ∀ instr ∈ code, ∀ count ∈ instr.count?, count < operandLimit

theorem countsFit_append {left right : List Instr}
    : CountsFit (left ++ right) ↔ CountsFit left ∧ CountsFit right := by
  simp only [CountsFit, List.mem_append, or_imp, forall_and]

theorem countsFit_cons {instr : Instr} {rest : List Instr}
    : CountsFit (instr :: rest)
      ↔ (∀ count ∈ instr.count?, count < operandLimit) ∧ CountsFit rest := by
  simp only [CountsFit, List.mem_cons, or_imp, forall_and, forall_eq]

theorem countsFit_nil : CountsFit [] :=
  nofun

/-- An instruction without a count may stand behind any code. -/
theorem CountsFit.concat {code : List Instr} {instr : Instr} (fits : CountsFit code)
    (noCount : instr.count? = none)
    : CountsFit (code ++ [instr]) := by
  refine countsFit_append.mpr ⟨fits, countsFit_cons.mpr ⟨?_, countsFit_nil⟩⟩
  rw [noCount]
  exact nofun

namespace Source

section Counts

variable (l : Layout) {params : List String} {isGenerator : Bool}

mutual

/-- The counts of a well-formed expression are within the limit, by recursion on the expression. -/
theorem Expr.countsFit (x : Expr) (formed : x.WellFormed params) : CountsFit (x.code l) := by
  cases x with
  | literal range value => exact countsFit_nil.concat rfl
  | var range name => exact countsFit_nil.concat rfl
  | attr range object field => exact (Expr.countsFit object formed).concat rfl
  | call range callee calleeRange args =>
      rw [Expr.code]
      rcases isLabel : labelOf? callee args with _ | name
      · have notLabel : (labelOf? callee args).isSome = false := by rw [isLabel]; rfl
        obtain ⟨allowed, argsFormed⟩ := formed.resolve_left (by simp [notLabel])
        refine countsFit_append.mpr ⟨Expr.countsFitAll args argsFormed, ?_⟩
        refine countsFit_cons.mpr ⟨?_, countsFit_nil⟩
        rcases allowed with ⟨rfl, few⟩ | ⟨known, -⟩
        · rintro _ ⟨⟩
          exact few
        · obtain ⟨function, isFunction⟩ := Option.isSome_iff_exists.mp known
          rw [callInstr, isFunction]
          exact nofun
      · exact countsFit_nil.concat rfl
  | tuple range items =>
      obtain ⟨few, itemsFormed⟩ := formed
      refine countsFit_append.mpr ⟨Expr.countsFitAll items itemsFormed, ?_⟩
      refine countsFit_cons.mpr ⟨?_, countsFit_nil⟩
      rintro _ ⟨⟩
      exact few
  | compare range op left right =>
      obtain ⟨leftFormed, rightFormed⟩ := formed
      exact countsFit_append.mpr
        ⟨Expr.countsFit left leftFormed, (Expr.countsFit right rightFormed).concat rfl⟩

theorem Expr.countsFitAll (xs : List Expr) (formed : Expr.WellFormedAll params xs)
    : CountsFit (Expr.codeAll l xs) := by
  cases xs with
  | nil => exact countsFit_nil
  | cons x rest =>
      obtain ⟨first, others⟩ := formed
      exact countsFit_append.mpr ⟨Expr.countsFit x first, Expr.countsFitAll rest others⟩

end

mutual

/-- The counts of a well-formed statement are within the limit, by recursion on the statement. -/
theorem Stmt.countsFit (start : Nat) (s : Stmt) (formed : s.WellFormed params isGenerator)
    : CountsFit (s.code l start) := by
  cases s with
  | assign range object field value =>
      obtain ⟨valueFormed, objectFormed⟩ := formed
      exact countsFit_append.mpr
        ⟨value.countsFit l valueFormed, (object.countsFit l objectFormed).concat rfl⟩
  | giveBack range value =>
      cases value with
      | none => exact (countsFit_nil.concat rfl).concat rfl
      | some value => exact (value.countsFit l formed).concat rfl
  | yield range value => exact (value.countsFit l formed.2).concat rfl
  | branch range test thenBody elseBody =>
      obtain ⟨testFormed, thenFormed, elseFormed⟩ := formed
      have testFits := test.countsFit l testFormed
      cases elseBody with
      | nil =>
          refine countsFit_append.mpr ⟨testFits, countsFit_cons.mpr ⟨nofun, ?_⟩⟩
          exact Stmt.countsFitAll _ thenBody thenFormed
      | cons first rest =>
          refine countsFit_append.mpr ⟨testFits, countsFit_cons.mpr ⟨nofun, ?_⟩⟩
          refine countsFit_append.mpr ⟨Stmt.countsFitAll _ thenBody thenFormed, ?_⟩
          exact countsFit_cons.mpr ⟨nofun, Stmt.countsFitAll _ (first :: rest) elseFormed⟩
  | discard range value => exact (value.countsFit l formed).concat rfl

theorem Stmt.countsFitAll (start : Nat) (ss : List Stmt)
    (formed : Stmt.WellFormedAll params isGenerator ss)
    : CountsFit (Stmt.codeAll l start ss) := by
  cases ss with
  | nil => exact countsFit_nil
  | cons s rest =>
      obtain ⟨first, others⟩ := formed
      exact countsFit_append.mpr
        ⟨Stmt.countsFit start s first, Stmt.countsFitAll _ rest others⟩

end

end Counts

/-- No operand of the program of an accepted definition reaches the limit: what refers to a table is
within the table, and the tables and the counts are within the limit.
-/
theorem Definition.Accepted.operand_lt {d : Definition} (accepted : d.Accepted) {instr : Instr}
    (member : instr ∈ d.program.code) {operand : Nat} (isOperand : instr.operand? = some operand)
    : operand < operandLimit := by
  obtain ⟨position, found⟩ := Array.mem_iff_getElem?.mp member
  have inRange := ((Program.sound_of_accepted accepted).steady position instr found).inRange
  have consts : d.program.consts.size ≤ operandLimit := accepted.consts_le
  have params : d.program.params.size ≤ operandLimit := accepted.params_le
  have names : d.program.names.size ≤ operandLimit := accepted.names_le
  have counts : CountsFit (d.bodyCode ++ [Instr.loadConst (d.layout.const .none), .giveBack]) :=
    countsFit_append.mpr ⟨Stmt.countsFitAll d.layout 0 d.body accepted.wellFormed,
      (countsFit_nil.concat rfl).concat rfl⟩
  have inCode : instr ∈ d.bodyCode ++ [Instr.loadConst (d.layout.const .none), .giveBack] := by
    simpa [program] using member
  cases instr with
  | loadConst i =>
      cases isOperand
      exact Nat.lt_of_lt_of_le inRange consts
  | loadParam i =>
      cases isOperand
      exact Nat.lt_of_lt_of_le inRange params
  | loadAttr i | storeAttr i | loadName i =>
      cases isOperand
      exact Nat.lt_of_lt_of_le inRange names
  | buildTuple count | buildString count =>
      cases isOperand
      exact counts _ inCode _ rfl
  | _ => cases isOperand

end Source

end RecordSynth
