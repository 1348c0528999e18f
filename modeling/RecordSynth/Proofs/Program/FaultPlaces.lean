import RecordSynth.Proofs.Program.FirstFault
import RecordSynth.Proofs.Program.Renaming

/-! Places have no part in what a fault is about. Definitions that differ in places only make the
same demands up to places, so that the first one that is not met is refused for the same cause.
-/

namespace RecordSynth

namespace Source

/-- The demand without its places. -/
def Demand.erased : Demand → Demand
  | param added _ => .param added default
  | var used _ => .var used default
  | call callee _ args _ => .call callee default (Expr.erasedAll args) default
  | name entered _ => .name entered default
  | const entered _ => .const entered default
  | operands count table _ => .operands count table default
  | generator _ => .generator default
  | target position _ => .target position default

-----------------------------------------------------------------------------------------
-- Demands of trees without places
-----------------------------------------------------------------------------------------

section Trees

mutual

/-- An expression without its places makes its demands without theirs, by recursion on the
expression.
-/
theorem Expr.demands_erased (x : Expr) : x.erased.demands = x.demands.map Demand.erased := by
  cases x with
  | literal range value => rfl
  | var range name => rfl
  | attr range object field =>
      simp [Expr.erased, Expr.demands, Demand.erased, Expr.demands_erased object]
  | call range callee calleeRange args =>
      have length : (Expr.erasedAll args).length = args.length := by
        rw [Expr.erasedAll_eq_map, List.length_map]
      simp only [Expr.erased, Expr.demands, labelOf?_erasedAll, length,
        Expr.demandsAll_erasedAll args, List.map_cons]
      refine congrArg (List.cons _) ?_
      split
      · rfl
      · split <;> simp [Demand.erased]
  | tuple range items =>
      have length : (Expr.erasedAll items).length = items.length := by
        rw [Expr.erasedAll_eq_map, List.length_map]
      simp [Expr.erased, Expr.demands, Demand.erased, length, Expr.demandsAll_erasedAll items]
  | compare range op left right =>
      simp [Expr.erased, Expr.demands, Expr.demands_erased left, Expr.demands_erased right]

theorem Expr.demandsAll_erasedAll (xs : List Expr)
    : Expr.demandsAll (Expr.erasedAll xs) = (Expr.demandsAll xs).map Demand.erased := by
  cases xs with
  | nil => rfl
  | cons x rest =>
      simp [Expr.erasedAll, Expr.demandsAll, Expr.demands_erased x, Expr.demandsAll_erasedAll rest]

end

mutual

/-- A statement without its places makes its demands without theirs, by recursion on the statement.
-/
theorem Stmt.demands_erased (l : Layout) (start : Nat) (s : Stmt)
    : s.erased.demands l start = (s.demands l start).map Demand.erased := by
  cases s with
  | assign range object field value =>
      simp [Stmt.erased, Stmt.demands, Demand.erased, Expr.demands_erased]
  | giveBack range value =>
      cases value with
      | none => rfl
      | some value => exact value.demands_erased
  | yield range value =>
      simp [Stmt.erased, Stmt.demands, Demand.erased, Expr.demands_erased]
  | branch range test thenBody elseBody =>
      obtain ⟨-, -, code, -⟩ := test.erased_spec
      obtain ⟨-, -, thenCode, -⟩ := Stmt.erasedAll_spec thenBody
      cases elseBody with
      | nil =>
          simp [Stmt.erased, Stmt.erasedAll, Stmt.demands, Demand.erased, code, thenCode,
            Expr.demands_erased, Stmt.demandsAll_erasedAll]
      | cons first rest =>
          obtain ⟨-, -, elseCode, -⟩ := Stmt.erasedAll_spec (first :: rest)
          have elseDemands := fun start => Stmt.demandsAll_erasedAll l start (first :: rest)
          rw [Stmt.erasedAll] at elseCode elseDemands
          simp [Stmt.erased, Stmt.erasedAll, Stmt.demands, Demand.erased, code, thenCode, elseCode,
            elseDemands, Expr.demands_erased, Stmt.demandsAll_erasedAll l _ thenBody]
  | discard range value => exact value.demands_erased

theorem Stmt.demandsAll_erasedAll (l : Layout) (start : Nat) (ss : List Stmt)
    : Stmt.demandsAll l start (Stmt.erasedAll ss)
      = (Stmt.demandsAll l start ss).map Demand.erased := by
  cases ss with
  | nil => rfl
  | cons s rest =>
      obtain ⟨-, -, code, -⟩ := s.erased_spec
      simp [Stmt.erasedAll, Stmt.demandsAll, code, Stmt.demands_erased l start s,
        Stmt.demandsAll_erasedAll l _ rest]

end

theorem Definition.demands_erased (d : Definition)
    : d.erased.demands = d.demands.map Demand.erased := by
  rw [Definition.demands, Definition.layout_erased]
  simp [Definition.erased, Definition.demands, Demand.erased, Param.erased,
    Stmt.demandsAll_erasedAll]

end Trees

-----------------------------------------------------------------------------------------
-- Causes of faults
-----------------------------------------------------------------------------------------

namespace Demand

variable {isGenerator : Bool}

/-- What does not look at places finds the same in the demands without theirs. -/
theorem filterMap_erased {α : Type} {f : Demand → Option α}
    (same : ∀ demand, f demand.erased = f demand) (demands : List Demand)
    : (demands.map erased).filterMap f = demands.filterMap f := by
  rw [List.filterMap_map]
  exact List.filterMap_congr fun demand _ => same demand

theorem params_erased (demands : List Demand) : params (demands.map erased) = params demands :=
  filterMap_erased (by rintro (_ | _) <;> rfl) demands

theorem nameTable_erased (demands : List Demand)
    : nameTable (demands.map erased) = nameTable demands :=
  congrArg (enterAll []) (filterMap_erased (by rintro (_ | _) <;> rfl) demands)

theorem constTable_erased (demands : List Demand)
    : constTable (demands.map erased) = constTable demands :=
  congrArg (enterAll []) (filterMap_erased (by rintro (_ | _) <;> rfl) demands)

/-- A demand is refused for the same cause without places. -/
theorem cause_fault?_erased (earlier : List Demand) (demand : Demand)
    : (demand.erased.fault? isGenerator (earlier.map erased)).map Fault.cause
      = (demand.fault? isGenerator earlier).map Fault.cause := by
  have length (args : List Expr) : (Expr.erasedAll args).length = args.length := by
    rw [Expr.erasedAll_eq_map, List.length_map]
  cases demand with
  | call callee calleeRange args range =>
      simp only [erased, fault?, callFault?, labelOf?_erasedAll, length]
      split
      · split <;> rfl
      split
      · rfl
      split
      · rfl
      · split <;> rfl
  | param added range =>
      simp only [erased, fault?, params_erased]
      split
      · rfl
      · split <;> rfl
  | _ =>
      simp only [erased, fault?, params_erased, nameTable_erased, constTable_erased]
      split <;> rfl

/-- Without places the first demand that is refused is refused for the same cause, by induction on
the demands.
-/
theorem cause_firstFault?_erased (earlier demands : List Demand)
    : (firstFault? isGenerator (earlier.map erased) (demands.map erased)).map Fault.cause
      = (firstFault? isGenerator earlier demands).map Fault.cause := by
  induction demands generalizing earlier with
  | nil => rfl
  | cons demand rest ih =>
      have later := ih (earlier ++ [demand])
      rw [List.map_append, List.map_singleton] at later
      rw [List.map_cons, firstFault?, firstFault?, Option.map_or, Option.map_or, later,
        cause_fault?_erased]

end Demand

end Source

namespace Program

open Source

/-- Compilation fails with the fault of the first demand that is not met. -/
theorem ofDefinition_eq_error_iff {d : Definition} {fault : Fault}
    : ofDefinition d = .error fault
      ↔ Demand.firstFault? d.isGenerator [] d.demands = some fault := by
  have reports := reports_ofDefinition d
  cases result : ofDefinition d with
  | ok p =>
      rw [result] at reports
      simp [reports.1]
  | error first =>
      rw [result] at reports
      have isFirst : Demand.firstFault? d.isGenerator [] d.demands = some first := reports
      simp [isFirst]

/-- Definitions that differ in places only compile to the same program, or fail for the same cause.
-/
theorem mapError_cause_ofDefinition {d d' : Definition} (same : d'.erased = d.erased)
    : (ofDefinition d').mapError Fault.cause = (ofDefinition d).mapError Fault.cause := by
  cases result : ofDefinition d with
  | ok p => rw [ofDefinition_of_erased_eq same result]
  | error fault =>
      have generator : d'.isGenerator = d.isGenerator := by
        simpa only [Definition.erased] using congrArg Definition.isGenerator same
      have cause : (Demand.firstFault? d'.isGenerator [] d'.demands).map Fault.cause
          = (Demand.firstFault? d.isGenerator [] d.demands).map Fault.cause := by
        rw [generator, ← Demand.cause_firstFault?_erased [] d'.demands, ← d'.demands_erased, same,
          d.demands_erased, Demand.cause_firstFault?_erased]
      rw [ofDefinition_eq_error_iff.mp result] at cause
      obtain ⟨fault', isFault', sameCause⟩ := Option.map_eq_some_iff.mp cause
      rw [ofDefinition_eq_error_iff.mpr isFault']
      exact congrArg Except.error sameCause

end Program

end RecordSynth
