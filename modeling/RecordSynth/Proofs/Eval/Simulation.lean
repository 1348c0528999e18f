import RecordSynth.Proofs.Eval.Direct
import RecordSynth.Proofs.Eval.MachineSteps
import RecordSynth.Proofs.Program.Compilation

/-! The machine does what direct evaluation does. The code of an expression takes as many steps as
it has instructions; the code of a statement leads to where the next statement begins, or to the
end of the call.
-/

namespace RecordSynth.Source

open Machine

/-- The machine finds under their positions the parameters' values, the names and the constants
that evaluation uses.
-/
structure Scope.Loads (scope : Scope) (a : Artifact) (args : Array Value) (l : Layout)
    (params names : List String) (consts : List Literal) : Prop where
  slot
    : ∀ name ∈ params,
        ∃ value, args[l.slot name]? = some value ∧ scope.bindings.lookup name = some value
  name : ∀ name ∈ names, a.program.names[l.name name]? = some name
  const : ∀ value ∈ consts, a.const? (l.const value) = some (constantOf scope.pool value)

theorem Scope.Loads.mono {scope : Scope} {a : Artifact} {args : Array Value} {l : Layout}
    {params names fewer : List String} {consts less : List Literal}
    (loads : scope.Loads a args l params names consts) (namesSubset : fewer ⊆ names)
    (constsSubset : less ⊆ consts)
    : scope.Loads a args l params fewer less :=
  ⟨loads.slot, fun name member => loads.name name (namesSubset member),
    fun value member => loads.const value (constsSubset member)⟩

-----------------------------------------------------------------------------------------
-- Operations on values
-----------------------------------------------------------------------------------------

/-- Values are identical exactly if they have one identity. -/
theorem isIdentical_eq (a b : Value)
    : a.isIdentical b = decide (identityOf a = identityOf b) := by
  cases a <;> cases b <;> simp [Value.isIdentical, identityOf, beq_eq_decide]

/-- The machine compares as direct evaluation does. -/
theorem compare_eq_holds (scope : Scope) (op : Comparator) (left right : Value)
    : Machine.compare scope.protocol op left right = scope.holds op left right := by
  cases op with
  | equal | notEqual => rfl
  | same => exact congrArg pure (isIdentical_eq left right)

theorem eq_name_of_ofName? {callee : String} {function : Builtin}
    (known : Builtin.ofName? callee = some function)
    : callee = function.name := by
  rw [Builtin.ofName?] at known
  have found := List.find?_some known
  exact (beq_iff_eq.mp found).symm

/-- A builtin function does on the machine what a call of its name means. -/
theorem callBuiltin_eq_apply (scope : Scope) (function : Builtin) (arg : Value)
    : callBuiltin scope.protocol function arg = scope.apply function.name [arg] := by
  cases function <;> rfl

/-- Joining texts behind a text puts it in front of the joined texts, by induction on the values.
-/
theorem joinTexts_eq (scope : Scope) (front : String) (values : List Value)
    : joinTexts scope.protocol front values
      = scope.joined values >>= fun text => return front ++ text := by
  induction values generalizing front with
  | nil => simp [joinTexts, Scope.joined]
  | cons value rest ih =>
      cases value with
      | str address part =>
          rw [joinTexts, ih]
          simp [Scope.joined, Scope.textOf, String.append_assoc]
      | _ =>
          simp [joinTexts, ih, Scope.joined, Scope.textOf, String.append_assoc]

-----------------------------------------------------------------------------------------
-- Calls in the tree and on the machine
-----------------------------------------------------------------------------------------

section Calls

variable {scope : Scope} {callee : String} {range calleeRange : ByteRange}

theorem evaluate_label {args : List Expr} {name : String}
    (label : labelOf? callee args = some name)
    : (Expr.call range callee calleeRange args).evaluate scope = Eval.newStr name := by
  obtain ⟨rfl, nameRange, rfl⟩ := labelOf?_cases label
  rw [Expr.evaluate]

theorem evaluate_call {args : List Expr} (noLabel : labelOf? callee args = none)
    : (Expr.call range callee calleeRange args).evaluate scope
      = Expr.evaluateAll scope args >>= scope.apply callee := by
  rw [Expr.evaluate]
  rintro range' name rfl rfl
  cases noLabel

/-- There are as many values as expressions, so what follows may rely on it. -/
theorem evaluateAll_bind_congr {β : Type} {xs : List Expr} {next next' : List Value → Eval β}
    (agree : ∀ values, values.length = xs.length → next values = next' values)
    : Expr.evaluateAll scope xs >>= next = Expr.evaluateAll scope xs >>= next' := by
  induction xs generalizing next next' with
  | nil => simpa [Expr.evaluateAll] using agree [] rfl
  | cons x rest ih =>
      simp only [Expr.evaluateAll, bind_assoc, pure_bind]
      refine bind_congr ?_
      intro value
      exact ih (fun values length => agree (value :: values) (by simp [length]))

end Calls

-----------------------------------------------------------------------------------------
-- Expressions take as many steps as they have instructions
-----------------------------------------------------------------------------------------

section Expressions

theorem length_concat {code : List Instr} {instr : Instr}
    : (code ++ [instr]).length = code.length + 1 := by
  rw [List.length_append, List.length_singleton]

variable {scope : Scope} {a : Artifact} {args : Array Value} {l : Layout} {params : List String}

/-- The last instruction of an allowed call applies the function to the operands. -/
theorem run_call {callee : String} {position fuel : Nat} {stack values yielded : List Value}
    (allowed : CallAllowed callee values.length)
    (found : a.program.code[position]? = some (callInstr callee values.length))
    : run scope.protocol a args ⟨position, values.reverse ++ stack, yielded⟩ (fuel + 1)
      = scope.apply callee values >>= fun value =>
        run scope.protocol a args ⟨position + 1, value :: stack, yielded⟩ fuel := by
  rcases allowed with ⟨rfl, _⟩ | ⟨known, one⟩
  · have unknown : Builtin.ofName? "concat" = none := by
      decide
    rw [callInstr, unknown] at found
    rw [run_buildString found, joinTexts_eq]
    simp [Scope.apply]
  · obtain ⟨function, isFunction⟩ := Option.isSome_iff_exists.mp known
    obtain ⟨arg, rfl⟩ := List.length_eq_one_iff.mp one
    obtain rfl := eq_name_of_ofName? isFunction
    rw [callInstr, isFunction] at found
    rw [← callBuiltin_eq_apply]
    exact run_callBuiltin found

mutual

/-- The code of an expression leaves its value on the stack, by recursion on the expression. -/
theorem Expr.run_code {start fuel : Nat} {stack yielded : List Value} (x : Expr)
    (formed : x.WellFormed params) (loads : scope.Loads a args l params x.names x.literals)
    (placed : CodeAt a.program start (x.code l))
    : run scope.protocol a args ⟨start, stack, yielded⟩ (fuel + (x.code l).length)
      = x.evaluate scope >>= fun value =>
        run scope.protocol a args ⟨start + (x.code l).length, value :: stack, yielded⟩ fuel := by
  cases x with
  | literal range value =>
      have isConst := loads.const value List.mem_cons_self
      rw [Expr.evaluate, pure_bind]
      exact run_loadConst (codeAt_singleton.mp placed) isConst
  | var range name =>
      obtain ⟨value, isArg, isValue⟩ := loads.slot name formed
      rw [Expr.evaluate, Scope.valueOf?, isValue, pure_bind]
      exact run_loadParam (codeAt_singleton.mp placed) isArg
  | attr range object field =>
      rw [Expr.code] at placed ⊢
      obtain ⟨objectPlaced, access⟩ := codeAt_append.mp placed
      have isName := loads.name field (by simp [Expr.names])
      have objectLoads : scope.Loads a args l params object.names object.literals :=
        loads.mono (by simp [Expr.names]) (by simp [Expr.literals])
      rw [length_concat, ← Nat.add_assoc, Nat.add_right_comm,
        Expr.run_code object formed objectLoads objectPlaced, Expr.evaluate, bind_assoc]
      refine bind_congr ?_
      intro value
      exact run_loadAttr (codeAt_singleton.mp access) isName
  | call range callee calleeRange parts =>
      cases label : labelOf? callee parts with
      | some name =>
          have isName := loads.name name (by simp [Expr.names, label])
          simp only [Expr.code, label] at placed ⊢
          rw [evaluate_label label]
          exact run_loadName (codeAt_singleton.mp placed) isName
      | none =>
          obtain ⟨allowed, partsFormed⟩ : CallAllowed callee parts.length
              ∧ Expr.WellFormedAll params parts := by
            simpa [Expr.WellFormed, label] using formed
          have partsLoads
              : scope.Loads a args l params (Expr.namesAll parts) (Expr.literalsAll parts) :=
            loads.mono (by simp [Expr.names]) (by simp [Expr.literals])
          simp only [Expr.code, label] at placed ⊢
          obtain ⟨partsPlaced, call⟩ := codeAt_append.mp placed
          rw [length_concat, ← Nat.add_assoc, Nat.add_right_comm,
            Expr.run_codeAll parts partsFormed partsLoads partsPlaced, evaluate_call label,
            bind_assoc]
          refine evaluateAll_bind_congr ?_
          intro values length
          exact run_call (length ▸ allowed) (length ▸ codeAt_singleton.mp call)
  | tuple range items =>
      rw [Expr.code] at placed ⊢
      obtain ⟨itemsPlaced, build⟩ := codeAt_append.mp placed
      have itemsLoads
          : scope.Loads a args l params (Expr.namesAll items) (Expr.literalsAll items) :=
        loads.mono (by simp [Expr.names]) (by simp [Expr.literals])
      rw [length_concat, ← Nat.add_assoc, Nat.add_right_comm,
        Expr.run_codeAll items formed.2 itemsLoads itemsPlaced, Expr.evaluate, bind_assoc]
      refine evaluateAll_bind_congr ?_
      intro values length
      exact run_buildTuple (length ▸ codeAt_singleton.mp build)
  | compare range op left right =>
      rw [Expr.code] at placed ⊢
      obtain ⟨leftPlaced, behind⟩ := codeAt_append.mp placed
      obtain ⟨rightPlaced, comparison⟩ := codeAt_append.mp behind
      have leftLoads : scope.Loads a args l params left.names left.literals :=
        loads.mono (by simp [Expr.names]) (by simp [Expr.literals])
      have rightLoads : scope.Loads a args l params right.names right.literals :=
        loads.mono (by simp [Expr.names]) (by simp [Expr.literals])
      -- The fuel is split as the code is: the left operand's, the right one's, one step.
      have steps : fuel + (left.code l ++ (right.code l ++ [Instr.compare op])).length
          = fuel + 1 + (right.code l).length + (left.code l).length := by
        simp only [List.length_append, List.length_singleton]
        omega
      have behind : start + (left.code l ++ (right.code l ++ [Instr.compare op])).length
          = start + (left.code l).length + (right.code l).length + 1 := by
        simp only [List.length_append, List.length_singleton]
        omega
      rw [steps, behind, Expr.run_code left formed.1 leftLoads leftPlaced, Expr.evaluate,
        bind_assoc]
      refine bind_congr ?_
      intro leftValue
      rw [Expr.run_code right formed.2 rightLoads rightPlaced, bind_assoc]
      refine bind_congr ?_
      intro rightValue
      simpa [← compare_eq_holds] using run_compare (codeAt_singleton.mp comparison)

/-- The code of expressions leaves their values on the stack, the last one on top. -/
theorem Expr.run_codeAll {start fuel : Nat} {stack yielded : List Value} (xs : List Expr)
    (formed : Expr.WellFormedAll params xs)
    (loads : scope.Loads a args l params (Expr.namesAll xs) (Expr.literalsAll xs))
    (placed : CodeAt a.program start (Expr.codeAll l xs))
    : run scope.protocol a args ⟨start, stack, yielded⟩ (fuel + (Expr.codeAll l xs).length)
      = Expr.evaluateAll scope xs >>= fun values =>
        run scope.protocol a args
          ⟨start + (Expr.codeAll l xs).length, values.reverse ++ stack, yielded⟩ fuel := by
  cases xs with
  | nil => simp [Expr.codeAll, Expr.evaluateAll]
  | cons x rest =>
      rw [Expr.codeAll] at placed ⊢
      obtain ⟨headPlaced, restPlaced⟩ := codeAt_append.mp placed
      have headLoads : scope.Loads a args l params x.names x.literals :=
        loads.mono (by simp [Expr.namesAll]) (by simp [Expr.literalsAll])
      have restLoads
          : scope.Loads a args l params (Expr.namesAll rest) (Expr.literalsAll rest) :=
        loads.mono (by simp [Expr.namesAll]) (by simp [Expr.literalsAll])
      rw [List.length_append, Nat.add_comm (x.code l).length, ← Nat.add_assoc,
        Expr.run_code x formed.1 headLoads headPlaced, Expr.evaluateAll, bind_assoc]
      refine bind_congr ?_
      intro value
      rw [Expr.run_codeAll rest formed.2 restLoads restPlaced, bind_assoc]
      refine bind_congr ?_
      intro values
      simp [Nat.add_assoc, Nat.add_comm (x.code l).length]

end

/-- A run over the code of an expression evaluates it and goes on behind it. -/
theorem Expr.runs {start : Nat} {stack yielded : List Value} {next : Value → Eval Value}
    (x : Expr) (formed : x.WellFormed params)
    (loads : scope.Loads a args l params x.names x.literals)
    (placed : CodeAt a.program start (x.code l))
    (rest : ∀ value, Runs scope.protocol a args
      ⟨start + (x.code l).length, value :: stack, yielded⟩ (next value))
    : Runs scope.protocol a args ⟨start, stack, yielded⟩ (x.evaluate scope >>= next) := by
  intro fuel enough
  have length := placed.length_le enough
  obtain ⟨left, rfl⟩ := Nat.exists_eq_add_of_le' length
  rw [x.run_code formed loads placed]
  refine bind_congr ?_
  intro value
  refine rest value left ?_
  dsimp only at enough ⊢
  omega

end Expressions

-----------------------------------------------------------------------------------------
-- Statements may skip code, so their runs are about any fuel that suffices
-----------------------------------------------------------------------------------------

/-- Goes on with `next` unless the call has ended. -/
def Outcome.andThen (next : List Value → Eval Value) : Outcome → Eval Value
  | .next yielded => next yielded
  | .back value => return value

section Statements

variable {scope : Scope} {a : Artifact} {args : Array Value} {l : Layout} {params : List String}

theorem executeAll_cons_andThen (scope : Scope) (yielded : List Value) (s : Stmt)
    (ss : List Stmt) (next : List Value → Eval Value)
    : Stmt.executeAll scope yielded (s :: ss) >>= Outcome.andThen next
      = s.execute scope yielded >>= Outcome.andThen
          (fun yielded => Stmt.executeAll scope yielded ss >>= Outcome.andThen next) := by
  rw [Stmt.executeAll, bind_assoc]
  refine bind_congr ?_
  intro outcome
  cases outcome with
  | next yielded => rfl
  | back value => rfl

theorem add_length_cons (start : Nat) (front : List Instr) (instr : Instr) (back : List Instr)
    : start + (front ++ instr :: back).length = start + front.length + 1 + back.length := by
  rw [List.length_append, List.length_cons]
  omega

theorem ite_bind {α β : Type} {test : Prop} [Decidable test] (x y : Eval α) (next : α → Eval β)
    : (if test then x else y) >>= next = if test then x >>= next else y >>= next := by
  split
  · rfl
  · rfl

/-- A call ends with the value on the stack, or with what has been yielded. -/
theorem runs_giveBack {position : Nat} {value : Value} {yielded : List Value}
    (generator : a.program.isGenerator = scope.isGenerator)
    (found : a.program.code[position]? = some .giveBack)
    : Runs scope.protocol a args ⟨position, [value], yielded.reverse⟩
        (scope.finish yielded value) := by
  have ends : Runs scope.protocol a args ⟨position, [value], yielded.reverse⟩
      (if a.program.isGenerator then Eval.newTuple yielded.reverse.reverse else return value) :=
    Runs.giveBack found
  rwa [generator, List.reverse_reverse] at ends

mutual

/-- The code of a statement executes it and leads to the next statement unless the call has
ended, by recursion on the statement.
-/
theorem Stmt.runs {start : Nat} {yielded : List Value} {isGenerator : Bool}
    {next : List Value → Eval Value} (s : Stmt)
    (generator : a.program.isGenerator = scope.isGenerator)
    (formed : s.WellFormed params isGenerator)
    (loads : scope.Loads a args l params s.names s.literals)
    (placed : CodeAt a.program start (s.code l start))
    (rest : ∀ yielded, Runs scope.protocol a args
      ⟨start + (s.code l start).length, [], yielded.reverse⟩ (next yielded))
    : Runs scope.protocol a args ⟨start, [], yielded.reverse⟩
        (s.execute scope yielded >>= Outcome.andThen next) := by
  cases s with
  | assign range object field value =>
      rw [Stmt.code] at placed rest
      obtain ⟨valuePlaced, behind⟩ := codeAt_append.mp placed
      obtain ⟨objectPlaced, store⟩ := codeAt_append.mp behind
      have valueLoads : scope.Loads a args l params value.names value.literals :=
        loads.mono (by simp [Stmt.names]) (by simp [Stmt.literals])
      have objectLoads : scope.Loads a args l params object.names object.literals :=
        loads.mono (by simp [Stmt.names]) (by simp [Stmt.literals])
      have isName := loads.name field (by simp [Stmt.names])
      rw [Stmt.execute, bind_assoc]
      refine value.runs formed.1 valueLoads valuePlaced ?_
      intro stored
      rw [bind_assoc]
      refine object.runs formed.2 objectLoads objectPlaced ?_
      intro receiver
      rw [bind_assoc]
      refine Runs.storeAttr (codeAt_singleton.mp store) isName ?_
      simpa [Nat.add_assoc, Outcome.andThen] using rest yielded
  | giveBack range value =>
      cases value with
      | none =>
          rw [Stmt.code] at placed
          obtain ⟨load, ends⟩ := codeAt_cons.mp placed
          have isConst := loads.const .none (by simp [Stmt.literals])
          have finished : Runs scope.protocol a args ⟨start + 1, [.none], yielded.reverse⟩
              (scope.finish yielded .none) :=
            runs_giveBack generator (codeAt_singleton.mp ends)
          simpa [Stmt.execute, Outcome.andThen] using Runs.loadConst load isConst finished
      | some value =>
          rw [Stmt.code] at placed
          obtain ⟨valuePlaced, ends⟩ := codeAt_append.mp placed
          have valueLoads : scope.Loads a args l params value.names value.literals := loads
          rw [Stmt.execute, bind_assoc]
          refine value.runs formed valueLoads valuePlaced ?_
          intro result
          have finished : Runs scope.protocol a args
              ⟨start + (value.code l).length, [result], yielded.reverse⟩
              (scope.finish yielded result) :=
            runs_giveBack generator (codeAt_singleton.mp ends)
          simpa [Outcome.andThen] using finished
  | yield range value =>
      rw [Stmt.code] at placed rest
      obtain ⟨valuePlaced, yields⟩ := codeAt_append.mp placed
      have valueLoads : scope.Loads a args l params value.names value.literals := loads
      rw [Stmt.execute, bind_assoc]
      refine value.runs formed.2 valueLoads valuePlaced ?_
      intro result
      refine Runs.yield (codeAt_singleton.mp yields) ?_
      simpa [Nat.add_assoc, Outcome.andThen] using rest (yielded ++ [result])
  | branch range test thenBody elseBody =>
      have testLoads : scope.Loads a args l params test.names test.literals :=
        loads.mono (by simp [Stmt.names]) (by simp [Stmt.literals])
      have thenLoads
          : scope.Loads a args l params (Stmt.namesAll thenBody) (Stmt.literalsAll thenBody) :=
        loads.mono (by simp [Stmt.names]) (by simp [Stmt.literals])
      obtain ⟨testFormed, thenFormed, elseFormed⟩ := formed
      rw [Stmt.execute, bind_assoc]
      cases elseBody with
      | nil =>
          rw [Stmt.code] at placed rest
          obtain ⟨testPlaced, behind⟩ := codeAt_append.mp placed
          obtain ⟨skip, thenPlaced⟩ := codeAt_cons.mp behind
          simp only [add_length_cons] at rest
          refine test.runs testFormed testLoads testPlaced ?_
          intro value
          rw [ite_bind]
          refine Runs.jumpIfFalse skip (by omega) ?_ ?_
          · exact Stmt.runsAll thenBody generator thenFormed thenLoads thenPlaced rest
          -- Without an alternative, the jump leads to the next statement.
          · rw [Stmt.executeAll, pure_bind]
            exact rest yielded
      | cons first others =>
          have elseLoads : scope.Loads a args l params (Stmt.namesAll (first :: others))
              (Stmt.literalsAll (first :: others)) :=
            loads.mono (by simp [Stmt.names]) (by simp [Stmt.literals])
          rw [Stmt.code] at placed rest
          obtain ⟨testPlaced, behind⟩ := codeAt_append.mp placed
          obtain ⟨skip, bodies⟩ := codeAt_cons.mp behind
          obtain ⟨thenPlaced, behindThen⟩ := codeAt_append.mp bodies
          obtain ⟨leave, elsePlaced⟩ := codeAt_cons.mp behindThen
          simp only [add_length_cons] at rest
          refine test.runs testFormed testLoads testPlaced ?_
          intro value
          rw [ite_bind]
          refine Runs.jumpIfFalse skip (by omega) ?_ ?_
          -- The body is followed by the jump over the alternative.
          · refine Stmt.runsAll thenBody generator thenFormed thenLoads thenPlaced ?_
            intro yielded
            exact Runs.jump leave (by omega) (rest yielded)
          · exact Stmt.runsAll (first :: others) generator elseFormed elseLoads elsePlaced rest
  | discard range value =>
      rw [Stmt.code] at placed rest
      obtain ⟨valuePlaced, pops⟩ := codeAt_append.mp placed
      have valueLoads : scope.Loads a args l params value.names value.literals := loads
      rw [Stmt.execute, bind_assoc]
      refine value.runs formed valueLoads valuePlaced ?_
      intro result
      refine Runs.pop (codeAt_singleton.mp pops) ?_
      simpa [Nat.add_assoc, Outcome.andThen] using rest yielded

/-- The code of statements executes them in order. -/
theorem Stmt.runsAll {start : Nat} {yielded : List Value} {isGenerator : Bool}
    {next : List Value → Eval Value} (ss : List Stmt)
    (generator : a.program.isGenerator = scope.isGenerator)
    (formed : Stmt.WellFormedAll params isGenerator ss)
    (loads : scope.Loads a args l params (Stmt.namesAll ss) (Stmt.literalsAll ss))
    (placed : CodeAt a.program start (Stmt.codeAll l start ss))
    (rest : ∀ yielded, Runs scope.protocol a args
      ⟨start + (Stmt.codeAll l start ss).length, [], yielded.reverse⟩ (next yielded))
    : Runs scope.protocol a args ⟨start, [], yielded.reverse⟩
        (Stmt.executeAll scope yielded ss >>= Outcome.andThen next) := by
  cases ss with
  | nil => simpa [Stmt.executeAll, Stmt.codeAll, Outcome.andThen] using rest yielded
  | cons s ss =>
      rw [Stmt.codeAll] at placed rest
      obtain ⟨headPlaced, restPlaced⟩ := codeAt_append.mp placed
      have headLoads : scope.Loads a args l params s.names s.literals :=
        loads.mono (by simp [Stmt.namesAll]) (by simp [Stmt.literalsAll])
      have restLoads
          : scope.Loads a args l params (Stmt.namesAll ss) (Stmt.literalsAll ss) :=
        loads.mono (by simp [Stmt.namesAll]) (by simp [Stmt.literalsAll])
      rw [executeAll_cons_andThen]
      refine Stmt.runs s generator formed.1 headLoads headPlaced ?_
      intro yielded
      refine Stmt.runsAll ss generator formed.2 restLoads restPlaced ?_
      intro yielded
      simpa [Nat.add_assoc] using rest yielded

end

end Statements

end RecordSynth.Source
