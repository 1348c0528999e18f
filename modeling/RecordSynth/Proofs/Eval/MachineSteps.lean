import Mathlib.Data.List.Basic
import RecordSynth.Eval.Machine

/-! Runs of the machine, one instruction at a time: with operands where an instruction expects
them, a run carries it out and goes on behind it.
-/

namespace RecordSynth

/-- The instructions stand in the program's code from position `start` on. -/
def CodeAt (program : Program) (start : Nat) (code : List Instr) : Prop :=
  ∀ i, i < code.length → program.code[start + i]? = code[i]?

-----------------------------------------------------------------------------------------
-- Code in its place
-----------------------------------------------------------------------------------------

section Placing

variable {program : Program} {start : Nat}

theorem codeAt_append {left right : List Instr}
    : CodeAt program start (left ++ right)
      ↔ CodeAt program start left ∧ CodeAt program (start + left.length) right := by
  constructor
  · intro placed
    refine ⟨?_, ?_⟩
    · intro i inLeft
      rw [placed i (by rw [List.length_append]; omega), List.getElem?_append_left inLeft]
    · intro i inRight
      rw [Nat.add_assoc, placed (left.length + i) (by rw [List.length_append]; omega),
        List.getElem?_append_right (by omega), Nat.add_sub_cancel_left]
  · rintro ⟨leftPlaced, rightPlaced⟩ i inBoth
    rw [List.length_append] at inBoth
    by_cases inLeft : i < left.length
    · rw [leftPlaced i inLeft, List.getElem?_append_left inLeft]
    · have behind := rightPlaced (i - left.length) (by omega)
      rw [List.getElem?_append_right (by omega), ← behind]
      congr 1
      omega

theorem codeAt_singleton {instr : Instr}
    : CodeAt program start [instr] ↔ program.code[start]? = some instr := by
  simp [CodeAt]

theorem codeAt_cons {instr : Instr} {rest : List Instr}
    : CodeAt program start (instr :: rest)
      ↔ program.code[start]? = some instr ∧ CodeAt program (start + 1) rest := by
  rw [← List.singleton_append, codeAt_append, codeAt_singleton, List.length_singleton]

/-- Fuel that suffices for the rest of the program suffices for the code. -/
theorem CodeAt.length_le {code : List Instr} (placed : CodeAt program start code) {fuel : Nat}
    (enough : program.code.size < start + fuel)
    : code.length ≤ fuel := by
  by_contra tooLong
  have last := placed fuel (by omega)
  rw [Array.getElem?_eq_none (by omega), List.getElem?_eq_getElem (by omega)] at last
  cases last

end Placing

-----------------------------------------------------------------------------------------
-- One instruction at a time
-----------------------------------------------------------------------------------------

namespace Machine

variable {p : Protocol} {a : Artifact} {args : Array Value}
variable {position fuel : Nat} {stack yielded : List Value}

theorem run_succ {instr : Instr} (found : a.program.code[position]? = some instr)
    : run p a args ⟨position, stack, yielded⟩ (fuel + 1)
      = step p a args ⟨position + 1, stack, yielded⟩ instr >>= fun
        | .running frame => run p a args frame fuel
        | .done value => return value := by
  rw [run]
  dsimp only
  split
  · next absent =>
    rw [found] at absent
    cases absent
  · next other isOther =>
    obtain rfl := Option.some.inj (found.symm.trans isOther)
    rfl

theorem run_loadConst {i : Nat} {value : Value}
    (found : a.program.code[position]? = some (.loadConst i)) (isConst : a.const? i = some value)
    : run p a args ⟨position, stack, yielded⟩ (fuel + 1)
      = run p a args ⟨position + 1, value :: stack, yielded⟩ fuel := by
  rw [run_succ found, step, isConst]
  rfl

theorem run_loadParam {i : Nat} {value : Value}
    (found : a.program.code[position]? = some (.loadParam i)) (isArg : args[i]? = some value)
    : run p a args ⟨position, stack, yielded⟩ (fuel + 1)
      = run p a args ⟨position + 1, value :: stack, yielded⟩ fuel := by
  rw [run_succ found, step, isArg]
  rfl

theorem run_loadAttr {i : Nat} {name : String} {object : Value}
    (found : a.program.code[position]? = some (.loadAttr i))
    (isName : a.program.names[i]? = some name)
    : run p a args ⟨position, object :: stack, yielded⟩ (fuel + 1)
      = Eval.getAttr object name >>= fun value =>
        run p a args ⟨position + 1, value :: stack, yielded⟩ fuel := by
  rw [run_succ found, step, nameAt, isName]
  simp [pop]

theorem run_storeAttr {i : Nat} {name : String} {object value : Value}
    (found : a.program.code[position]? = some (.storeAttr i))
    (isName : a.program.names[i]? = some name)
    : run p a args ⟨position, object :: value :: stack, yielded⟩ (fuel + 1)
      = Eval.setAttr object name value >>= fun _ =>
        run p a args ⟨position + 1, stack, yielded⟩ fuel := by
  rw [run_succ found, step, nameAt, isName]
  simp [pop]

theorem run_loadName {i : Nat} {name : String}
    (found : a.program.code[position]? = some (.loadName i))
    (isName : a.program.names[i]? = some name)
    : run p a args ⟨position, stack, yielded⟩ (fuel + 1)
      = Eval.newStr name >>= fun value =>
        run p a args ⟨position + 1, value :: stack, yielded⟩ fuel := by
  rw [run_succ found, step, nameAt, isName]
  simp

/-- The last operands are taken in the order in which they came. -/
theorem popMany_reverse (program : Program) (values stack : List Value)
    : popMany program values.length (values.reverse ++ stack) = return (values, stack) := by
  have taken : (values.reverse ++ stack).take values.length = values.reverse := by
    rw [← List.length_reverse, List.take_left]
  have left : (values.reverse ++ stack).drop values.length = stack := by
    rw [← List.length_reverse, List.drop_left]
  simp [popMany, taken, left]

theorem run_buildTuple {items : List Value}
    (found : a.program.code[position]? = some (.buildTuple items.length))
    : run p a args ⟨position, items.reverse ++ stack, yielded⟩ (fuel + 1)
      = Eval.newTuple items >>= fun value =>
        run p a args ⟨position + 1, value :: stack, yielded⟩ fuel := by
  rw [run_succ found, step, popMany_reverse]
  simp

theorem run_buildString {parts : List Value}
    (found : a.program.code[position]? = some (.buildString parts.length))
    : run p a args ⟨position, parts.reverse ++ stack, yielded⟩ (fuel + 1)
      = joinTexts p "" parts >>= fun text => Eval.newStr text >>= fun value =>
        run p a args ⟨position + 1, value :: stack, yielded⟩ fuel := by
  rw [run_succ found, step, popMany_reverse]
  simp

theorem run_callBuiltin {function : Builtin} {arg : Value}
    (found : a.program.code[position]? = some (.callBuiltin function))
    : run p a args ⟨position, arg :: stack, yielded⟩ (fuel + 1)
      = callBuiltin p function arg >>= fun value =>
        run p a args ⟨position + 1, value :: stack, yielded⟩ fuel := by
  rw [run_succ found, step]
  simp [pop]

theorem run_compare {op : Comparator} {left right : Value}
    (found : a.program.code[position]? = some (.compare op))
    : run p a args ⟨position, right :: left :: stack, yielded⟩ (fuel + 1)
      = compare p op left right >>= fun result =>
        run p a args ⟨position + 1, .bool result :: stack, yielded⟩ fuel := by
  rw [run_succ found, step]
  simp [pop]

theorem run_jumpIfFalse {target : Nat} {test : Value}
    (found : a.program.code[position]? = some (.jumpIfFalse target))
    : run p a args ⟨position, test :: stack, yielded⟩ (fuel + 1)
      = run p a args ⟨if test.isTruthy then position + 1 else target, stack, yielded⟩ fuel := by
  rw [run_succ found, step]
  simp [pop]

theorem run_jump {target : Nat} (found : a.program.code[position]? = some (.jump target))
    : run p a args ⟨position, stack, yielded⟩ (fuel + 1)
      = run p a args ⟨target, stack, yielded⟩ fuel := by
  rw [run_succ found, step]
  simp

theorem run_pop {value : Value} (found : a.program.code[position]? = some .pop)
    : run p a args ⟨position, value :: stack, yielded⟩ (fuel + 1)
      = run p a args ⟨position + 1, stack, yielded⟩ fuel := by
  rw [run_succ found, step]
  simp [pop]

theorem run_yield {value : Value} (found : a.program.code[position]? = some .yield)
    : run p a args ⟨position, value :: stack, yielded⟩ (fuel + 1)
      = run p a args ⟨position + 1, stack, value :: yielded⟩ fuel := by
  rw [run_succ found, step]
  simp [pop]

theorem run_giveBack {value : Value} (found : a.program.code[position]? = some .giveBack)
    : run p a args ⟨position, value :: stack, yielded⟩ (fuel + 1)
      = if a.program.isGenerator then Eval.newTuple yielded.reverse else return value := by
  rw [run_succ found, step]
  cases a.program.isGenerator <;> simp [pop]

-----------------------------------------------------------------------------------------
-- Runs whose fuel suffices for the rest of the program
-----------------------------------------------------------------------------------------

/-- With fuel that suffices for the rest of the program, a run from the frame has the outcome. -/
def Runs (p : Protocol) (a : Artifact) (args : Array Value) (frame : Frame)
    (outcome : Eval Value) : Prop :=
  ∀ fuel, a.program.code.size < frame.position + fuel → run p a args frame fuel = outcome

namespace Runs

variable {outcome : Eval Value}

/-- A run that carries out the instruction at its position uses up some fuel. -/
theorem of_step {instr : Instr} (found : a.program.code[position]? = some instr)
    (carried : ∀ fuel, a.program.code.size < position + 1 + fuel →
      run p a args ⟨position, stack, yielded⟩ (fuel + 1) = outcome)
    : Runs p a args ⟨position, stack, yielded⟩ outcome := by
  intro fuel enough
  have inCode := (Array.getElem?_eq_some_iff.mp found).1
  cases fuel with
  | zero =>
      dsimp only at enough
      omega
  | succ fuel =>
      refine carried fuel ?_
      dsimp only at enough
      omega

theorem loadConst {i : Nat} {value : Value}
    (found : a.program.code[position]? = some (.loadConst i)) (isConst : a.const? i = some value)
    (rest : Runs p a args ⟨position + 1, value :: stack, yielded⟩ outcome)
    : Runs p a args ⟨position, stack, yielded⟩ outcome := by
  refine of_step found ?_
  intro fuel enough
  rw [run_loadConst found isConst]
  exact rest fuel enough

theorem loadParam {i : Nat} {value : Value}
    (found : a.program.code[position]? = some (.loadParam i)) (isArg : args[i]? = some value)
    (rest : Runs p a args ⟨position + 1, value :: stack, yielded⟩ outcome)
    : Runs p a args ⟨position, stack, yielded⟩ outcome := by
  refine of_step found ?_
  intro fuel enough
  rw [run_loadParam found isArg]
  exact rest fuel enough

theorem storeAttr {i : Nat} {name : String} {object value : Value}
    (found : a.program.code[position]? = some (.storeAttr i))
    (isName : a.program.names[i]? = some name)
    (rest : Runs p a args ⟨position + 1, stack, yielded⟩ outcome)
    : Runs p a args ⟨position, object :: value :: stack, yielded⟩
        (Eval.setAttr object name value >>= fun _ => outcome) := by
  refine of_step found ?_
  intro fuel enough
  rw [run_storeAttr found isName]
  exact bind_congr (fun _ => rest fuel enough)

theorem pop {value : Value} (found : a.program.code[position]? = some .pop)
    (rest : Runs p a args ⟨position + 1, stack, yielded⟩ outcome)
    : Runs p a args ⟨position, value :: stack, yielded⟩ outcome := by
  refine of_step found ?_
  intro fuel enough
  rw [run_pop found]
  exact rest fuel enough

theorem yield {value : Value} (found : a.program.code[position]? = some .yield)
    (rest : Runs p a args ⟨position + 1, stack, value :: yielded⟩ outcome)
    : Runs p a args ⟨position, value :: stack, yielded⟩ outcome := by
  refine of_step found ?_
  intro fuel enough
  rw [run_yield found]
  exact rest fuel enough

theorem giveBack {value : Value} (found : a.program.code[position]? = some .giveBack)
    : Runs p a args ⟨position, value :: stack, yielded⟩
        (if a.program.isGenerator then Eval.newTuple yielded.reverse else return value) :=
  of_step found (fun _ _ => run_giveBack found)

/-- A jump forward needs no more fuel than the instructions that it passes over. -/
theorem jump {target : Nat} (found : a.program.code[position]? = some (.jump target))
    (forward : position < target)
    (rest : Runs p a args ⟨target, stack, yielded⟩ outcome)
    : Runs p a args ⟨position, stack, yielded⟩ outcome := by
  refine of_step found ?_
  intro fuel enough
  rw [run_jump found]
  refine rest fuel ?_
  dsimp only
  omega

theorem jumpIfFalse {target : Nat} {test : Value} {otherwise : Eval Value}
    (found : a.program.code[position]? = some (.jumpIfFalse target))
    (forward : position < target)
    (rest : Runs p a args ⟨position + 1, stack, yielded⟩ outcome)
    (behind : Runs p a args ⟨target, stack, yielded⟩ otherwise)
    : Runs p a args ⟨position, test :: stack, yielded⟩
        (if test.isTruthy then outcome else otherwise) := by
  refine of_step found ?_
  intro fuel enough
  rw [run_jumpIfFalse found]
  cases test.isTruthy with
  | true => exact rest fuel enough
  | false =>
      refine behind fuel ?_
      dsimp only
      omega

end Runs

end Machine

end RecordSynth
