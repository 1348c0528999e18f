import RecordSynth.Eval.Level
import RecordSynth.Proofs.Eval.Outcome
import RecordSynth.Proofs.Program.Soundness
import RecordSynth.Proofs.Synthesis.Publication

/-! Compiled programs do not go wrong. Whatever a program is called with, each instruction that a
run comes to is there, finds its operands and refers to entries that there are. So a call stops
early only for an argument or attribute that is missing, or because an operation that it re-enters
stops. Replacing names, by binding or otherwise, changes nothing about that.
-/

namespace RecordSynth

-----------------------------------------------------------------------------------------
-- What evaluations give, and how they stop
-----------------------------------------------------------------------------------------

namespace Eval

variable {α β : Type} {Q : α → Prop} {S : Halt → Prop}

/-- On every heap, the evaluation gives a value of which `Q` holds or stops in one of the ways `S`.
-/
def Ensures (x : Eval α) (Q : α → Prop) (S : Halt → Prop) : Prop :=
  ∀ h, match (x.outcome h).1 with
    | .ok a => Q a
    | .error halt => S halt

theorem ensures_pure {a : α} (holds : Q a) : (pure a : Eval α).Ensures Q S :=
  fun _ => holds

theorem ensures_fail {e : EvalError} (allowed : S (.error e)) : (fail e : Eval α).Ensures Q S :=
  fun _ => allowed

theorem ensures_ask {f : Heap → α} (holds : ∀ h, Q (f h)) : (ask f).Ensures Q S :=
  holds

theorem Ensures.bind {R : β → Prop} {x : Eval α} {f : α → Eval β} (first : x.Ensures Q S)
    (second : ∀ a, Q a → (f a).Ensures R S)
    : (x >>= f).Ensures R S := by
  intro h
  have given := first h
  rw [outcome_bind]
  rcases isResult : x.outcome h with ⟨halt | a, h'⟩
  · rw [isResult] at given
    exact given
  · rw [isResult] at given
    exact second a given h'

end Eval

namespace Machine

/-- How calls of compiled programs stop early: for an argument or an attribute that is missing, or
for one that cannot be set, or in the way in which an operation that they re-enter stops.
-/
inductive Stops (p : Protocol) : Halt → Prop
  | argumentCount (function : String) (expected found : Nat) (missing : List String)
    : Stops p (.error (.argumentCount function expected found missing))
  | noAttribute (typeName attr : String) : Stops p (.error (.noAttribute typeName attr))
  | readOnlyAttribute (typeName attr : String)
    : Stops p (.error (.readOnlyAttribute typeName attr))
  | display {value : Value} {h h' : Heap} {halt : Halt}
    (stopped : (p.display value).outcome h = (.error halt, h'))
    : Stops p halt
  | equals {left right : Value} {h h' : Heap} {halt : Halt}
    (stopped : (p.equals left right).outcome h = (.error halt, h'))
    : Stops p halt
  | hash {value : Value} {h h' : Heap} {halt : Halt}
    (stopped : (p.hash value).outcome h = (.error halt, h'))
    : Stops p halt

section Operations

variable {p : Protocol}

/-- An operation that is re-entered stops in its own way only. -/
theorem ensures_of_stops {α : Type} {x : Eval α} {S : Halt → Prop}
    (stops : ∀ {h h' halt}, x.outcome h = (.error halt, h') → S halt)
    : x.Ensures (fun _ => True) S := by
  intro h
  rcases isResult : x.outcome h with ⟨halt | a, h'⟩
  · exact stops isResult
  · trivial

theorem ensures_getAttr (object : Value) (name : String)
    : (Eval.getAttr object name).Ensures (fun _ => True) (Stops p) := by
  refine (Eval.ensures_ask (Q := fun _ => True) fun _ => trivial).bind ?_
  rintro (_ | value) -
  · refine (Eval.ensures_ask (Q := fun _ => True) fun _ => trivial).bind ?_
    intro typeName _
    exact Eval.ensures_fail (.noAttribute typeName name)
  · exact Eval.ensures_pure trivial

theorem ensures_setAttr (object : Value) (name : String) (value : Value)
    : (Eval.setAttr object name value).Ensures (fun _ => True) (Stops p) := by
  unfold Eval.setAttr
  split
  · exact fun _ => trivial
  · refine (Eval.ensures_ask (Q := fun _ => True) fun _ => trivial).bind ?_
    intro typeName _
    exact Eval.ensures_fail (.readOnlyAttribute typeName name)

/-- Joining texts stops only as a display does, by induction on the values. -/
theorem ensures_joinTexts (text : String) (values : List Value)
    : (joinTexts p text values).Ensures (fun _ => True) (Stops p) := by
  induction values generalizing text with
  | nil => exact Eval.ensures_pure trivial
  | cons value rest ih =>
      unfold joinTexts
      split
      · exact Eval.ensures_pure trivial
      · next same =>
        cases same
        exact ih _
      · next same =>
        cases same
        exact (ensures_of_stops .display).bind fun part _ => ih _

theorem ensures_callBuiltin (function : Builtin) (arg : Value)
    : (callBuiltin p function arg).Ensures (fun _ => True) (Stops p) := by
  cases function with
  | type => exact fun _ => trivial
  | typename => exact fun _ => trivial
  | repr => exact (ensures_of_stops .display).bind fun _ _ => fun _ => trivial
  | hash => exact (ensures_of_stops .hash).bind fun _ _ => Eval.ensures_pure trivial

theorem ensures_compare (op : Comparator) (left right : Value)
    : (compare p op left right).Ensures (fun _ => True) (Stops p) := by
  cases op with
  | equal => exact ensures_of_stops .equals
  | notEqual => exact (ensures_of_stops .equals).bind fun _ _ => Eval.ensures_pure trivial
  | same => exact Eval.ensures_pure trivial

end Operations

-----------------------------------------------------------------------------------------
-- One instruction, and a whole run
-----------------------------------------------------------------------------------------

section Runs

variable {p : Protocol} {a : Artifact} {args : Array Value}

/-- What carrying out an instruction leads to, if it leads on. -/
def Leads (instr : Instr) (position : Nat) (stack : List Value) : Progress → Prop
  | .running frame =>
    frame.position ∈ instr.nexts position
    ∧ frame.stack.length = stack.length - instr.takes + instr.puts
  | .done _ => True

theorem ensures_nameAt {i : Nat} {S : Halt → Prop} (inRange : i < a.program.names.size)
    : (nameAt a.program i).Ensures (fun _ => True) S := by
  rw [nameAt, Array.getElem?_eq_getElem inRange]
  exact Eval.ensures_pure trivial

/-- The last operand is there, and what is left is one less. -/
theorem ensures_pop {stack : List Value} {S : Halt → Prop} (enough : 1 ≤ stack.length)
    : (pop a.program stack).Ensures (fun popped => popped.2.length = stack.length - 1) S := by
  cases stack with
  | nil => cases enough
  | cons top rest => exact Eval.ensures_pure rfl

theorem ensures_popMany {stack : List Value} {count : Nat} {S : Halt → Prop}
    (enough : count ≤ stack.length)
    : (popMany a.program count stack).Ensures
        (fun popped => popped.2.length = stack.length - count) S := by
  have taken : (stack.take count).length = count := by
    rw [List.length_take, Nat.min_eq_left enough]
  rw [popMany, if_pos taken]
  exact Eval.ensures_pure List.length_drop

theorem exists_const? {i : Nat} (inRange : i < a.program.consts.size)
    : ∃ value, a.const? i = some value := by
  unfold Artifact.const?
  rw [Array.getElem?_eq_getElem inRange]
  cases a.program.consts[i] <;> exact ⟨_, rfl⟩

/-- An instruction that finds its operands and refers to entries that there are leads to where it
says, with the height that it says, or stops as calls may.
-/
theorem ensures_step {position : Nat} {stack yielded : List Value} {instr : Instr}
    (size : args.size = a.program.params.size) (enough : instr.takes ≤ stack.length)
    (inRange : instr.InRange a.program)
    : (step p a args ⟨position + 1, stack, yielded⟩ instr).Ensures
        (Leads instr position stack) (Stops p) := by
  cases instr with
  | loadConst i =>
      obtain ⟨value, isConst⟩ := exists_const? inRange
      rw [step, isConst]
      exact Eval.ensures_pure ⟨List.mem_singleton_self _, rfl⟩
  | loadParam i =>
      rw [step, Array.getElem?_eq_getElem (size ▸ inRange)]
      exact Eval.ensures_pure ⟨List.mem_singleton_self _, rfl⟩
  | loadAttr i =>
      refine (ensures_nameAt inRange).bind fun name _ => ?_
      refine (ensures_pop enough).bind ?_
      rintro ⟨object, rest⟩ isRest
      refine (ensures_getAttr object name).bind fun value _ => ?_
      exact Eval.ensures_pure ⟨List.mem_singleton_self _, congrArg (· + 1) isRest⟩
  | storeAttr i =>
      refine (ensures_nameAt inRange).bind fun name _ => ?_
      refine (ensures_pop (Nat.le_of_succ_le enough)).bind ?_
      rintro ⟨object, rest⟩ isRest
      refine (ensures_pop (isRest ▸ Nat.le_sub_of_add_le enough)).bind ?_
      rintro ⟨value, rest'⟩ isRest'
      refine (ensures_setAttr object name value).bind fun _ _ => ?_
      exact Eval.ensures_pure ⟨List.mem_singleton_self _, isRest'.trans (by rw [isRest]; rfl)⟩
  | loadName i =>
      refine (ensures_nameAt inRange).bind fun name _ => ?_
      exact fun _ => ⟨List.mem_singleton_self _, rfl⟩
  | buildTuple count =>
      refine (ensures_popMany enough).bind ?_
      rintro ⟨items, rest⟩ isRest
      exact fun _ => ⟨List.mem_singleton_self _, congrArg (· + 1) isRest⟩
  | buildString count =>
      refine (ensures_popMany enough).bind ?_
      rintro ⟨parts, rest⟩ isRest
      refine (ensures_joinTexts "" parts).bind fun text _ => ?_
      exact fun _ => ⟨List.mem_singleton_self _, congrArg (· + 1) isRest⟩
  | callBuiltin function =>
      refine (ensures_pop enough).bind ?_
      rintro ⟨arg, rest⟩ isRest
      refine (ensures_callBuiltin function arg).bind fun value _ => ?_
      exact Eval.ensures_pure ⟨List.mem_singleton_self _, congrArg (· + 1) isRest⟩
  | compare op =>
      refine (ensures_pop (Nat.le_of_succ_le enough)).bind ?_
      rintro ⟨right, rest⟩ isRest
      refine (ensures_pop (isRest ▸ Nat.le_sub_of_add_le enough)).bind ?_
      rintro ⟨left, rest'⟩ isRest'
      refine (ensures_compare op left right).bind fun result _ => ?_
      refine Eval.ensures_pure ⟨List.mem_singleton_self _, congrArg (· + 1) ?_⟩
      exact isRest'.trans (by rw [isRest]; rfl)
  | jumpIfFalse target =>
      refine (ensures_pop enough).bind ?_
      rintro ⟨test, rest⟩ isRest
      refine Eval.ensures_pure ⟨?_, isRest⟩
      dsimp only [Instr.nexts]
      split
      · exact List.mem_cons_self
      · exact List.mem_cons_of_mem _ (List.mem_singleton_self _)
  | jump target => exact Eval.ensures_pure ⟨List.mem_singleton_self _, rfl⟩
  | pop =>
      refine (ensures_pop enough).bind ?_
      rintro ⟨value, rest⟩ isRest
      exact Eval.ensures_pure ⟨List.mem_singleton_self _, isRest⟩
  | yield =>
      refine (ensures_pop enough).bind ?_
      rintro ⟨value, rest⟩ isRest
      exact Eval.ensures_pure ⟨List.mem_singleton_self _, isRest⟩
  | giveBack =>
      refine (ensures_pop enough).bind ?_
      rintro ⟨value, rest⟩ -
      dsimp only
      split
      · exact fun _ => trivial
      · exact Eval.ensures_pure trivial

/-- The frame is at an instruction, with a stack as high as the program has it there. -/
structure Fits (program : Program) (frame : Frame) : Prop where
  inCode : frame.position < program.code.size
  height : frame.stack.length = program.height frame.position

/-- The instruction to be carried out is there, finds its operands, and refers to entries that the
tables have.
-/
def Ready (program : Program) (frame : Frame) : Prop :=
  ∃ instr,
    program.code[frame.position]? = some instr
    ∧ instr.takes ≤ frame.stack.length
    ∧ instr.InRange program

/-- The frames that a call comes to, whatever the operations that it re-enters do to the heap. -/
inductive Reaches (p : Protocol) (a : Artifact) (args : Array Value) : Frame → Prop
  | start : Reaches p a args ⟨0, [], []⟩
  | step {frame next : Frame} {instr : Instr} {h h' : Heap} (reached : Reaches p a args frame)
    (found : a.program.code[frame.position]? = some instr)
    (leads
      : (Machine.step p a args { frame with position := frame.position + 1 } instr).outcome h
        = (.ok (.running next), h'))
    : Reaches p a args next

theorem Fits.start {program : Program} (sound : program.Sound) : Fits program ⟨0, [], []⟩ :=
  ⟨sound.entry, rfl⟩

theorem Fits.ready {program : Program} {frame : Frame} (fits : Fits program frame)
    (sound : program.Sound)
    : Ready program frame := by
  have found := Array.getElem?_eq_getElem fits.inCode
  obtain ⟨takes, inRange, -⟩ := sound.steady _ _ found
  exact ⟨_, found, fits.height ▸ takes, inRange⟩

/-- An instruction leads from a frame that fits forward to frames that fit. -/
theorem Fits.leads {program : Program} {frame next : Frame} {instr : Instr}
    (fits : Fits program frame) (sound : program.Sound)
    (found : program.code[frame.position]? = some instr)
    (leads : Leads instr frame.position frame.stack (.running next))
    : frame.position < next.position ∧ Fits program next := by
  obtain ⟨isNext, height⟩ := leads
  obtain ⟨forward, inCode, isHeight⟩ := (sound.steady _ _ found).leads _ isNext
  exact ⟨forward, inCode, by rw [height, isHeight, fits.height]⟩

/-- Every frame that a call comes to fits, by induction on how it is reached. -/
theorem Reaches.fits {frame : Frame} (reached : Reaches p a args frame)
    (sound : a.program.Sound) (size : args.size = a.program.params.size)
    : Fits a.program frame := by
  induction reached with
  | start => exact .start sound
  | @step frame next instr h h' reached found leads ih =>
      obtain ⟨takes, inRange, -⟩ := sound.steady _ _ found
      have given := @ensures_step p _ _ frame.position _ frame.yielded _ size (ih.height ▸ takes)
        inRange h
      rw [leads] at given
      exact (ih.leads sound found given).2

/-- With fuel for the rest of the program, a run from a frame that fits stops only as calls may, by
induction on the fuel.
-/
theorem ensures_run (sound : a.program.Sound) (size : args.size = a.program.params.size)
    (frame : Frame) (fits : Fits a.program frame) (fuel : Nat)
    (enough : a.program.code.size < frame.position + fuel)
    : (run p a args frame fuel).Ensures (fun _ => True) (Stops p) := by
  induction fuel generalizing frame with
  | zero => exact absurd fits.inCode (Nat.not_lt.mpr enough.le)
  | succ fuel ih =>
      obtain ⟨instr, found, takes, inRange⟩ := fits.ready sound
      rw [run_succ found]
      refine (ensures_step size takes inRange).bind ?_
      rintro (next | value) leads
      · obtain ⟨forward, fits'⟩ := fits.leads sound found leads
        exact ih next fits' (by omega)
      · exact Eval.ensures_pure trivial

end Runs

/-- Compiled programs do not go wrong. Called with as many arguments as it has parameters, a program
comes only to instructions that are there, find their operands and refer to entries that the tables
have. A call does not stop because the program is malformed: it stops for an argument or attribute,
or in the way in which an operation that it re-enters stops. The listing finds the entries, too.
-/
theorem safe_of_made {program : Program} (made : program.Made) (literals : Address) (p : Protocol)
    (args : Array Value)
    : (args.size = program.params.size →
        ∀ frame, Reaches p ⟨program, literals⟩ args frame → Ready program frame)
      ∧ (∀ h halt h',
        (call p ⟨program, literals⟩ args).outcome h = (.error halt, h') → Stops p halt)
      ∧ program.listing? = some program.listing := by
  have sound := made.sound
  refine ⟨?_, ?_, sound.listing?⟩
  · intro size frame reached
    exact (reached.fits sound size).ready sound
  · intro h halt h' stopped
    have given : (call p ⟨program, literals⟩ args).Ensures (fun _ => True) (Stops p) := by
      rw [call]
      dsimp only
      split
      · next size => exact ensures_run sound size _ (.start sound) _ (by dsimp only; omega)
      · exact Eval.ensures_fail (.argumentCount ..)
    have allowed := given h
    rwa [stopped] at allowed

/-- Witness: equality over two fields, compiled from its template and bound to odd names. -/
theorem safe_of_made_equality
    : ∃ program : Program,
        program.Made
        ∧ program.names = #["_1", "if"]
        ∧ Ready program ⟨0, [], []⟩
        ∧ program.listing? = some program.listing := by
  have compiled := TemplateStore.compile_standard .equality
    (by decide : ["_1", "if"].length ≤ maxFields)
  have bound := TemplateStore.bind_of_compile_standard compiled rfl
  have names := TemplateStore.names_of_bind_standard compiled bound
  have made := Program.Made.bound (.compiled (TemplateStore.compile_eq_ok_iff.mp compiled).1) bound
  obtain ⟨ready, -, listed⟩ := safe_of_made made ⟨0, 0⟩ .full (.replicate _ .none)
  exact ⟨_, made, Array.toList_inj.mp names, ready Array.size_replicate _ .start, listed⟩

end Machine

end RecordSynth
