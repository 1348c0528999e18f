import Mathlib.Data.List.Perm.Subperm
import RecordSynth.Proofs.Eval.Safety

/-! Runs of programs come to an end. Jumps only lead forward, at the furthest to the return that
closes the code, so a run carries out instructions at greater and greater positions. It is described
here without a bound on its length, as the list of these positions.
-/

namespace RecordSynth

-----------------------------------------------------------------------------------------
-- Jumps
-----------------------------------------------------------------------------------------

theorem Instr.mem_nexts_of_target? {instr : Instr} {target : Nat}
    (isTarget : instr.target? = some target) (position : Nat)
    : target ∈ instr.nexts position := by
  cases instr with
  | jump | jumpIfFalse =>
      cases isTarget
      simp [nexts]
  | _ => cases isTarget

/-- An instruction leads directly behind itself or to its target. -/
theorem Instr.eq_or_target_of_mem_nexts {instr : Instr} {position next : Nat}
    (member : next ∈ instr.nexts position)
    : next = position + 1 ∨ instr.target? = some next := by
  cases instr with
  | jump target => exact Or.inr (congrArg some (List.mem_singleton.mp member).symm)
  | jumpIfFalse target =>
      rcases List.mem_cons.mp member with isNext | isTarget
      · exact Or.inl isNext
      · exact Or.inr (congrArg some (List.mem_singleton.mp isTarget).symm)
  | giveBack => cases member
  | _ => exact Or.inl (List.mem_singleton.mp member)

namespace Program

/-- The code closes with a return of nothing, which is loaded at position `last`. Each jump leads
forward, and no further than to this load.
-/
structure ForwardTo (p : Program) (last : Nat) : Prop where
  size : p.code.size = last + 2
  loads : ∃ i, p.code[last]? = some (.loadConst i) ∧ p.consts[i]? = some .none
  closes : p.code[last + 1]? = some .giveBack
  jumps
    : ∀ position instr target,
        p.code[position]? = some instr →
        instr.target? = some target →
        position < target ∧ target ≤ last

/-- Jumps of a body are steady, and what closes the code is no jump. -/
theorem forwardTo_of_accepted {d : Source.Definition} (accepted : d.Accepted)
    : d.program.ForwardTo d.bodyCode.length := by
  have body := balances_bodyCode accepted
  obtain ⟨bodyPlaced, closing⟩ := codeAt_append.mp d.codeAt_program
  obtain ⟨load, ends⟩ := codeAt_cons.mp closing
  rw [Nat.zero_add] at load ends
  rw [codeAt_singleton] at ends
  have size : d.program.code.size = d.bodyCode.length + 2 := by
    simp [Source.Definition.program]
  have isNone : d.constTable[d.layout.const .none]? = some .none :=
    List.getElem?_idxOf (mem_enterAll.mpr (Or.inr (by simp)))
  refine ⟨size, ⟨_, load, by simpa [Source.Definition.program] using isNone⟩, ends, ?_⟩
  intro position instr target found isTarget
  have inCode := (Array.getElem?_eq_some_iff.mp found).1
  rcases Nat.lt_or_ge position d.bodyCode.length with inBody | behind
  · have isInstr := bodyPlaced position inBody
    rw [Nat.zero_add, found] at isInstr
    have steady := body.steady position instr isInstr.symm
    rw [Nat.zero_add, Nat.zero_add] at steady
    obtain ⟨forward, below, -⟩ := steady.leads target (Instr.mem_nexts_of_target? isTarget position)
    exact ⟨forward, Nat.le_of_lt_succ below⟩
  · have straight : instr.target? = none := by
      obtain isLoad | isEnd : position = d.bodyCode.length ∨ position = d.bodyCode.length + 1 := by
        omega
      · rw [isLoad, load] at found
        exact Option.some.inj found ▸ rfl
      · rw [isEnd, ends] at found
        exact Option.some.inj found ▸ rfl
    rw [straight] at isTarget
    cases isTarget

/-- Where jumps lead is a matter of the code and the constants. -/
theorem ForwardTo.congr {p q : Program} {last : Nat} (forward : p.ForwardTo last)
    (code : q.code = p.code) (consts : q.consts = p.consts)
    : q.ForwardTo last := by
  refine ⟨?_, ?_, ?_, ?_⟩
  · exact code ▸ forward.size
  · rw [code, consts]
    exact forward.loads
  · exact code ▸ forward.closes
  · rw [code]
    exact forward.jumps

/-- In every program that there is jumps lead forward, by induction on how it is made. -/
theorem Made.forwardTo {p : Program} (made : p.Made) : ∃ last, p.ForwardTo last := by
  induction made with
  | compiled compiles =>
      obtain ⟨d, _, compiles⟩ := bind_eq_ok.mp compiles
      obtain ⟨accepted, rfl⟩ := ofDefinition_eq_ok_iff.mp compiles
      exact ⟨_, forwardTo_of_accepted accepted⟩
  | replaced _ replaces ih =>
      obtain ⟨rfl, -, -⟩ := replaceNames_eq_ok replaces
      obtain ⟨last, forward⟩ := ih
      exact ⟨last, forward.congr rfl rfl⟩
  | bound _ binds ih =>
      obtain ⟨-, -, rfl⟩ := bind_eq_ok_iff.mp binds
      obtain ⟨last, forward⟩ := ih
      exact ⟨last, forward.congr rfl rfl⟩

/-- Every instruction leads forward. -/
theorem ForwardTo.lt_of_mem_nexts {p : Program} {last position next : Nat} {instr : Instr}
    (forward : p.ForwardTo last) (found : p.code[position]? = some instr)
    (member : next ∈ instr.nexts position)
    : position < next := by
  rcases Instr.eq_or_target_of_mem_nexts member with rfl | isTarget
  · exact Nat.lt_succ_self position
  · exact (forward.jumps position instr next found isTarget).1

end Program

namespace Machine

-----------------------------------------------------------------------------------------
-- One instruction
-----------------------------------------------------------------------------------------

section Steps

variable {α β : Type} {Q : β → Prop}

/-- However an evaluation stops is allowed here, so that only what it gives is left to look at. -/
theorem ensures_any (x : Eval α) : x.Ensures (fun _ => True) (fun _ => True) := by
  intro h
  split <;> trivial

/-- What the last part of an evaluation gives is what the evaluation gives. -/
theorem ensures_last {x : Eval α} {f : α → Eval β}
    (last : ∀ a, (f a).Ensures Q fun _ => True)
    : (x >>= f).Ensures Q fun _ => True :=
  (ensures_any x).bind fun a _ => last a

/-- If a step leads on, it leads to where its instruction does. -/
def GoesTo (instr : Instr) (position : Nat) : Progress → Prop
  | .running frame => frame.position ∈ instr.nexts position
  | .done _ => True

/-- A step goes to where its instruction leads, whatever the operands and the tables are. -/
theorem ensures_goesTo (p : Protocol) (a : Artifact) (args : Array Value) (position : Nat)
    (stack yielded : List Value) (instr : Instr)
    : (step p a args ⟨position + 1, stack, yielded⟩ instr).Ensures (GoesTo instr position)
        fun _ => True := by
  have straight {next : Nat} (isNext : next = position + 1) : next ∈ [position + 1] :=
    List.mem_singleton.mpr isNext
  cases instr with
  | loadConst i =>
      rw [step]
      split
      · exact Eval.ensures_pure (straight rfl)
      · exact Eval.ensures_fail trivial
  | loadParam i =>
      rw [step]
      split
      · exact Eval.ensures_pure (straight rfl)
      · exact Eval.ensures_fail trivial
  | loadAttr i =>
      refine ensures_last fun name => ensures_last fun popped => ?_
      exact ensures_last fun value => Eval.ensures_pure (straight rfl)
  | storeAttr i =>
      refine ensures_last fun name => ensures_last fun popped => ensures_last fun popped' => ?_
      exact ensures_last fun _ => Eval.ensures_pure (straight rfl)
  | loadName i =>
      refine ensures_last fun name => ?_
      exact ensures_last fun value => Eval.ensures_pure (straight rfl)
  | buildTuple count =>
      refine ensures_last fun popped => ?_
      exact ensures_last fun value => Eval.ensures_pure (straight rfl)
  | buildString count =>
      refine ensures_last fun popped => ensures_last fun text => ?_
      exact ensures_last fun value => Eval.ensures_pure (straight rfl)
  | callBuiltin function =>
      refine ensures_last fun popped => ?_
      exact ensures_last fun value => Eval.ensures_pure (straight rfl)
  | compare op =>
      refine ensures_last fun popped => ensures_last fun popped' => ?_
      exact ensures_last fun result => Eval.ensures_pure (straight rfl)
  | jumpIfFalse target =>
      refine ensures_last fun popped => Eval.ensures_pure ?_
      dsimp only [GoesTo, Instr.nexts]
      split
      · exact List.mem_cons_self
      · exact List.mem_cons_of_mem _ (List.mem_singleton_self _)
  | jump target => exact Eval.ensures_pure (List.mem_singleton_self target)
  | pop => exact ensures_last fun popped => Eval.ensures_pure (straight rfl)
  | yield => exact ensures_last fun popped => Eval.ensures_pure (straight rfl)
  | giveBack =>
      refine ensures_last fun popped => ?_
      dsimp only
      split
      · exact ensures_last fun value => Eval.ensures_pure trivial
      · exact Eval.ensures_pure trivial

end Steps

-----------------------------------------------------------------------------------------
-- Whole runs
-----------------------------------------------------------------------------------------

/-- The frame is run on the heap up to an end: the positions of the instructions that are carried
out one after the other, and what comes out with the heap that is left. The run ends behind the
code, with an instruction that stops it, or with a value that is given back.
-/
inductive Executes (p : Protocol) (a : Artifact) (args : Array Value)
    : Frame → Heap → List Nat → Except Halt Value × Heap → Prop
  | fallsOff {frame : Frame} {h : Heap} (absent : a.program.code[frame.position]? = none)
    : Executes p a args frame h []
        ((malformed a.program "fell off the end of the code" : Eval Value).outcome h)
  | stops {frame : Frame} {h h' : Heap} {instr : Instr} {halt : Halt}
    (found : a.program.code[frame.position]? = some instr)
    (stopped
      : (step p a args { frame with position := frame.position + 1 } instr).outcome h
        = (.error halt, h'))
    : Executes p a args frame h [frame.position] (.error halt, h')
  | givesBack {frame : Frame} {h h' : Heap} {instr : Instr} {value : Value}
    (found : a.program.code[frame.position]? = some instr)
    (given
      : (step p a args { frame with position := frame.position + 1 } instr).outcome h
        = (.ok (.done value), h'))
    : Executes p a args frame h [frame.position] (.ok value, h')
  | goesOn {frame next : Frame} {h h' : Heap} {instr : Instr} {positions : List Nat}
    {result : Except Halt Value × Heap}
    (found : a.program.code[frame.position]? = some instr)
    (leads
      : (step p a args { frame with position := frame.position + 1 } instr).outcome h
        = (.ok (.running next), h'))
    (rest : Executes p a args next h' positions result)
    : Executes p a args frame h (frame.position :: positions) result

section Runs

variable {p : Protocol} {a : Artifact} {args : Array Value} {frame next : Frame} {h h' : Heap}
  {instr : Instr} {positions : List Nat} {result : Except Halt Value × Heap} {last : Nat}

/-- A step that leads on leads forward. -/
theorem lt_of_step (forward : a.program.ForwardTo last)
    (found : a.program.code[frame.position]? = some instr)
    (leads
      : (step p a args { frame with position := frame.position + 1 } instr).outcome h
        = (.ok (.running next), h'))
    : frame.position < next.position := by
  have goes := ensures_goesTo p a args frame.position frame.stack frame.yielded instr h
  rw [leads] at goes
  exact forward.lt_of_mem_nexts found goes

/-- A run carries out instructions of the code at greater and greater positions, by induction on the
run.
-/
theorem Executes.increasing (forward : a.program.ForwardTo last)
    (run : Executes p a args frame h positions result)
    : positions.Pairwise (· < ·)
      ∧ ∀ position ∈ positions, frame.position ≤ position ∧ position < a.program.code.size := by
  have inCode {frame : Frame} {instr : Instr}
      (found : a.program.code[frame.position]? = some instr)
      : frame.position < a.program.code.size :=
    (Array.getElem?_eq_some_iff.mp found).1
  induction run with
  | fallsOff absent => exact ⟨.nil, nofun⟩
  | stops found _ =>
      exact ⟨List.pairwise_singleton _ _,
        List.forall_mem_singleton.mpr ⟨Nat.le_refl _, inCode found⟩⟩
  | givesBack found _ =>
      exact ⟨List.pairwise_singleton _ _,
        List.forall_mem_singleton.mpr ⟨Nat.le_refl _, inCode found⟩⟩
  | goesOn found leads _ ih =>
      obtain ⟨increasing, within⟩ := ih
      have ahead := lt_of_step forward found leads
      refine ⟨List.pairwise_cons.mpr ⟨?_, increasing⟩, List.forall_mem_cons.mpr ⟨?_, ?_⟩⟩
      · exact fun position member => Nat.lt_of_lt_of_le ahead (within position member).1
      · exact ⟨Nat.le_refl _, inCode found⟩
      · intro position member
        obtain ⟨behind, inCode⟩ := within position member
        exact ⟨Nat.le_trans ahead.le behind, inCode⟩

/-- Every frame has a run, by induction on what is left of the code. -/
theorem exists_executes (forward : a.program.ForwardTo last) (frame : Frame) (h : Heap)
    : ∃ positions result, Executes p a args frame h positions result := by
  generalize isLeft : a.program.code.size - frame.position = left
  induction left using Nat.strongRecOn generalizing frame h with
  | _ left ih =>
      cases found : a.program.code[frame.position]? with
      | none => exact ⟨_, _, .fallsOff found⟩
      | some instr =>
          have inCode := (Array.getElem?_eq_some_iff.mp found).1
          rcases outcome
            : (step p a args { frame with position := frame.position + 1 } instr).outcome h
            with ⟨halt | next | value, h'⟩
          · exact ⟨_, _, .stops found outcome⟩
          · have ahead := lt_of_step forward found outcome
            obtain ⟨positions, result, rest⟩ := ih _ (by omega) next h' rfl
            exact ⟨_, _, .goesOn found outcome rest⟩
          · exact ⟨_, _, .givesBack found outcome⟩

/-- A run with more fuel than instructions to carry out comes to the same end, by induction on the
run.
-/
theorem Executes.outcome_run (run : Executes p a args frame h positions result) {fuel : Nat}
    (enough : positions.length < fuel)
    : (Machine.run p a args frame fuel).outcome h = result := by
  obtain ⟨fuel, rfl⟩ := Nat.exists_eq_add_one_of_ne_zero (Nat.ne_of_gt (Nat.zero_lt_of_lt enough))
  induction run generalizing fuel with
  | fallsOff absent =>
      rw [Machine.run, absent]
  | stops found stopped => rw [run_succ found, Eval.outcome_bind_error stopped]
  | givesBack found given =>
      rw [run_succ found, Eval.outcome_bind_ok given]
      rfl
  | goesOn found leads _ ih =>
      rw [List.length_cons] at enough
      obtain ⟨fuel, rfl⟩ : ∃ more, fuel = more + 1 :=
        Nat.exists_eq_add_one_of_ne_zero (by omega)
      rw [run_succ found, Eval.outcome_bind_ok leads]
      exact ih fuel (by omega)

end Runs

/-- Every call of a compiled program ends, also after names are replaced or bound. Jumps lead
forward, at the furthest to the load that the closing return is for. So the called frame has a run
up to an end; in each run the positions increase strictly, so that no instruction is carried out
twice; and what comes out of the run is what the call gives.
-/
theorem ends_of_made {program : Program} (made : program.Made)
    : (∃ last, program.ForwardTo last)
      ∧ ∀ (literals : Address) (p : Protocol) (args : Array Value) (h : Heap),
        let Runs := Executes p ⟨program, literals⟩ args ⟨0, [], []⟩ h
        (∃ positions result, Runs positions result)
        ∧ ∀ positions result, Runs positions result →
          positions.Pairwise (· < ·)
          ∧ positions.Nodup
          ∧ (∀ position ∈ positions, position < program.code.size)
          ∧ (args.size = program.params.size →
            (call p ⟨program, literals⟩ args).outcome h = result) := by
  obtain ⟨last, forward⟩ := made.forwardTo
  refine ⟨⟨last, forward⟩, fun literals p args h => ⟨exists_executes forward _ h, ?_⟩⟩
  intro positions result run
  obtain ⟨increasing, within⟩ := run.increasing forward
  have once : positions.Nodup := increasing.imp Nat.ne_of_lt
  have inCode : ∀ position ∈ positions, position < program.code.size :=
    fun position member => (within position member).2
  have few : positions.length ≤ program.code.size := by
    have among : positions ⊆ List.range program.code.size :=
      fun position member => List.mem_range.mpr (inCode position member)
    simpa using (List.Nodup.subperm once among).length_le
  refine ⟨increasing, once, inCode, fun size => ?_⟩
  rw [call]
  dsimp only
  rw [if_pos size]
  exact run.outcome_run (Nat.lt_succ_of_le few)

/-- Witness: equality over two fields, compiled from its template and bound to odd names. -/
theorem ends_of_made_equality
    : ∃ program : Program,
        program.Made
        ∧ program.names = #["_1", "if"]
        ∧ (∃ last, program.ForwardTo last)
        ∧ ∀ h, ∃ positions result,
          Executes .full ⟨program, ⟨0, 0⟩⟩ (.replicate program.params.size .none) ⟨0, [], []⟩ h
            positions result
          ∧ positions.Nodup
          ∧ (call .full ⟨program, ⟨0, 0⟩⟩ (.replicate program.params.size .none)).outcome h
            = result := by
  have compiled := TemplateStore.compile_standard .equality
    (by decide : ["_1", "if"].length ≤ maxFields)
  have bound := TemplateStore.bind_of_compile_standard compiled rfl
  have names := TemplateStore.names_of_bind_standard compiled bound
  have made := Program.Made.bound (.compiled (TemplateStore.compile_eq_ok_iff.mp compiled).1) bound
  obtain ⟨forward, runs⟩ := ends_of_made made
  refine ⟨_, made, Array.toList_inj.mp names, forward, fun h => ?_⟩
  obtain ⟨⟨positions, result, run⟩, all⟩ := runs ⟨0, 0⟩ .full (.replicate _ .none) h
  obtain ⟨-, once, -, given⟩ := all positions result run
  exact ⟨positions, result, run, once, given Array.size_replicate⟩

end Machine

end RecordSynth
