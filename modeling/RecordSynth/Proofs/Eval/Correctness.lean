import RecordSynth.Proofs.Eval.Simulation
import RecordSynth.Proofs.Template.Specialization

/-! Compilation is correct: calling the program of a source text is evaluating the definition that
the text spells, with the same value or error and the same heap.
-/

namespace RecordSynth.Source

/-- The text constants of a definition are where an artifact has its constants, different texts at
different places.
-/
structure Definition.Pools (d : Definition) (pool : String → Address) (literals : Address)
    (count : Nat) : Prop where
  distinct
    : ∀ s t, .str s ∈ Stmt.literalsAll d.body → .str t ∈ Stmt.literalsAll d.body →
        pool s = pool t → s = t
  within
    : ∀ s, .str s ∈ Stmt.literalsAll d.body →
        (pool s).region = literals.region
        ∧ literals.offset ≤ (pool s).offset
        ∧ (pool s).offset < literals.offset + count

namespace Definition

/-- Where an artifact of the definition has its text constants. -/
def textPool (d : Definition) (literals : Address) (text : String) : Address :=
  ⟨literals.region, literals.offset + d.constTable.idxOf (.str text)⟩

theorem mem_constTable {d : Definition} {value : Literal}
    (member : value ∈ Stmt.literalsAll d.body)
    : value ∈ d.constTable :=
  mem_enterAll.mpr (Or.inr (List.mem_append_left _ member))

theorem pools_textPool (d : Definition) (literals : Address)
    : d.Pools (d.textPool literals) literals d.program.consts.size := by
  refine ⟨?_, ?_⟩
  · intro s t sMember tMember same
    have position : d.constTable.idxOf (.str s) = d.constTable.idxOf (.str t) := by
      have offsets := congrArg Address.offset same
      dsimp only [textPool] at offsets
      omega
    have sameLiteral := List.idxOf_inj (mem_constTable sMember) |>.mp position
    exact Literal.str.inj sameLiteral
  · intro s member
    have inTable := List.idxOf_lt_length_of_mem (mem_constTable member)
    exact ⟨rfl, Nat.le_add_right _ _, Nat.add_lt_add_left inTable _⟩

/-- A parameter's value is the argument at the parameter's place, by induction on both. -/
theorem lookup_zip {params : List String} {args : List Value} {name : String}
    (isParam : name ∈ params) (length : args.length = params.length)
    : ∃ value, args[params.idxOf name]? = some value
        ∧ (params.zip args).lookup name = some value := by
  induction params generalizing args with
  | nil => cases isParam
  | cons param rest ih =>
      cases args with
      | nil => cases length
      | cons arg more =>
          by_cases same : param = name
          · exact ⟨arg, by simp [same], by simp [same]⟩
          · have behind : name ∈ rest := by
              rcases List.mem_cons.mp isParam with rfl | inRest
              · exact absurd rfl same
              · exact inRest
            obtain ⟨value, atPlace, isValue⟩ := ih behind (Nat.succ.inj length)
            have other : (name == param) = false := by
              simpa using fun h => same h.symm
            refine ⟨value, ?_, ?_⟩
            · rwa [List.idxOf_cons_ne _ same, List.getElem?_cons_succ]
            · rwa [List.zip_cons_cons, List.lookup_cons, other]

/-- An artifact of the definition holds what evaluation of the definition uses. -/
theorem loads_program (d : Definition) (p : Protocol) (literals : Address) {args : Array Value}
    (length : args.size = d.paramNames.length)
    : (d.scope p (d.textPool literals) args).Loads ⟨d.program, literals⟩ args d.layout
        d.paramNames d.nameTable d.constTable := by
  refine ⟨?_, ?_, ?_⟩
  · intro name isParam
    obtain ⟨value, atPlace, isValue⟩ := lookup_zip isParam
      (args.length_toList.trans length)
    exact ⟨value, by simpa [layout, Layout.ofTables] using atPlace, isValue⟩
  · intro name isName
    simpa [program, layout, Layout.ofTables] using List.getElem?_idxOf isName
  · intro value isConst
    have found : d.program.consts[d.layout.const value]? = some value := by
      simpa [program, layout, Layout.ofTables] using List.getElem?_idxOf isConst
    unfold Artifact.const?
    dsimp only
    rw [found]
    cases value <;> rfl

theorem codeAt_program (d : Definition)
    : CodeAt d.program 0 (d.bodyCode ++ [.loadConst (d.layout.const .none), .giveBack]) := by
  intro i _
  simp [program]

/-- Calling the program of an accepted definition is evaluating the definition. -/
theorem Accepted.call_eq {d : Definition} (accepted : d.Accepted) (p : Protocol)
    (literals : Address) {args : Array Value} (length : args.size = d.program.params.size)
    : Machine.call p ⟨d.program, literals⟩ args = d.evaluate p (d.textPool literals) args := by
  have sizes : args.size = d.paramNames.length := by
    simpa [program] using length
  have loads := d.loads_program p literals sizes
  generalize isScope : d.scope p (d.textPool literals) args = scope at loads
  have generator : d.isGenerator = scope.isGenerator := isScope ▸ rfl
  have protocol : p = scope.protocol := isScope ▸ rfl
  obtain ⟨bodyPlaced, closing⟩ := codeAt_append.mp d.codeAt_program
  obtain ⟨load, ends⟩ := codeAt_cons.mp closing
  have isNone := loads.const .none (mem_enterAll.mpr (Or.inr (by simp)))
  have bodyLoads := loads.mono
    (fun name (member : name ∈ Stmt.namesAll d.body) => mem_enterAll.mpr (Or.inr member))
    (fun value (member : value ∈ Stmt.literalsAll d.body) => mem_constTable member)
  -- The closing return is what follows the body, whatever has been yielded by then.
  have runs : Machine.Runs scope.protocol ⟨d.program, literals⟩ args ⟨0, [], [].reverse⟩
      (Stmt.executeAll scope [] d.body >>= Outcome.andThen (scope.finish · .none)) := by
    refine Stmt.runsAll d.body generator accepted.wellFormed bodyLoads bodyPlaced ?_
    intro yielded
    exact Machine.Runs.loadConst load isNone
      (runs_giveBack generator (codeAt_singleton.mp ends))
  have enough : d.program.code.size < 0 + (d.program.code.size + 1) := by
    omega
  unfold Machine.call evaluate
  dsimp only
  rw [if_pos length, isScope, protocol]
  refine Eq.trans (runs _ enough) ?_
  refine bind_congr ?_
  intro reached
  cases reached with
  | next yielded => rfl
  | back value => rfl

end Definition

end RecordSynth.Source

namespace RecordSynth

open Source

/-- The compiler is correct. A program that a source text compiles to, called with as many
arguments as it has parameters on any heap, gives the value or the error and leaves the heap that
direct evaluation of the text's definition does, where equal text constants are one allocation and
different ones are not.
-/
theorem Machine.call_eq_evaluate {source : String} {program : Program}
    (compiled : Program.ofText source = .ok program) (literals : Address)
    : ∃ d pool,
        Definition.ofText source = .ok d
        ∧ d.Pools pool literals program.consts.size
        ∧ ∀ (p : Protocol) (args : Array Value), args.size = program.params.size →
            Machine.call p ⟨program, literals⟩ args = d.evaluate p pool args := by
  unfold Program.ofText at compiled
  obtain ⟨d, read, compiles⟩ := bind_eq_ok.mp compiled
  obtain ⟨accepted, rfl⟩ := Program.ofDefinition_eq_ok_iff.mp compiles
  refine ⟨d, d.textPool literals, read, d.pools_textPool literals, ?_⟩
  intro p args length
  exact accepted.call_eq p literals length

/-- Witness: equality over one field, called with two values. -/
theorem Machine.call_eq_evaluate_equality
    : ∃ d pool,
        Definition.ofText (Template.render .equality ["x"]) = .ok d
        ∧ ∀ p : Protocol,
            Machine.call p ⟨(Template.tree .equality ["x"]).program, ⟨0, 0⟩⟩ #[.none, .bool true]
              = d.evaluate p pool #[.none, .bool true] := by
  have fit : Template.Fit .equality ["x"] := ⟨by decide, by decide, nofun⟩
  have free : ∀ field ∈ ["x"], IsFreeWord field := by
    decide
  obtain ⟨d, pool, read, -, same⟩ := Machine.call_eq_evaluate (fit.ofText free) ⟨0, 0⟩
  exact ⟨d, pool, read, fun p => same p #[.none, .bool true] rfl⟩

end RecordSynth
