import RecordSynth.Proofs.Behavior.Quiet

/-! Reading changes nothing. Of all instructions only a store changes a record, and only
construction has stores. So displaying, comparing, hashing, going through and matching values leave
types and records as they are, however deep the calls that they make are nested, and also where they
fail.
-/

namespace RecordSynth

-----------------------------------------------------------------------------------------
-- Code without stores
-----------------------------------------------------------------------------------------

/-- The instruction assigns to an attribute. -/
def Instr.IsStore : Instr → Prop
  | .storeAttr _ => True
  | _ => False

/-- No instruction of the program assigns to an attribute. -/
def Program.StoresNothing (program : Program) : Prop :=
  ∀ instr ∈ program.code, ¬ instr.IsStore

/-- The method is a program that assigns to no attribute. What a native method does is not known. -/
def Method.StoresNothing : Method → Prop
  | .compiled artifact => artifact.program.StoresNothing
  | .primitive _ => False

namespace Source

mutual

/-- Expressions have no stores, by recursion on the expression. -/
theorem Expr.not_isStore_code (l : Layout) (x : Expr) : ∀ instr ∈ x.code l, ¬ instr.IsStore := by
  cases x with
  | literal range value => simp [Expr.code, Instr.IsStore]
  | var range name => simp [Expr.code, Instr.IsStore]
  | attr range object field =>
      have objectCode := Expr.not_isStore_code l object
      simpa [Expr.code, or_imp, forall_and, Instr.IsStore] using objectCode
  | call range callee calleeRange args =>
      have argsCode := Expr.not_isStore_codeAll l args
      rw [Expr.code]
      split
      · simp [Instr.IsStore]
      · have noStore : ¬ (callInstr callee args.length).IsStore := by
          unfold callInstr
          split <;> exact not_false
        simpa [or_imp, forall_and, noStore] using argsCode
  | tuple range items =>
      have itemsCode := Expr.not_isStore_codeAll l items
      simpa [Expr.code, or_imp, forall_and, Instr.IsStore] using itemsCode
  | compare range op left right =>
      have leftCode := Expr.not_isStore_code l left
      have rightCode := Expr.not_isStore_code l right
      simpa [Expr.code, or_imp, forall_and, Instr.IsStore] using ⟨leftCode, rightCode⟩

/-- Expressions one after the other have no stores. -/
theorem Expr.not_isStore_codeAll (l : Layout) (xs : List Expr)
    : ∀ instr ∈ Expr.codeAll l xs, ¬ instr.IsStore := by
  cases xs with
  | nil => simp [Expr.codeAll]
  | cons x rest =>
      have headCode := Expr.not_isStore_code l x
      have restCode := Expr.not_isStore_codeAll l rest
      simpa [Expr.codeAll, or_imp, forall_and] using ⟨headCode, restCode⟩

end

mutual

/-- The statement has no assignment, also not inside a branch. -/
def Stmt.AssignsNothing : Stmt → Prop
  | .assign _ _ _ _ => False
  | .branch _ _ thenBody elseBody =>
      Stmt.AllAssignNothing thenBody ∧ Stmt.AllAssignNothing elseBody
  | _ => True

/-- None of the statements has an assignment. -/
def Stmt.AllAssignNothing : List Stmt → Prop
  | [] => True
  | s :: ss => s.AssignsNothing ∧ Stmt.AllAssignNothing ss

end

mutual

/-- A statement without assignments has no stores, by recursion on the statement. -/
theorem Stmt.not_isStore_code (l : Layout) (start : Nat) (s : Stmt) (reads : s.AssignsNothing)
    : ∀ instr ∈ s.code l start, ¬ instr.IsStore := by
  cases s with
  | assign range object field value => exact reads.elim
  | giveBack range value =>
      cases value with
      | none => simp [Stmt.code, Instr.IsStore]
      | some value =>
          have valueCode := Expr.not_isStore_code l value
          simpa [Stmt.code, or_imp, forall_and, Instr.IsStore] using valueCode
  | yield range value =>
      have valueCode := Expr.not_isStore_code l value
      simpa [Stmt.code, or_imp, forall_and, Instr.IsStore] using valueCode
  | branch range test thenBody elseBody =>
      obtain ⟨thenReads, elseReads⟩ := reads
      have testCode := Expr.not_isStore_code l test
      have thenCode (start : Nat) := Stmt.not_isStore_codeAll l start thenBody thenReads
      cases elseBody with
      | nil =>
          simpa [Stmt.code, or_imp, forall_and, Instr.IsStore] using ⟨testCode, thenCode _⟩
      | cons first rest =>
          have elseCode (start : Nat) := Stmt.not_isStore_codeAll l start (first :: rest) elseReads
          simpa [Stmt.code, or_imp, forall_and, Instr.IsStore]
            using ⟨testCode, thenCode _, elseCode _⟩
  | discard range value =>
      have valueCode := Expr.not_isStore_code l value
      simpa [Stmt.code, or_imp, forall_and, Instr.IsStore] using valueCode

/-- Statements without assignments have no stores. -/
theorem Stmt.not_isStore_codeAll (l : Layout) (start : Nat) (ss : List Stmt)
    (reads : Stmt.AllAssignNothing ss)
    : ∀ instr ∈ Stmt.codeAll l start ss, ¬ instr.IsStore := by
  cases ss with
  | nil => simp [Stmt.codeAll]
  | cons s rest =>
      obtain ⟨headReads, restReads⟩ := reads
      have headCode := Stmt.not_isStore_code l start s headReads
      have restCode (start : Nat) := Stmt.not_isStore_codeAll l start rest restReads
      simpa [Stmt.codeAll, or_imp, forall_and] using ⟨headCode, restCode _⟩

end

theorem Stmt.allAssignNothing_iff {ss : List Stmt}
    : Stmt.AllAssignNothing ss ↔ ∀ s ∈ ss, s.AssignsNothing := by
  induction ss with
  | nil => simp [Stmt.AllAssignNothing]
  | cons s rest ih => rw [Stmt.AllAssignNothing, ih, List.forall_mem_cons]

/-- The program of a definition without assignments has no stores. -/
theorem Definition.storesNothing_program {d : Definition} (reads : Stmt.AllAssignNothing d.body)
    : d.program.StoresNothing := by
  have bodyCode := Stmt.not_isStore_codeAll d.layout 0 d.body reads
  simpa [Program.StoresNothing, Definition.program, Definition.bodyCode, or_imp, forall_and,
    Instr.IsStore] using bodyCode

end Source

/-- Of the templates, only that of construction assigns. -/
theorem Template.allAssignNothing_body {behavior : Behavior} (reading : behavior ≠ .construct)
    (fields : List String)
    : Source.Stmt.AllAssignNothing (body behavior fields) := by
  cases behavior with
  | construct => exact absurd rfl reading
  | iteration =>
      refine Source.Stmt.allAssignNothing_iff.mpr ?_
      intro s member
      obtain ⟨field, -, rfl⟩ := List.mem_map.mp member
      trivial
  | equality => exact ⟨⟨⟨trivial, trivial⟩, trivial⟩, trivial, trivial⟩
  | display | hashing => exact ⟨trivial, trivial⟩

/-- Of the synthesized methods, only construction stores. -/
theorem Method.SynthesizedFor.storesNothing {method : Method} {behavior : Behavior}
    {fields : List String} (synthesized : method.SynthesizedFor behavior fields)
    (reading : behavior ≠ .construct)
    : method.StoresNothing := by
  obtain ⟨literals, rfl⟩ := synthesized.tree reading
  exact Source.Definition.storesNothing_program (Template.allAssignNothing_body reading fields)

-----------------------------------------------------------------------------------------
-- Calls of methods without stores
-----------------------------------------------------------------------------------------

open Eval

/-- The operations change no type and no record. -/
structure Protocol.Quiet (h : Heap) (p : Protocol) : Prop where
  display : ∀ v, (p.display v).Quiet h True
  equals : ∀ left right, (p.equals left right).Quiet h True
  hash : ∀ v, (p.hash v).Quiet h True

variable {h : Heap} {p : Protocol}

namespace Machine

variable {a : Artifact} {args : Array Value}

theorem quiet_pop (program : Program) (stack : List Value)
    : (pop program stack).Quiet h True := by
  cases stack with
  | nil => exact quiet_fail _
  | cons top rest => exact quiet_pure _

theorem quiet_popMany (program : Program) (count : Nat) (stack : List Value)
    : (popMany program count stack).Quiet h True := by
  unfold popMany
  dsimp only
  split
  · exact quiet_pure _
  · exact quiet_fail _

theorem quiet_nameAt (program : Program) (position : Nat)
    : (nameAt program position).Quiet h True := by
  unfold nameAt
  split
  · exact quiet_pure _
  · exact quiet_fail _

theorem quiet_joinTexts (quiet : p.Quiet h) (text : String) (values : List Value)
    : (joinTexts p text values).Quiet h True := by
  induction values generalizing text with
  | nil => exact quiet_pure text
  | cons value rest ih =>
      cases value with
      | str address part => exact ih (text ++ part)
      | _ => exact (quiet.display _).bind fun part _ => ih (text ++ part)

theorem quiet_callBuiltin (quiet : p.Quiet h) (function : Builtin) (arg : Value)
    : (callBuiltin p function arg).Quiet h True := by
  cases function with
  | type => exact (quiet_ask _).bind fun ref _ => quiet_pure _
  | typename => exact (quiet_ask _).bind fun typeName _ => quiet_newStr typeName
  | repr => exact (quiet.display arg).bind fun text _ => quiet_newStr text
  | hash => exact (quiet.hash arg).bind fun word _ => quiet_pure _

theorem quiet_compare (quiet : p.Quiet h) (op : Comparator) (left right : Value)
    : (compare p op left right).Quiet h True := by
  cases op with
  | equal => exact quiet.equals left right
  | notEqual => exact (quiet.equals left right).bind fun equal _ => quiet_pure _
  | same => exact quiet_pure _

/-- An instruction that is no store changes no record. -/
theorem quiet_step (quiet : p.Quiet h) (frame : Frame) {instr : Instr}
    (noStore : ¬ instr.IsStore)
    : (step p a args frame instr).Quiet h True := by
  cases instr with
  | loadConst i =>
      unfold step
      dsimp only
      split
      · exact quiet_pure _
      · exact quiet_fail _
  | loadParam i =>
      unfold step
      dsimp only
      split
      · exact quiet_pure _
      · exact quiet_fail _
  | loadAttr i =>
      refine (quiet_nameAt a.program i).bind fun name _ => ?_
      refine (quiet_pop a.program frame.stack).bind fun popped _ => ?_
      exact (quiet_getAttr popped.1 name).bind fun value _ => quiet_pure _
  | storeAttr i => exact absurd trivial noStore
  | loadName i =>
      refine (quiet_nameAt a.program i).bind fun name _ => ?_
      exact (quiet_newStr name).bind fun value _ => quiet_pure _
  | buildTuple count =>
      refine (quiet_popMany a.program count frame.stack).bind fun popped _ => ?_
      exact (quiet_newTuple popped.1).bind fun value _ => quiet_pure _
  | buildString count =>
      refine (quiet_popMany a.program count frame.stack).bind fun popped _ => ?_
      refine (quiet_joinTexts quiet "" popped.1).bind fun text _ => ?_
      exact (quiet_newStr text).bind fun value _ => quiet_pure _
  | callBuiltin function =>
      refine (quiet_pop a.program frame.stack).bind fun popped _ => ?_
      exact (quiet_callBuiltin quiet function popped.1).bind fun value _ => quiet_pure _
  | compare op =>
      refine (quiet_pop a.program frame.stack).bind fun popped _ => ?_
      refine (quiet_pop a.program popped.2).bind fun popped' _ => ?_
      exact (quiet_compare quiet op popped'.1 popped.1).bind fun result _ => quiet_pure _
  | jumpIfFalse target | pop | yield =>
      exact (quiet_pop a.program frame.stack).bind fun popped _ => quiet_pure _
  | jump target => exact quiet_pure _
  | giveBack =>
      refine (quiet_pop a.program frame.stack).bind fun popped _ => ?_
      dsimp only
      split
      · exact (quiet_newTuple _).bind fun value _ => quiet_pure _
      · exact quiet_pure _

/-- A run of code without stores changes no record, by induction on the steps. -/
theorem quiet_run (quiet : p.Quiet h) (noStores : a.program.StoresNothing) (frame : Frame)
    (fuel : Nat)
    : (run p a args frame fuel).Quiet h True := by
  induction fuel generalizing frame with
  | zero => exact quiet_exhausted trivial
  | succ fuel ih =>
      unfold run
      split
      · exact quiet_fail _
      · next instr found =>
        have noStore := noStores instr (Array.mem_of_getElem? found)
        refine (quiet_step quiet _ noStore).bind fun progress _ => ?_
        cases progress with
        | running frame => exact ih frame
        | done value => exact quiet_pure value

theorem quiet_call (quiet : p.Quiet h) (noStores : a.program.StoresNothing)
    : (call p a args).Quiet h True := by
  unfold call
  dsimp only
  split
  · exact quiet_run quiet noStores _ _
  · exact quiet_fail _

end Machine

/-- Calling a method without stores changes no record. -/
theorem Method.StoresNothing.quiet_call {method : Method} (noStores : method.StoresNothing)
    (quiet : p.Quiet h) (args : Array Value)
    : (method.call p args).Quiet h True := by
  cases method with
  | compiled artifact => exact Machine.quiet_call quiet noStores
  | primitive operation => exact noStores.elim

-----------------------------------------------------------------------------------------
-- Levels
-----------------------------------------------------------------------------------------

/-- Behaviors for reading that records find store nothing. -/
def Heap.ReadsOnly (h : Heap) : Prop :=
  ∀ id behavior method, behavior ≠ .construct → h.methodOf? id behavior = some method →
    method.StoresNothing

section Reading

variable (readsOnly : h.ReadsOnly)

include readsOnly

theorem Heap.ReadsOnly.quiet_call {behavior : Behavior} {id : RecordId} {method : Method}
    (reading : behavior ≠ .construct) (found : h.methodOf? id behavior = some method)
    (quiet : p.Quiet h) (args : Array Value)
    : (method.call p args).Quiet h True :=
  (readsOnly id behavior method reading found).quiet_call quiet args

namespace Protocol.Quiet

variable (quiet : p.Quiet h)

include quiet

theorem compare (left right : Value) : (p.compare left right).Quiet h True := by
  refine quiet_compare (fun u w _ _ => quiet.equals u w) ?_
  exact fun id method _ found => readsOnly.quiet_call (by decide) found quiet _

theorem iterate (v : Value) : (p.iterate v).Quiet h True := by
  refine quiet_iterate ?_
  exact fun id method _ found => readsOnly.quiet_call (by decide) found quiet _

/-- One more layer over operations that change no record changes none. -/
theorem layer [Natives] : p.layer.Quiet h := by
  refine ⟨?_, ?_, ?_⟩
  · intro v
    refine quiet_displayLayer (fun u _ => quiet.display u) ?_
    exact fun id method _ found => readsOnly.quiet_call (by decide) found quiet _
  · intro left right
    exact quiet_equalsLayer (quiet.compare readsOnly left right)
      (quiet.compare readsOnly right left)
  · intro v
    refine quiet_hashLayer (fun u _ => quiet.hash u) ?_
    exact fun id method _ found => readsOnly.quiet_call (by decide) found quiet _

end Protocol.Quiet

/-- No level changes a record, by induction on the levels. -/
theorem Protocol.quiet_level [Natives] (n : Nat) : (level n).Quiet h := by
  induction n with
  | zero =>
      exact ⟨fun _ => quiet_exhausted trivial, fun _ _ => quiet_exhausted trivial,
        fun _ => quiet_exhausted trivial⟩
  | succ n ih => exact ih.layer readsOnly

end Reading

-----------------------------------------------------------------------------------------
-- Records with synthesized behaviors
-----------------------------------------------------------------------------------------

/-- Every behavior that a record finds has been synthesized. -/
def Heap.FindsSynthesized (h : Heap) : Prop :=
  ∀ id behavior method, h.methodOf? id behavior = some method →
    ∃ fields, method.SynthesizedFor behavior fields

theorem Heap.FindsSynthesized.readsOnly (synthesized : h.FindsSynthesized) : h.ReadsOnly := by
  intro id behavior method reading found
  obtain ⟨fields, isSynthesized⟩ := synthesized id behavior method found
  exact isSynthesized.storesNothing reading

/-- Let the behaviors that records find be synthesized, as far as there are any. Then displaying,
comparing, hashing, going through and matching values changes no type and no attribute of a record,
with any number of levels, whether it gives a value or stops.
-/
theorem reading_keeps_records [Natives] (synthesized : h.FindsSynthesized) (n : Nat) (v w : Value)
    (type : TypeId) (count : Nat)
    : h.SameRecords (((Protocol.level n).display v).outcome h).2
      ∧ h.SameRecords (((Protocol.level n).compare v w).outcome h).2
      ∧ h.SameRecords (((Protocol.level n).equals v w).outcome h).2
      ∧ h.SameRecords (((Protocol.level n).hash v).outcome h).2
      ∧ h.SameRecords (((Protocol.level n).iterate v).outcome h).2
      ∧ h.SameRecords ((Protocol.matchPositional v type count).outcome h).2 := by
  have readsOnly := synthesized.readsOnly
  have quiet := Protocol.quiet_level readsOnly n
  have kept {α : Type} {x : Eval α} (isQuiet : x.Quiet h True) : h.SameRecords (x.outcome h).2 :=
    (isQuiet h (.refl h)).1
  refine ⟨kept (quiet.display v), kept (quiet.compare readsOnly v w), kept (quiet.equals v w),
    kept (quiet.hash v), kept (quiet.iterate readsOnly v), ?_⟩
  exact kept (Protocol.quiet_matchPositional v type count)

/-- Records of types that have been equipped find synthesized behaviors only. -/
theorem findsSynthesized_of_equippedTypes {names : List String} (distinct : names.Nodup)
    (few : names.length ≤ maxFields) (types : h.types = equippedTypes names)
    (known : ∀ record ∈ h.records, record.type = ⟨0⟩ ∨ record.type = ⟨1⟩)
    : h.FindsSynthesized := by
  intro id behavior method found
  obtain ⟨type, isType, isMethod⟩ := Option.bind_eq_some_iff.mp found
  obtain ⟨record, isRecord, rfl⟩ := Option.map_eq_some_iff.mp isType
  obtain ⟨synthesized, isSynthesized, own, inherited⟩ :=
    synthesizedFor_equippedTypes distinct few behavior
  rw [types] at isMethod
  refine ⟨names, ?_⟩
  rcases known record (Array.mem_of_getElem? isRecord) with isType | isType
  · rw [isType, own] at isMethod
    exact Option.some.inj isMethod ▸ isSynthesized
  · rw [isType, inherited] at isMethod
    exact Option.some.inj isMethod ▸ isSynthesized

section ThreeRecords

open Natives

/-- Witness: two records that differ, and one without the fields that its behaviors read. -/
theorem reading_keeps_three_records
    : comparedRecords.SameRecords
        ((Protocol.full.equals (.record ⟨0⟩) (.record ⟨1⟩)).outcome comparedRecords).2
      ∧ comparedRecords.SameRecords
        ((Protocol.full.display (.record ⟨2⟩)).outcome comparedRecords).2
      ∧ comparedRecords.SameRecords
        ((Protocol.full.hash (.record ⟨2⟩)).outcome comparedRecords).2 := by
  have synthesized : comparedRecords.FindsSynthesized := by
    refine findsSynthesized_of_equippedTypes (by decide : ["self", "_0"].Nodup) (by decide) rfl ?_
    simp [comparedRecords]
  have kept (v w : Value) :=
    reading_keeps_records synthesized Protocol.depthLimit v w ⟨0⟩ 1
  obtain ⟨-, -, equals, -⟩ := kept (.record ⟨0⟩) (.record ⟨1⟩)
  obtain ⟨display, -, -, hash, -⟩ := kept (.record ⟨2⟩) (.record ⟨2⟩)
  exact ⟨equals, display, hash⟩

end ThreeRecords

end RecordSynth
