import RecordSynth.Eval.Level
import RecordSynth.Eval.Record
import RecordSynth.Proofs.Eval.Outcome
import RecordSynth.Proofs.Synthesis.Installation

/-! Synthesized construction. It gives a new record the arguments as its fields, whatever the
fields are called, and leaves all records that there were before alone.
-/

namespace RecordSynth

-----------------------------------------------------------------------------------------
-- Records under construction
-----------------------------------------------------------------------------------------

namespace Heap

/-- The types, and the records that `h` has, are the same in `h'`. -/
structure Keeps (h h' : Heap) : Prop where
  types : h'.types = h.types
  records : ∀ i, i < h.records.size → h'.records[i]? = h.records[i]?

/-- Sets attributes of a record, one after the other. -/
def setAttrs (h : Heap) (id : RecordId) (stores : List (String × Value)) : Heap :=
  stores.foldl (fun h store => h.setAttr id store.1 store.2) h

/-- Since `start`, a record of the type has been made, `done` are its attributes, and nothing else
has been changed.
-/
structure Building (start : Heap) (id : RecordId) (type : TypeId) (done : List (String × Value))
    (h : Heap) : Prop where
  fresh : start.typeOf? id = none
  type : h.typeOf? id = some type
  attrs : ∀ name, h.getAttr? id name = done.lookup name
  kept : start.Keeps h

variable {start h : Heap} {id : RecordId} {type : TypeId} {done : List (String × Value)}

theorem typeOf?_eq_none_iff : h.typeOf? id = none ↔ h.records.size ≤ id.index := by
  simp [typeOf?]

@[simp] theorem typeOf?_setAttr (h : Heap) (id : RecordId) (name : String) (value : Value)
    (other : RecordId)
    : (h.setAttr id name value).typeOf? other = h.typeOf? other := by
  simp only [typeOf?, setAttr, Array.getElem?_modify]
  split
  · rw [Option.map_map]
    rfl
  · rfl

theorem building_newRecord (h : Heap) (type : TypeId)
    : h.Building (h.newRecord type).1 type [] (h.newRecord type).2 := by
  refine ⟨?_, ?_, ?_, ⟨rfl, ?_⟩⟩
  · exact typeOf?_eq_none_iff.mpr (Nat.le_refl _)
  · simp [newRecord, typeOf?]
  · intro name
    simp [newRecord, getAttr?]
  · intro i inHeap
    simp [newRecord, Array.getElem?_push, Nat.ne_of_lt inHeap]

/-- Another attribute may be set. -/
theorem Building.setAttr (building : start.Building id type done h) {name : String}
    (absent : name ∉ done.map Prod.fst) (value : Value)
    : start.Building id type (done ++ [(name, value)]) (h.setAttr id name value) := by
  have behind := typeOf?_eq_none_iff.mp building.fresh
  have present : id.index < h.records.size := by
    refine Nat.lt_of_not_le ?_
    intro out
    have isType := building.type
    rw [typeOf?_eq_none_iff.mpr out] at isType
    cases isType
  refine ⟨building.fresh, ?_, ?_, ⟨building.kept.types, ?_⟩⟩
  · rw [typeOf?_setAttr, building.type]
  · intro attr
    have unset : done.lookup name = none := by
      rw [List.lookup_eq_none_iff]
      intro entry member
      refine bne_iff_ne.mpr ?_
      rintro rfl
      exact absent (List.mem_map_of_mem member)
    rw [getAttr?_setAttr present, building.attrs, List.lookup_append, List.lookup_cons]
    by_cases same : name = attr
    · simp [← same, unset]
    · have other : (attr == name) = false := beq_false_of_ne (Ne.symm same)
      simp [same, other]
  · intro i inHeap
    have other : id.index ≠ i := by
      omega
    rw [← building.kept.records i inHeap]
    simp [Heap.setAttr, Array.getElem?_modify, other]

/-- Attributes with distinct names may be set, by induction on them. -/
theorem Building.setAttrs (building : start.Building id type done h)
    {stores : List (String × Value)} (distinct : ((done ++ stores).map Prod.fst).Nodup)
    : start.Building id type (done ++ stores) (h.setAttrs id stores) := by
  induction stores generalizing done h with
  | nil => simpa [Heap.setAttrs] using building
  | cons store rest ih =>
      have both : ((done ++ [store] ++ rest).map Prod.fst).Nodup := by
        simpa using distinct
      have absent : store.1 ∉ done.map Prod.fst := by
        rw [List.append_assoc, List.map_append, List.nodup_append] at both
        intro member
        exact both.2.2 _ member _ List.mem_cons_self rfl
      have more := ih (building.setAttr absent store.2) both
      rwa [List.append_assoc] at more

end Heap

-----------------------------------------------------------------------------------------
-- The code of construction
-----------------------------------------------------------------------------------------

section Assignments

open Source Template Machine

variable {p : Protocol} {a : Artifact} {args : Array Value} {l : Layout} {id : RecordId}

/-- The code of construction stores each parameter's value under what the parameter is called in
the table of names, by induction on the parameters. Nothing is said of how names are spelled.
-/
theorem runs_assignments {slots : List String} {bindings : List (String × Value)}
    {called : String → String} {start : Nat} {outcome : Eval Value}
    (receiver : args[l.slot "self"]? = some (.record id))
    (values : ∀ slot ∈ slots,
      ∃ value, args[l.slot slot]? = some value ∧ bindings.lookup slot = some value)
    (names : ∀ slot ∈ slots, a.program.names[l.name slot]? = some (called slot))
    (placed : CodeAt a.program start (Stmt.codeAll l start (body .construct slots)))
    (rest : Runs p a args
      ⟨start + (Stmt.codeAll l start (body .construct slots)).length, [], []⟩ outcome)
    : Runs p a args ⟨start, [], []⟩
        (Eval.change (·.setAttrs id
            (slots.map fun slot => (called slot, (bindings.lookup slot).getD .none)))
          >>= fun _ => outcome) := by
  induction slots generalizing start with
  | nil =>
      have nothing : Eval.change (·.setAttrs id []) = pure () := rfl
      simpa [nothing, body, Stmt.codeAll] using rest
  | cons slot more ih =>
      have code : Stmt.codeAll l start (body .construct (slot :: more))
          = .loadParam (l.slot slot) :: .loadParam (l.slot "self") :: .storeAttr (l.name slot)
            :: Stmt.codeAll l (start + 3) (body .construct more) := by
        simp [body, Stmt.codeAll, Stmt.code, named, Expr.code]
      rw [code] at placed rest
      obtain ⟨load, placed⟩ := codeAt_cons.mp placed
      obtain ⟨loadSelf, placed⟩ := codeAt_cons.mp placed
      obtain ⟨store, placed⟩ := codeAt_cons.mp placed
      obtain ⟨⟨value, isArg, isValue⟩, values⟩ := List.forall_mem_cons.mp values
      obtain ⟨name, names⟩ := List.forall_mem_cons.mp names
      have behind := ih values names placed (by
        simpa [Nat.add_assoc, Nat.add_comm 3] using rest)
      have stored : Runs p a args ⟨start + 1 + 1, [.record id, value], []⟩
          (Eval.setAttr (.record id) (called slot) value >>= fun _ => _) :=
        Runs.storeAttr store name behind
      rw [List.map_cons, isValue]
      exact Runs.loadParam load isArg (Runs.loadParam loadSelf receiver stored)

end Assignments

-----------------------------------------------------------------------------------------
-- Calls of construction
-----------------------------------------------------------------------------------------

section Calls

open Source Template

variable {fields : List String}

/-- Distinct names, each looked up among the names with their values, have these values. -/
theorem map_lookup_zip {names : List String} (distinct : names.Nodup) {values : List Value}
    (length : values.length = names.length)
    : (names.map fun name => (names.zip values).lookup name) = values.map some := by
  refine List.ext_getElem (by simp [length]) ?_
  intro i inNames inValues
  rw [List.length_map] at inNames inValues
  obtain ⟨value, atPlace, isValue⟩ := Definition.lookup_zip (List.getElem_mem inNames) length
  rw [distinct.idxOf_getElem i inNames, List.getElem?_eq_getElem inValues] at atPlace
  rw [List.getElem_map, List.getElem_map, isValue, atPlace]

/-- Each slot's field, with the value that the slot has, is the field with its argument. -/
theorem map_stores {slots : List String} {args : List Value} (distinct : ("self" :: slots).Nodup)
    (bound : slots.map (boundName fields) = fields) (length : args.length = slots.length)
    (receiver : Value)
    : (slots.map fun slot => (boundName fields slot,
        ((("self" :: slots).zip (receiver :: args)).lookup slot).getD .none))
      = fields.zip args := by
  have lookups := map_lookup_zip distinct (show (receiver :: args).length = _ by simp [length])
  have found := congrArg (List.map (Option.getD · Value.none)) (List.cons.inj lookups).2
  rw [← List.zip_map', bound]
  refine congrArg fields.zip ?_
  simpa [Function.comp_def] using found

/-- The parameters of construction are the receiver and the fields, also if a field is called like
the receiver.
-/
theorem params_renamed_construct (few : fields.length ≤ placeholderLimit)
    : ((tree .construct (placeholders fields.length)).program.renamed
        (boundName fields)).params.toList = "self" :: fields := by
  have self : boundName fields "self" = "self" :=
    boundName_of_plain fields (placeholderIndex?_reserved (by decide))
  have bound : (placeholders fields.length).map (boundName fields) = fields :=
    map_boundName_placeholders few
  simp [Program.renamed, Definition.program, paramNames_tree, parameters, self, bound]

/-- The program of construction with as many arguments as fields sets the fields to them. -/
theorem runs_construct (few : fields.length ≤ maxFields) (p : Protocol) (literals : Address)
    (id : RecordId) {args : List Value} (length : args.length = fields.length)
    : Machine.Runs p ⟨(tree .construct (placeholders fields.length)).program.renamed
          (boundName fields), literals⟩ (.record id :: args).toArray ⟨0, [], []⟩
        (Eval.change (·.setAttrs id (fields.zip args)) >>= fun _ => return .none) := by
  have bound : (placeholders fields.length).map (boundName fields) = fields :=
    map_boundName_placeholders (few.trans (by decide))
  have count : args.length = (placeholders fields.length).length := by
    simpa [placeholders] using length
  have fit := fit_placeholders .construct few
  generalize placeholders fields.length = slots at *
  have loads := (tree .construct slots).loads_program p literals
    (show (Value.record id :: args).toArray.size = (tree .construct slots).paramNames.length by
      simp [paramNames_tree, parameters, count])
  have bindings : ((tree .construct slots).scope p ((tree .construct slots).textPool literals)
      (Value.record id :: args).toArray).bindings
        = ("self" :: slots).zip (.record id :: args) :=
    congrArg (List.zip · (Value.record id :: args)) (paramNames_tree .construct slots)
  have slotValues := loads.slot
  rw [paramNames_tree, bindings] at slotValues
  obtain ⟨⟨value, isReceiver, isRecord⟩, values⟩ := List.forall_mem_cons.mp slotValues
  obtain rfl : Value.record id = value := by
    simpa using isRecord
  have names : ∀ slot ∈ slots,
      ((tree .construct slots).program.renamed (boundName fields)).names[
        (tree .construct slots).layout.name slot]? = some (boundName fields slot) := by
    intro slot member
    have isName := loads.name slot (by rwa [nameTable_tree .construct fit.distinct])
    dsimp only at isName
    simp [Program.renamed, isName]
  -- Renaming leaves the code as it is.
  have code : CodeAt ((tree .construct slots).program.renamed (boundName fields)) 0 _ :=
    (tree .construct slots).codeAt_program
  obtain ⟨bodyPlaced, closing⟩ := codeAt_append.mp code
  obtain ⟨load, ends⟩ := codeAt_cons.mp closing
  have isNone := loads.const .none (mem_enterAll.mpr (Or.inr (by simp)))
  rw [← map_stores fit.parameters.1 bound count (.record id)]
  refine runs_assignments isReceiver values names bodyPlaced ?_
  exact Machine.Runs.loadConst load isNone (Machine.Runs.giveBack (codeAt_singleton.mp ends))

end Calls

namespace Method.SynthesizedFor

variable {method : Method} {fields : List String}

/-- A call of synthesized construction with as many arguments as it has fields sets the fields to
the arguments. With another number of arguments it fails before it sets any.
-/
theorem call_construct (synthesized : method.SynthesizedFor .construct fields) (p : Protocol)
    (id : RecordId) (args : List Value)
    : method.call p (.record id :: args).toArray
      = if args.length = fields.length then
          Eval.change (·.setAttrs id (fields.zip args)) >>= fun _ => return .none
        else
          Eval.fail (.argumentCount "construct" (fields.length + 1) (args.length + 1)
            (fields.drop args.length)) := by
  obtain ⟨few, distinct⟩ := synthesized.fields_fit
  obtain ⟨literals, rfl⟩ := synthesized.renamed
  have params := params_renamed_construct (few.trans (by decide : maxFields ≤ placeholderLimit))
  have size := congrArg List.length params
  rw [Array.length_toList, List.length_cons] at size
  unfold Method.call Machine.call
  dsimp only
  rw [size, params]
  simp only [List.size_toArray, List.length_cons, Nat.add_right_cancel_iff, List.drop_succ_cons]
  split
  · next length =>
    refine runs_construct few p literals id length _ ?_
    dsimp only
    omega
  · rfl

end Method.SynthesizedFor

-----------------------------------------------------------------------------------------
-- Construction
-----------------------------------------------------------------------------------------

namespace Protocol

variable {method : Method} {fields : List String} {h : Heap} {type : TypeId}

/-- Making a record is making it without attributes and calling the construct behavior on it. -/
theorem outcome_construct (found : h.types.lookup type .construct = some method) (p : Protocol)
    (args : List Value)
    : (p.construct type args.toArray).outcome h
      = (method.call p (.record (h.newRecord type).1 :: args).toArray >>= fun _ =>
          return .record (h.newRecord type).1).outcome (h.newRecord type).2 := by
  have looked : (h.newRecord type).2.types.lookup type .construct = some method := found
  unfold construct
  rw [Eval.outcome_bind_ok (Eval.outcome_modifyGet _),
    Eval.outcome_bind_ok (Eval.outcome_ask_of_eq looked)]
  simp

/-- Construction with a value for each field makes a record and sets the fields, in their order. -/
theorem building_of_construct (synthesized : method.SynthesizedFor .construct fields)
    (found : h.types.lookup type .construct = some method) (p : Protocol) {args : List Value}
    (length : args.length = fields.length)
    : ∃ id h',
        (p.construct type args.toArray).outcome h = (.ok (.record id), h')
        ∧ h.Building id type (fields.zip args) h' := by
  have keys : (([] ++ fields.zip args).map Prod.fst).Nodup := by
    rw [List.nil_append, List.map_fst_zip (Nat.le_of_eq length.symm)]
    exact synthesized.fields_fit.2
  have building := (h.building_newRecord type).setAttrs keys
  rw [outcome_construct found, synthesized.call_construct, if_pos length]
  exact ⟨_, _, rfl, building⟩

/-- The construction of a type whose construct behavior has been synthesized: with a value for each
field, it gives a new record that has these attributes and no others; with more or fewer values, it
fails and tells which fields have none. Records that there were before are never changed.
-/
theorem construct_of_synthesized (synthesized : method.SynthesizedFor .construct fields)
    (found : h.types.lookup type .construct = some method) (p : Protocol) (args : List Value)
    : (args.length = fields.length →
        ∃ id h',
          (p.construct type args.toArray).outcome h = (.ok (.record id), h')
          ∧ h.typeOf? id = none
          ∧ h'.typeOf? id = some type
          ∧ fields.map (h'.getAttr? id) = args.map some
          ∧ (∀ name, name ∉ fields → h'.getAttr? id name = none)
          ∧ h.Keeps h')
      ∧ (args.length ≠ fields.length →
        ∃ h',
          (p.construct type args.toArray).outcome h
            = (.error (.error (.argumentCount "construct" (fields.length + 1) (args.length + 1)
                (fields.drop args.length))), h')
          ∧ h.Keeps h') := by
  refine ⟨?_, ?_⟩
  · intro length
    obtain ⟨id, h', isResult, building⟩ := building_of_construct synthesized found p length
    refine ⟨id, h', isResult, building.fresh, building.type, ?_, ?_, building.kept⟩
    · rw [← map_lookup_zip synthesized.fields_fit.2 length]
      exact List.map_congr_left fun name _ => building.attrs name
    · intro name absent
      rw [building.attrs, List.lookup_eq_none_iff]
      intro entry member
      refine bne_iff_ne.mpr ?_
      rintro rfl
      exact absent (List.of_mem_zip member).1
  · intro length
    rw [outcome_construct found, synthesized.call_construct, if_neg length]
    exact ⟨_, rfl, (h.building_newRecord type).kept⟩

/-- Types whose fields are called like the receiver and like a placeholder, and a record. -/
def selfFields : Heap where
  types := equippedTypes ["self", "_0"]
  records := #[⟨⟨0⟩, ∅⟩]
  nextOffset := 0

/-- Witness: a value for each of the fields, and one value too few. -/
theorem construct_of_synthesized_self
    : (∃ id h',
        (full.construct ⟨0⟩ #[.int 1, .none]).outcome selfFields = (.ok (.record id), h')
        ∧ selfFields.typeOf? id = none
        ∧ h'.getAttr? id "self" = some (.int 1)
        ∧ h'.getAttr? id "_0" = some .none
        ∧ selfFields.Keeps h')
      ∧ ∃ h',
        (full.construct ⟨0⟩ #[.int 1]).outcome selfFields
          = (.error (.error (.argumentCount "construct" 3 2 ["_0"])), h')
        ∧ selfFields.Keeps h' := by
  obtain ⟨method, synthesized, own, -⟩ :=
    synthesizedFor_equippedTypes (by decide : ["self", "_0"].Nodup) (by decide) .construct
  have found : selfFields.types.lookup ⟨0⟩ .construct = some method := own
  obtain ⟨made, -⟩ := construct_of_synthesized synthesized found full [.int 1, .none]
  obtain ⟨-, failed⟩ := construct_of_synthesized synthesized found full [.int 1]
  obtain ⟨id, h', isResult, fresh, -, attrs, -, kept⟩ := made rfl
  simp only [List.map_cons, List.map_nil, List.cons.injEq, and_true] at attrs
  exact ⟨⟨id, h', isResult, fresh, attrs.1, attrs.2, kept⟩, failed (by decide)⟩

end Protocol

end RecordSynth
