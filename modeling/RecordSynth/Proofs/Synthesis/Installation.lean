import RecordSynth.Eval.Call
import RecordSynth.Proofs.Eval.Correctness
import RecordSynth.Proofs.Synthesis.Totality

/-! What a synthesized method is. Equipping installs the program of the template's tree over
placeholders with each placeholder bound to a field; but for construction, whose fields may be
called like the receiver, that is the program of the tree over the fields.
-/

namespace RecordSynth

open Synthesis Workshop

/-- Equipping a type over the standard templates installs the method for the behavior, which is
selected and not the user's. The type has `fields` then, those of its ancestors first.
-/
structure Synthesis.Installs (w : Workshop) (selection : Selection) (id : TypeId)
    (behavior : Behavior) (fields : List String) (method : Method) : Prop where
  reached : ∃ region, w.store.Reachable Template.standard region
  equipped : ((equip selection id).outcome w).1 = .ok ()
  chosen : behavior ∈ wanted selection (w.types.get? id)
  fields : w.fieldNames id = fields
  method
    : ((w.after (.equip id selection)).types.get? id).bind (·.ownMethod? behavior) = some method

/-- The method has been synthesized for the behavior, by equipping some type with these fields. -/
def Method.SynthesizedFor (method : Method) (behavior : Behavior) (fields : List String) : Prop :=
  ∃ w selection id, Installs w selection id behavior fields method

/-- The type finds a method that has been synthesized for the behavior with the fields. -/
def TypeTable.Finds (t : TypeTable) (type : TypeId) (behavior : Behavior) (fields : List String)
    : Prop :=
  ∃ method, t.lookup type behavior = some method ∧ method.SynthesizedFor behavior fields

namespace Method.SynthesizedFor

variable {method : Method} {behavior : Behavior} {fields : List String}

/-- Fields are distinct and no more than a behavior binds, or the type would not be equipped. -/
theorem fields_fit (synthesized : method.SynthesizedFor behavior fields)
    : fields.length ≤ maxFields ∧ fields.Nodup := by
  obtain ⟨w, selection, id, installs⟩ := synthesized
  refine ⟨?_, ?_⟩
  · by_contra tooMany
    have many : maxFields < (w.fieldNames id).length := by
      rw [installs.fields]
      exact Nat.lt_of_not_le tooMany
    have equipped := installs.equipped
    rw [equip_of_many selection many] at equipped
    cases equipped
  · exact installs.fields ▸ (w.types.fieldOrder id).nodup_keys

/-- The method runs the program of the placeholders' tree with the fields bound. -/
theorem renamed (synthesized : method.SynthesizedFor behavior fields)
    : ∃ literals,
        method = .compiled ⟨(Template.tree behavior
          (Template.placeholders fields.length)).program.renamed (boundName fields), literals⟩ := by
  obtain ⟨w, selection, id, installs⟩ := synthesized
  obtain ⟨region, reached⟩ := installs.reached
  obtain ⟨requests, ⟨error, isResult⟩ | ⟨methods, isResult, behaviors, binds⟩⟩ :=
    equip_outcome w selection id
  · have equipped := installs.equipped
    rw [isResult] at equipped
    cases equipped
  have own := installs.method
  rw [after, isResult, TypeTable.get?_setMatchArgs, if_pos rfl, TypeTable.get?_attachAll,
    if_pos rfl] at own
  cases isType : w.types.get? id with
  | none =>
      rw [isType] at own
      cases own
  | some ty =>
      rw [isType] at own
      have chosen := installs.chosen
      rw [← behaviors] at chosen
      rcases ty.installed_attachAll methods behavior with ⟨made, member, isLast⟩ | ⟨absent, _⟩
      · obtain rfl : made = method := by
          have isMade := congrArg RecordType.Installed.method? isLast
          exact Option.some.inj (isMade.symm.trans own)
        obtain ⟨artifact, program, present, bound, rfl⟩ := binds _ member
        have compiled := (reached.requestAll requests).faithful _ _ _ present
        rw [(reached.requestAll requests).library_eq, ← fieldNames, installs.fields] at compiled
        rw [← fieldNames, installs.fields,
          TemplateStore.bind_of_compile_standard compiled rfl] at bound
        obtain rfl := Except.ok.inj bound
        refine ⟨artifact.literals, ?_⟩
        rw [← TemplateStore.eq_of_compile_standard compiled]
        rfl
      · exact absurd chosen absent

/-- The fields can stand for those of a template, unless construction has a field called `self`. -/
theorem fit (synthesized : method.SynthesizedFor behavior fields)
    (receiver : behavior ≠ .construct)
    : Template.Fit behavior fields :=
  ⟨synthesized.fields_fit.1, synthesized.fields_fit.2, fun same => absurd same receiver⟩

/-- Other methods than construction run the program of the tree over the fields. -/
theorem tree (synthesized : method.SynthesizedFor behavior fields)
    (receiver : behavior ≠ .construct)
    : ∃ literals, method = .compiled ⟨(Template.tree behavior fields).program, literals⟩ := by
  obtain ⟨literals, isMethod⟩ := synthesized.renamed
  have bound := (synthesized.fit receiver).bind
  obtain ⟨-, -, same⟩ := Program.bind_eq_ok_iff.mp bound
  exact ⟨literals, same ▸ isMethod⟩

/-- Calling a method other than construction is evaluating the tree over the fields. -/
theorem call_eq (synthesized : method.SynthesizedFor behavior fields)
    (receiver : behavior ≠ .construct) (p : Protocol) {args : Array Value}
    (length : args.size = (Template.parameters behavior fields).length)
    : ∃ pool, method.call p args = (Template.tree behavior fields).evaluate p pool args := by
  obtain ⟨literals, rfl⟩ := synthesized.tree receiver
  have sizes : args.size = (Template.tree behavior fields).program.params.size := by
    rw [length, Source.Definition.program, Template.paramNames_tree, List.size_toArray]
  exact ⟨_, (synthesized.fit receiver).accepted.call_eq p literals sizes⟩

end Method.SynthesizedFor

-----------------------------------------------------------------------------------------
-- Types that have been equipped
-----------------------------------------------------------------------------------------

section Equipped

/-- The types of a family after the first type has been equipped with all behaviors. -/
def equippedTypes (names : List String) : TypeTable :=
  ((family names).after (.equip ⟨0⟩ .all)).types

theorem RecordType.name_attachAll (ty : RecordType) (methods : List (Behavior × Method))
    : (ty.attachAll methods).name = ty.name := by
  induction methods generalizing ty with
  | nil => rfl
  | cons entry rest ih => exact ih (ty.attachSynthesized entry.1 entry.2)

/-- The first type has a synthesized method for each behavior, the one that descends from it has
none of its own.
-/
theorem get?_equippedTypes {names : List String} (distinct : names.Nodup)
    (few : names.length ≤ maxFields)
    : (equippedTypes names).get? ⟨1⟩
        = some ⟨"U", some ⟨0⟩, Roster.ofList [], .all none, .none, none⟩
      ∧ ∃ ty : RecordType,
        (equippedTypes names).get? ⟨0⟩ = some ty
        ∧ ty.name = "T"
        ∧ ty.parent = none
        ∧ ∀ behavior, ∃ method, ty.ownMethod? behavior = some method
          ∧ method.SynthesizedFor behavior names := by
  have fields := fieldNames_family distinct
  obtain ⟨methods, requests, isResult, behaviors, -⟩ :=
    equip_of_few (reachable_family names) .all (by rwa [fields])
  let bare : RecordType :=
    ⟨"T", none, Roster.ofList (names.map fun name => ⟨name, "int"⟩), .all none, .none, none⟩
  have isType : (family names).types.get? ⟨0⟩ = some bare := rfl
  have isEquipped : (equippedTypes names).get? ⟨0⟩
      = some ((bare.attachAll methods).setMatchArgs
          ((family names).types.fieldOrder ⟨0⟩).toList) := by
    rw [equippedTypes, after, isResult, TypeTable.get?_setMatchArgs, if_pos rfl,
      TypeTable.get?_attachAll, if_pos rfl, isType]
    rfl
  refine ⟨?_, _, isEquipped, RecordType.name_attachAll bare methods,
    RecordType.parent_attachAll bare methods, ?_⟩
  · rw [equippedTypes, after, isResult, TypeTable.get?_setMatchArgs, if_neg (by decide),
      TypeTable.get?_attachAll, if_neg (by decide)]
    rfl
  intro behavior
  have chosen : behavior ∈ wanted .all ((family names).types.get? ⟨0⟩) := by
    rw [isType, mem_wanted]
    cases behavior <;> exact ⟨rfl, rfl⟩
  rcases bare.installed_attachAll methods behavior with ⟨method, _, isLast⟩ | ⟨absent, _⟩
  · have own : (bare.attachAll methods).ownMethod? behavior = some method :=
      congrArg RecordType.Installed.method? isLast
    refine ⟨method, own, family names, .all, ⟨0⟩, ⟨0, reachable_family names⟩, ?_, chosen,
      fields, ?_⟩
    · rw [isResult]
    · change ((equippedTypes names).get? ⟨0⟩).bind _ = _
      rw [isEquipped]
      exact own
  · rw [behaviors] at absent
    exact absurd chosen absent

/-- Both types find the synthesized methods. -/
theorem synthesizedFor_equippedTypes {names : List String} (distinct : names.Nodup)
    (few : names.length ≤ maxFields) (behavior : Behavior)
    : ∃ method : Method,
        method.SynthesizedFor behavior names
        ∧ (equippedTypes names).lookup ⟨0⟩ behavior = some method
        ∧ (equippedTypes names).lookup ⟨1⟩ behavior = some method := by
  obtain ⟨descends, ty, isType, -, root, methods⟩ := get?_equippedTypes distinct few
  obtain ⟨method, own, synthesized⟩ := methods behavior
  have line : (equippedTypes names).ancestry ⟨0⟩ = [⟨0⟩] := by
    rw [TypeTable.ancestry_of_get?_eq_some isType, root, Option.elim_none]
  have longer : (equippedTypes names).ancestry ⟨1⟩ = [⟨1⟩, ⟨0⟩] := by
    rw [TypeTable.ancestry_of_get?_eq_some descends, Option.elim_some, line]
  have none : ((equippedTypes names).get? ⟨1⟩).bind (·.ownMethod? behavior) = none := by
    rw [descends]
    cases behavior <;> rfl
  have some : ((equippedTypes names).get? ⟨0⟩).bind (·.ownMethod? behavior) = some method := by
    rw [isType]
    exact own
  refine ⟨method, synthesized, ?_, ?_⟩
  · rw [TypeTable.lookup, line, List.findSome?_singleton, some]
  · rw [TypeTable.lookup, longer, List.findSome?_cons, none]
    simpa using some

theorem name_equippedTypes {names : List String} (distinct : names.Nodup)
    (few : names.length ≤ maxFields)
    : (equippedTypes names).name ⟨0⟩ = "T" ∧ (equippedTypes names).name ⟨1⟩ = "U" := by
  obtain ⟨descends, ty, isType, isName, -, -⟩ := get?_equippedTypes distinct few
  unfold TypeTable.name
  rw [descends, isType]
  exact ⟨isName, rfl⟩

end Equipped

end RecordSynth
