import RecordSynth.Proofs.Synthesis.Totality

/-! Failures of equipping. What a store answers to a request does not depend on what else has been
asked of it, so the first selected behavior that has no template, or one that cannot be bound,
decides whether and how equipping a type fails. Then no type is changed.
-/

namespace RecordSynth

namespace TemplateStore

/-- The program that a request is answered with: that of the artifact in the store, or what the
template compiles to.
-/
def programFor (s : TemplateStore) (behavior : Behavior) (arity : Nat)
    : Except TemplateError Program :=
  match s.get? behavior arity with
  | some artifact => .ok artifact.program
  | none => compile s.library behavior arity

variable {s : TemplateStore} {behavior : Behavior} {arity : Nat}

theorem programFor_of_present {artifact : Artifact}
    (present : s.get? behavior arity = some artifact)
    : s.programFor behavior arity = .ok artifact.program := by
  rw [programFor, present]

theorem programFor_of_absent (absent : s.get? behavior arity = none)
    : s.programFor behavior arity = compile s.library behavior arity := by
  rw [programFor, absent]

theorem programFor_empty (library : TemplateLibrary) (region : Nat) (behavior : Behavior)
    (arity : Nat)
    : (empty library region).programFor behavior arity = compile library behavior arity :=
  programFor_of_absent (get?_empty library region)

theorem map_program_request (s : TemplateStore) (behavior : Behavior) (arity : Nat)
    : (s.request behavior arity).1.map Artifact.program = s.programFor behavior arity := by
  rcases request_cases s behavior arity
    with ⟨artifact, present, isResult⟩ | ⟨error, absent, fails, isResult⟩
      | ⟨program, absent, compiled, isResult⟩
  · rw [isResult, programFor_of_present present]
    rfl
  · rw [isResult, programFor_of_absent absent, fails]
    rfl
  · rw [isResult, programFor_of_absent absent, compiled]
    rfl

/-- A request changes no answer: what it adds is what it would be compiled to once more. -/
theorem programFor_request (s : TemplateStore) (behavior : Behavior) (arity : Nat)
    (behavior' : Behavior) (arity' : Nat)
    : (s.request behavior arity).2.programFor behavior' arity' = s.programFor behavior' arity' := by
  rcases request_cases s behavior arity
    with ⟨_, _, isResult⟩ | ⟨_, _, _, isResult⟩ | ⟨program, absent, compiled, isResult⟩
  · rw [isResult]
  · rw [isResult]
  · have kept := get?_keep s behavior arity program behavior' arity'
    rw [isResult]
    split at kept
    · next same =>
      obtain ⟨rfl, rfl⟩ := Prod.mk.inj same
      rw [programFor_of_present kept, programFor_of_absent absent, compiled]
      rfl
    · rw [programFor, kept]
      rfl

/-- Requests change no answer, by induction on them. -/
theorem programFor_requestAll (s : TemplateStore) (requests : List (Behavior × Nat))
    (behavior : Behavior) (arity : Nat)
    : (s.requestAll requests).programFor behavior arity = s.programFor behavior arity := by
  induction requests generalizing s with
  | nil => rfl
  | cons r rest ih =>
      exact (ih (s.request r.1 r.2).2).trans (programFor_request s r.1 r.2 behavior arity)

theorem request_fails_iff {error : TemplateError}
    : (s.request behavior arity).1 = .error error ↔ s.programFor behavior arity = .error error := by
  rw [← map_program_request]
  cases (s.request behavior arity).1 with
  | ok artifact => exact ⟨nofun, nofun⟩
  | error error' => simp [Except.map]

end TemplateStore

namespace Synthesis

-----------------------------------------------------------------------------------------
-- The first obstacle decides
-----------------------------------------------------------------------------------------

/-- What keeps a behavior of a type from being synthesized: it has no template for as many fields,
or the template cannot be bound to them.
-/
def obstacle? (s : TemplateStore) (typeName : String) (fields : List String)
    (behavior : Behavior) : Option SynthesisError :=
  match s.programFor behavior fields.length with
  | .error error => some (.template error)
  | .ok program =>
    match program.bind fields with
    | .error error => some (.binding typeName error)
    | .ok _ => none

/-- What keeps a type from being equipped: too many fields, or the obstacle of the first behavior
that has one.
-/
def firstObstacle? (w : Workshop) (selection : Selection) (id : TypeId)
    : Option SynthesisError :=
  if maxFields < (w.fieldNames id).length then
    some (.tooManyFields (w.types.name id) (w.fieldNames id).length)
  else
    (wanted selection (w.types.get? id)).findSome?
      (obstacle? w.store (w.types.name id) (w.fieldNames id))

variable {w : Workshop}

theorem obstacle?_requestAll (s : TemplateStore) (requests : List (Behavior × Nat))
    : obstacle? (s.requestAll requests) = obstacle? s := by
  funext typeName fields behavior
  rw [obstacle?, TemplateStore.programFor_requestAll, obstacle?]

/-- A method cannot be made exactly if there is an obstacle. -/
theorem methodFor_fails_iff {typeName : String} {fields : List String} {behavior : Behavior}
    {error : SynthesisError}
    : ((methodFor typeName fields behavior).outcome w).1 = .error error
      ↔ obstacle? w.store typeName fields behavior = some error := by
  have answer := w.store.map_program_request behavior fields.length
  unfold methodFor
  rw [outcome_bind, outcome_artifactFor, obstacle?, ← answer]
  cases (w.store.request behavior fields.length).1 with
  | error failed => simp [Except.mapError, Except.map]
  | ok artifact =>
      dsimp only [Except.mapError, Except.map]
      cases artifact.program.bind fields with
      | error failed => simp
      | ok program => simp

/-- Making a method asks for one template, and fails with the obstacle or makes it without one. -/
theorem methodFor_cases (w : Workshop) (typeName : String) (fields : List String)
    (behavior : Behavior)
    : let w' := { w with store := w.store.requestAll [(behavior, fields.length)] }
      (∃ error, obstacle? w.store typeName fields behavior = some error
        ∧ (methodFor typeName fields behavior).outcome w = (.error error, w'))
      ∨ ∃ method, obstacle? w.store typeName fields behavior = none
        ∧ (methodFor typeName fields behavior).outcome w = (.ok method, w') := by
  intro w'
  obtain ⟨result, isResult, -⟩ := methodFor_outcome w typeName fields behavior
  cases result with
  | error error => exact Or.inl ⟨error, methodFor_fails_iff.mp (by rw [isResult]), isResult⟩
  | ok method =>
      refine Or.inr ⟨method, ?_, isResult⟩
      cases isObstacle : obstacle? w.store typeName fields behavior with
      | none => rfl
      | some error =>
          have fails := methodFor_fails_iff.mpr isObstacle
          rw [isResult] at fails
          cases fails

/-- Methods cannot be made exactly if one of the behaviors has an obstacle, and the first one
decides, by induction on the behaviors.
-/
theorem methodsFor_fails_iff {typeName : String} {fields : List String}
    {done : List (Behavior × Method)} {behaviors : List Behavior} {error : SynthesisError}
    : ((methodsFor typeName fields done behaviors).outcome w).1 = .error error
      ↔ behaviors.findSome? (obstacle? w.store typeName fields) = some error := by
  induction behaviors generalizing w done with
  | nil => exact ⟨nofun, nofun⟩
  | cons behavior rest ih =>
      unfold methodsFor
      rw [outcome_bind, List.findSome?_cons]
      rcases methodFor_cases w typeName fields behavior
        with ⟨failed, isObstacle, isResult⟩ | ⟨method, clear, isResult⟩
      · rw [isResult, isObstacle]
        simp
      · -- The next behaviors are asked of a store that answers as the one before.
        rw [isResult, clear, ← obstacle?_requestAll w.store [(behavior, fields.length)]]
        exact ih

/-- A type cannot be equipped exactly if there is an obstacle, and the first one is the error. -/
theorem equip_error_iff (selection : Selection) (id : TypeId) (error : SynthesisError)
    : ((equip selection id).outcome w).1 = .error error
      ↔ firstObstacle? w selection id = some error := by
  rw [firstObstacle?]
  split
  · next many =>
    rw [equip_of_many selection many]
    simp
  · next few =>
    rw [Workshop.fieldNames, List.length_map] at few
    rw [outcome_equip, if_neg few, ← @methodsFor_fails_iff w _ _ []]
    change _ ↔ ((methodsFor (w.types.name id) ((w.types.fieldOrder id).toList.map Field.name) []
      (wanted selection (w.types.get? id))).outcome w).1 = .error error
    rcases (methodsFor _ _ [] _).outcome w with ⟨_ | methods, w'⟩
    · simp
    · simp

-----------------------------------------------------------------------------------------
-- A failure changes no type
-----------------------------------------------------------------------------------------

/-- Whatever keeps a type from being equipped, at whichever behavior, the types stay as they were:
that type with its methods, its recorded and its declared fields, and all others. The error is the
first obstacle. The store keeps what has been compiled on the way.
-/
theorem types_of_equip_error {selection : Selection} {id : TypeId} {error : SynthesisError}
    (fails : ((equip selection id).outcome w).1 = .error error)
    : firstObstacle? w selection id = some error
      ∧ ((equip selection id).outcome w).2.types = w.types
      ∧ ∃ requests, ((equip selection id).outcome w).2.store = w.store.requestAll requests := by
  refine ⟨(equip_error_iff selection id error).mp fails, ?_⟩
  obtain ⟨requests, ⟨_, isResult⟩ | ⟨_, isResult, -⟩⟩ := equip_outcome w selection id
  · rw [isResult]
    exact ⟨rfl, requests, rfl⟩
  · rw [isResult] at fails
    cases fails

/-- What has failed fails once more and in the same way, as nothing that decides it has changed. -/
theorem equip_error_again {selection : Selection} {id : TypeId} {error : SynthesisError}
    (fails : ((equip selection id).outcome w).1 = .error error)
    : ((equip selection id).outcome ((equip selection id).outcome w).2).1 = .error error := by
  rw [equip_error_iff] at fails ⊢
  obtain ⟨requests, ⟨_, isResult⟩ | ⟨_, isResult, -⟩⟩ := equip_outcome w selection id
  · rw [isResult, ← fails]
    unfold firstObstacle?
    rw [obstacle?_requestAll]
    rfl
  · rw [← equip_error_iff, isResult] at fails
    cases fails

section Misfit

open Workshop

/-- The standard templates, but for a hashing of two fields whatever the number of fields. -/
def misfit : TemplateLibrary :=
  .overriding [⟨.hashing, none, Template.standard .hashing 2⟩] none

theorem compile_misfit
    : TemplateStore.compile misfit .hashing 1 = .error (.arity .hashing 1 2) := by
  obtain ⟨compiled, names⟩ := TemplateStore.compile_eq_ok_iff.mp
    (TemplateStore.compile_standard .hashing (by decide : 2 ≤ maxFields))
  have source : misfit .hashing 1 = Template.standard .hashing 2 := rfl
  unfold TemplateStore.compile
  rw [source, compiled]
  dsimp only
  rw [Program.arity_eq_ok_iff.mpr names]
  rfl

/-- No behavior but hashing has an obstacle. -/
theorem obstacle?_misfit {s : TemplateStore} {typeName field : String} {behavior : Behavior}
    (answer : s.programFor behavior 1 = TemplateStore.compile misfit behavior 1)
    (other : behavior ≠ .hashing)
    : obstacle? s typeName [field] behavior = none := by
  have source : misfit behavior 1 = Template.standard behavior 1 := by
    cases behavior with
    | hashing => exact absurd rfl other
    | _ => rfl
  have compiled := TemplateStore.compile_standard behavior (by decide : 1 ≤ maxFields)
  have bound := TemplateStore.bind_of_compile_standard compiled (rfl : [field].length = 1)
  rw [TemplateStore.compile, ← source] at compiled
  unfold obstacle?
  rw [List.length_singleton, answer, TemplateStore.compile, compiled]
  dsimp only
  rw [bound]

/-- A type of one field, whose user has defined how it is displayed, is equipped with construction.
-/
def constructed : List Edit :=
  [.declareType "T" none [⟨"a", "int"⟩] [(.display, .primitive (.display 0))],
    .equip ⟨0⟩ (.ofList [.construct])]

/-- Construction is synthesized, and the display is still its user's. -/
theorem constructed_type
    : ∃ ty,
        ((new misfit 0).replay constructed).types.get? ⟨0⟩ = some ty
        ∧ ty.parent = none
        ∧ ty.declared.keys = ["a"]
        ∧ wanted .all (some ty) = [.construct, .equality, .iteration, .hashing] := by
  let w := (new misfit 0).after
    (.declareType "T" none [⟨"a", "int"⟩] [(.display, .primitive (.display 0))])
  let ty : RecordType := ⟨"T", none, Roster.ofList [⟨"a", "int"⟩],
    (PerBehavior.all none).set .display (some (.primitive (.display 0))), .none, none⟩
  have isType : w.types.get? ⟨0⟩ = some ty := rfl
  have keys : ty.declared.keys = ["a"] := by
    simp [ty, Roster.ofList, Roster.keys_insert]
  have fields : w.fieldNames ⟨0⟩ = ["a"] := (fieldNames_of_root isType rfl).trans keys
  have clear : obstacle? w.store (w.types.name ⟨0⟩) ["a"] .construct = none :=
    obstacle?_misfit (TemplateStore.programFor_empty misfit 0 .construct 1) (by decide)
  have equipped : ((equip (.ofList [.construct]) ⟨0⟩).outcome w).1 = .ok () := by
    cases result : ((equip (.ofList [.construct]) ⟨0⟩).outcome w).1 with
    | ok _ => rfl
    | error error =>
        rw [equip_error_iff, firstObstacle?, fields, isType, if_neg (by decide)] at result
        change [Behavior.construct].findSome? _ = _ at result
        rw [List.findSome?_cons, clear] at result
        cases result
  obtain ⟨methods, behaviors, isEquipped⟩ := get?_after_equip equipped
  rw [isType] at behaviors isEquipped
  obtain ⟨⟨_, method⟩, rfl, rfl⟩ := List.map_eq_singleton_iff.mp behaviors
  exact ⟨_, isEquipped, rfl, keys, rfl⟩

/-- Witness: equipping the type once more, with all behaviors, fails at the last of them. -/
theorem types_of_equip_error_constructed
    : let w := (new misfit 0).replay constructed
      ((equip .all ⟨0⟩).outcome w).1 = .error (.template (.arity .hashing 1 2))
      ∧ ((equip .all ⟨0⟩).outcome w).2.types = w.types := by
  intro w
  obtain ⟨ty, isType, root, keys, isWanted⟩ := constructed_type
  have answer : ∀ behavior,
      w.store.programFor behavior 1 = TemplateStore.compile misfit behavior 1 := by
    intro behavior
    obtain ⟨requests, isStore⟩ := (new misfit 0).store_replay constructed
    rw [isStore, TemplateStore.programFor_requestAll]
    exact TemplateStore.programFor_empty _ _ _ _
  have hashing : obstacle? w.store (w.types.name ⟨0⟩) ["a"] .hashing
      = some (.template (.arity .hashing 1 2)) := by
    rw [obstacle?, List.length_singleton, answer, compile_misfit]
  have fails : ((equip .all ⟨0⟩).outcome w).1 = .error (.template (.arity .hashing 1 2)) := by
    rw [equip_error_iff, firstObstacle?, fieldNames_of_root isType root, keys,
      if_neg (by decide), isType, isWanted]
    simp [obstacle?_misfit (answer _), hashing]
  exact ⟨fails, (types_of_equip_error fails).2.1⟩

end Misfit

end Synthesis

end RecordSynth
