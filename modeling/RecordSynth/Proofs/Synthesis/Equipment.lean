import RecordSynth.Proofs.Synthesis.Publication
import RecordSynth.Synthesis.Workshop

/-! What equipping a type does. It asks the store for templates and, if all of them can be bound,
installs the bound methods and records the field order; otherwise the types stay as they are.
-/

namespace RecordSynth

namespace TemplateStore

/-- The method is the program of a template in the store, bound to the names. -/
def Binds (s : TemplateStore) (behavior : Behavior) (names : List String) (method : Method)
    : Prop :=
  ∃ artifact program,
    s.get? behavior names.length = some artifact
    ∧ artifact.program.bind names = .ok program
    ∧ method = .compiled (artifact.withProgram program)

/-- What is in the store stays there, by induction on the requests. -/
theorem get?_requestAll_of_present {s : TemplateStore} {behavior : Behavior} {arity : Nat}
    {artifact : Artifact} (present : s.get? behavior arity = some artifact)
    (requests : List (Behavior × Nat))
    : (s.requestAll requests).get? behavior arity = some artifact := by
  induction requests generalizing s with
  | nil => exact present
  | cons r rest ih => exact ih (get?_request_of_present present)

theorem Binds.requestAll {s : TemplateStore} {behavior : Behavior} {names : List String}
    {method : Method} (binds : s.Binds behavior names method) (requests : List (Behavior × Nat))
    : (s.requestAll requests).Binds behavior names method := by
  obtain ⟨artifact, program, present, bound, isMethod⟩ := binds
  exact ⟨artifact, program, get?_requestAll_of_present present requests, bound, isMethod⟩

theorem requestAll_append (s : TemplateStore) (front back : List (Behavior × Nat))
    : s.requestAll (front ++ back) = (s.requestAll front).requestAll back :=
  List.foldl_append

end TemplateStore

namespace Synthesis

/-- What a step of synthesis gives, and the workshop after it. -/
def outcome {α : Type} (x : Synthesis α) (w : Workshop) : Except SynthesisError α × Workshop :=
  x.run.run w

section Steps

variable {α β : Type} {w : Workshop}

@[simp] theorem outcome_pure (a : α) : (pure a : Synthesis α).outcome w = (.ok a, w) :=
  rfl

@[simp] theorem outcome_throw (error : SynthesisError)
    : (throw error : Synthesis α).outcome w = (.error error, w) :=
  rfl

@[simp] theorem outcome_get : (get : Synthesis Workshop).outcome w = (.ok w, w) :=
  rfl

@[simp] theorem outcome_modifyGet (f : Workshop → α × Workshop)
    : (modifyGet f : Synthesis α).outcome w = (.ok (f w).1, (f w).2) :=
  rfl

theorem outcome_bind (x : Synthesis α) (f : α → Synthesis β)
    : (x >>= f).outcome w
      = match x.outcome w with
        | (.ok a, w') => (f a).outcome w'
        | (.error error, w') => (.error error, w') := by
  unfold outcome
  rw [ExceptT.run_bind, StateT.run_bind]
  rcases x.run.run w with ⟨_ | a, w'⟩
  · rfl
  · rfl

/-- Asking the store changes the store only, and gives what the store gives. -/
theorem outcome_artifactFor (behavior : Behavior) (arity : Nat)
    : (artifactFor behavior arity).outcome w
      = ((w.store.request behavior arity).1.mapError .template,
          { w with store := (w.store.request behavior arity).2 }) := by
  unfold artifactFor
  rw [outcome_bind, outcome_modifyGet]
  cases (w.store.request behavior arity).1 with
  | ok artifact => rfl
  | error error => rfl

end Steps

-----------------------------------------------------------------------------------------
-- Making methods and installing them
-----------------------------------------------------------------------------------------

/-- A method is made of the template in the store, or the request or the binding fails. -/
theorem methodFor_outcome (w : Workshop) (typeName : String) (fields : List String)
    (behavior : Behavior)
    : ∃ result,
        (methodFor typeName fields behavior).outcome w
          = (result, { w with store := (w.store.request behavior fields.length).2 })
        ∧ ∀ method, result = .ok method →
          (w.store.request behavior fields.length).2.Binds behavior fields method := by
  unfold methodFor
  rw [outcome_bind, outcome_artifactFor]
  cases given : (w.store.request behavior fields.length).1 with
  | error error => exact ⟨_, rfl, nofun⟩
  | ok artifact =>
      dsimp only [Except.mapError]
      cases bound : artifact.program.bind fields with
      | error error => exact ⟨_, rfl, nofun⟩
      | ok program =>
          refine ⟨_, rfl, ?_⟩
          rintro method ⟨⟩
          exact ⟨artifact, program, TemplateStore.get?_of_request given, bound, rfl⟩

/-- Methods are made one after the other, by induction on the behaviors. -/
theorem methodsFor_outcome (w : Workshop) (typeName : String) (fields : List String)
    (done : List (Behavior × Method)) (behaviors : List Behavior)
    : ∃ result requests,
        (methodsFor typeName fields done behaviors).outcome w
          = (result, { w with store := w.store.requestAll requests })
        ∧ ∀ methods, result = .ok methods → ∃ made,
          methods = done.reverse ++ made
          ∧ made.map Prod.fst = behaviors
          ∧ ∀ entry ∈ made, (w.store.requestAll requests).Binds entry.1 fields entry.2 := by
  induction behaviors generalizing w done with
  | nil =>
      refine ⟨.ok done.reverse, [], rfl, ?_⟩
      rintro methods ⟨⟩
      exact ⟨[], by simp, rfl, nofun⟩
  | cons behavior rest ih =>
      obtain ⟨result, isResult, binds⟩ := methodFor_outcome w typeName fields behavior
      unfold methodsFor
      rw [outcome_bind, isResult]
      cases result with
      | error error => exact ⟨.error error, [(behavior, fields.length)], rfl, nofun⟩
      | ok method =>
          dsimp only
          -- The methods made before are bound to artifacts that later requests keep.
          obtain ⟨final, requests, isFinal, made⟩ :=
            ih { w with store := (w.store.request behavior fields.length).2 }
              ((behavior, method) :: done)
          refine ⟨final, (behavior, fields.length) :: requests, isFinal, ?_⟩
          intro methods isMethods
          obtain ⟨more, whole, behaviors, bound⟩ := made methods isMethods
          refine ⟨(behavior, method) :: more, by simp [whole], by simp [behaviors], ?_⟩
          intro entry member
          rcases List.mem_cons.mp member with rfl | later
          · exact (binds method rfl).requestAll requests
          · exact bound entry later

/-- Equipping checks the number of fields, makes the methods, and installs them together. -/
theorem outcome_equip (w : Workshop) (selection : Selection) (id : TypeId)
    : (equip selection id).outcome w
      = if maxFields < (w.types.fieldOrder id).toList.length then
          (.error (.tooManyFields (w.types.name id) (w.types.fieldOrder id).toList.length), w)
        else
          match (methodsFor (w.types.name id) ((w.types.fieldOrder id).toList.map Field.name) []
              (wanted selection (w.types.get? id))).outcome w with
          | (.ok methods, w') =>
            (.ok (), ⟨(w'.types.attachAll id methods).setMatchArgs id
              (w.types.fieldOrder id).toList, w'.store⟩)
          | (.error error, w') => (.error error, w') := by
  unfold equip
  rw [outcome_bind, outcome_get]
  dsimp only
  split
  · rfl
  · rw [outcome_bind]
    rcases (methodsFor _ _ _ _).outcome w with ⟨_ | methods, w'⟩
    · rfl
    · rfl

/-- Equipping a type fails and leaves the types as they were, or it installs bound methods for the
selected behaviors that the user has not defined, and records the field order.
-/
theorem equip_outcome (w : Workshop) (selection : Selection) (id : TypeId)
    : ∃ requests,
        (∃ error, (equip selection id).outcome w
          = (.error error, { w with store := w.store.requestAll requests }))
        ∨ ∃ methods,
          (equip selection id).outcome w
            = (.ok (), ⟨(w.types.attachAll id methods).setMatchArgs id
                (w.types.fieldOrder id).toList, w.store.requestAll requests⟩)
          ∧ methods.map Prod.fst = wanted selection (w.types.get? id)
          ∧ ∀ entry ∈ methods, (w.store.requestAll requests).Binds entry.1
              ((w.types.fieldOrder id).toList.map Field.name) entry.2 := by
  rw [outcome_equip]
  split
  · exact ⟨[], Or.inl ⟨_, rfl⟩⟩
  · obtain ⟨result, requests, isResult, made⟩ := methodsFor_outcome w (w.types.name id)
      ((w.types.fieldOrder id).toList.map Field.name) [] (wanted selection (w.types.get? id))
    rw [isResult]
    cases result with
    | error error => exact ⟨requests, Or.inl ⟨error, rfl⟩⟩
    | ok methods =>
        obtain ⟨more, whole, behaviors, binds⟩ := made methods rfl
        have same : methods = more := whole
        subst same
        exact ⟨requests, Or.inr ⟨methods, rfl, behaviors, binds⟩⟩

-----------------------------------------------------------------------------------------
-- Equipping over the standard templates does not fail
-----------------------------------------------------------------------------------------

section Standard

theorem methodFor_standard {w : Workshop} (standard : w.store.library = Template.standard)
    (faithful : w.store.Faithful) (typeName : String) {fields : List String}
    (few : fields.length ≤ maxFields) (behavior : Behavior)
    : ∃ method, ((methodFor typeName fields behavior).outcome w).1 = .ok method := by
  obtain ⟨artifact, given⟩ := TemplateStore.request_standard standard behavior few
  have compiled := faithful.request behavior fields.length _ _ _
    (TemplateStore.get?_of_request given)
  rw [TemplateStore.library_request, standard] at compiled
  have binds := TemplateStore.bind_of_compile_standard compiled rfl
  unfold methodFor
  rw [outcome_bind, outcome_artifactFor, given]
  dsimp only [Except.mapError]
  rw [binds]
  exact ⟨_, rfl⟩

/-- Over the standard templates all methods can be made, by induction on the behaviors. -/
theorem methodsFor_standard {w : Workshop} (standard : w.store.library = Template.standard)
    (faithful : w.store.Faithful) (typeName : String) {fields : List String}
    (few : fields.length ≤ maxFields) (done : List (Behavior × Method))
    (behaviors : List Behavior)
    : ∃ methods, ((methodsFor typeName fields done behaviors).outcome w).1 = .ok methods := by
  induction behaviors generalizing w done with
  | nil => exact ⟨done.reverse, rfl⟩
  | cons behavior rest ih =>
      obtain ⟨result, isResult, _⟩ := methodFor_outcome w typeName fields behavior
      obtain ⟨method, made⟩ := methodFor_standard standard faithful typeName few behavior
      rw [isResult] at made
      have isMethod : result = .ok method := made
      unfold methodsFor
      rw [outcome_bind, isResult, isMethod]
      dsimp only
      exact ih ((TemplateStore.library_request _ _ _).trans standard) (faithful.request _ _) _

/-- Over the standard templates, types with as many fields as a behavior binds are equipped. -/
theorem equip_standard {w : Workshop} (standard : w.store.library = Template.standard)
    (faithful : w.store.Faithful) (selection : Selection) {id : TypeId}
    (few : (w.types.fieldOrder id).toList.length ≤ maxFields)
    : ((equip selection id).outcome w).1 = .ok () := by
  rw [outcome_equip, if_neg (Nat.not_lt.mpr few)]
  have fewNames : ((w.types.fieldOrder id).toList.map Field.name).length ≤ maxFields := by
    rwa [List.length_map]
  obtain ⟨methods, made⟩ := methodsFor_standard standard faithful (w.types.name id) fewNames []
    (wanted selection (w.types.get? id))
  rcases isResult : (methodsFor (w.types.name id) ((w.types.fieldOrder id).toList.map Field.name)
      [] (wanted selection (w.types.get? id))).outcome w with ⟨_ | methods, w'⟩
  · rw [isResult] at made
    cases made
  · rfl

end Standard

end Synthesis

end RecordSynth
