import RecordSynth.Proofs.Synthesis.Equipment

/-! Histories of a workshop: types are made, get fields and methods, and are equipped, in any
order. A synthesized method is bound to the fields that its type had when it was last equipped
with a selection of that behavior.
-/

namespace RecordSynth

/-- What is done to the types of a workshop. -/
inductive Edit where
  | declareType (name : String) (parent : Option TypeId) (fields : List Field)
      (methods : List (Behavior × Method))
  | declareField (id : TypeId) (field : Field)
  | attach (id : TypeId) (behavior : Behavior) (method : Method)
  | equip (id : TypeId) (selection : Selection)

namespace Workshop

/-- A workshop without types and artifacts. -/
def new (library : TemplateLibrary) (region : Nat) : Workshop :=
  ⟨.empty, .empty library region⟩

/-- The workshop after an edit. A type that cannot be equipped is left as it was. -/
def after (w : Workshop) : Edit → Workshop
  | .declareType name parent fields methods =>
    { w with types := (w.types.declareType name parent fields methods).2 }
  | .declareField id field => { w with types := w.types.declareField id field }
  | .attach id behavior method => { w with types := w.types.attach id behavior method }
  | .equip id selection => ((Synthesis.equip selection id).outcome w).2

/-- The workshop after the edits of a history, in order. -/
def replay (w : Workshop) (history : List Edit) : Workshop :=
  history.foldl after w

/-- Whether the type itself has a synthesized method for the behavior. -/
def isSynthesized (w : Workshop) (id : TypeId) (behavior : Behavior) : Bool :=
  (w.types.get? id).any (·.isSynthesized behavior)

/-- The names of a type's fields, those of its ancestors first. -/
def fieldNames (w : Workshop) (id : TypeId) : List String :=
  (w.types.fieldOrder id).toList.map Field.name

/-- The type's method for the behavior runs the program of the template for as many names, bound
to the names.
-/
def Carries (w : Workshop) (id : TypeId) (behavior : Behavior) (names : List String) : Prop :=
  ∃ artifact code,
    w.store.get? behavior names.length = some artifact
    ∧ (w.types.get? id).bind (·.ownMethod? behavior) = some (.compiled code)
    ∧ artifact.program.bind names = .ok code.program

/-- The names that an edit binds a behavior of a type to: if it equips the type, does not fail and
has the behavior selected, the names of the fields.
-/
def boundBy (w : Workshop) (id : TypeId) (behavior : Behavior) : Edit → Option (List String)
  | .equip other selection =>
    match ((Synthesis.equip selection other).outcome w).1 with
    | .ok _ =>
      if other = id ∧ selection.contains behavior then some (w.fieldNames id) else none
    | .error _ => none
  | _ => none

/-- The names that a history last binds a behavior of a type to, after `known`. -/
def lastBound (w : Workshop) (id : TypeId) (behavior : Behavior) (known : Option (List String))
    : List Edit → Option (List String)
  | [] => known
  | edit :: rest =>
    (w.after edit).lastBound id behavior ((w.boundBy id behavior edit).or known) rest

end Workshop

-----------------------------------------------------------------------------------------
-- What edits do to the table of types
-----------------------------------------------------------------------------------------

namespace RecordType

/-- What a type itself holds for a behavior: a method or none, and the flag. -/
structure Installed where
  method? : Option Method
  isSynthesized : Bool

/-- What the type itself holds for the behavior, from its two tables. -/
def installed (ty : RecordType) (b : Behavior) : Installed :=
  ⟨ty.ownMethod? b, ty.isSynthesized b⟩

theorem installed_bare (name : String) (parent : Option TypeId) (declared : Fields) (b : Behavior)
    : (RecordType.mk name parent declared (.all none) .none none).installed b
      = ⟨none, false⟩ := by
  cases b <;> rfl

theorem installed_attach (ty : RecordType) (b : Behavior) (method : Method) (b' : Behavior)
    : (ty.attach b method).installed b'
      = if b = b' then ⟨some method, false⟩ else ty.installed b' := by
  unfold installed ownMethod? isSynthesized attach
  rw [PerBehavior.get_set, Selection.contains_erase]
  split
  · next same => simp [same]
  · next other => simp [other]

theorem installed_attachSynthesized (ty : RecordType) (b : Behavior) (method : Method)
    (b' : Behavior)
    : (ty.attachSynthesized b method).installed b'
      = if b = b' then ⟨some method, true⟩ else ty.installed b' := by
  unfold installed ownMethod? isSynthesized attachSynthesized
  rw [PerBehavior.get_set, Selection.contains_insert]
  split
  · next same => simp [same]
  · next other => simp [other]

/-- Users' methods are installed as such, by induction on them. -/
theorem installed_attachUser (ty : RecordType) (methods : List (Behavior × Method)) (b : Behavior)
    : (∃ method, (ty.attachUser methods).installed b = ⟨some method, false⟩)
      ∨ (ty.attachUser methods).installed b = ty.installed b := by
  induction methods generalizing ty with
  | nil => exact Or.inr rfl
  | cons entry rest ih =>
      rcases ih (ty.attach entry.1 entry.2) with isUser | kept
      · exact Or.inl isUser
      · rw [installed_attach] at kept
        split at kept
        · exact Or.inl ⟨entry.2, kept⟩
        · exact Or.inr kept

/-- Synthesized methods are installed for their behaviors and for no other, by induction on them.
-/
theorem installed_attachAll (ty : RecordType) (methods : List (Behavior × Method)) (b : Behavior)
    : (∃ method, (b, method) ∈ methods
        ∧ (ty.attachAll methods).installed b = ⟨some method, true⟩)
      ∨ (b ∉ methods.map Prod.fst ∧ (ty.attachAll methods).installed b = ty.installed b) := by
  induction methods generalizing ty with
  | nil => exact Or.inr ⟨List.not_mem_nil, rfl⟩
  | cons entry rest ih =>
      rcases ih (ty.attachSynthesized entry.1 entry.2) with ⟨method, later, isLast⟩ | ⟨absent, kept⟩
      · exact Or.inl ⟨method, List.mem_cons_of_mem entry later, isLast⟩
      · rw [installed_attachSynthesized] at kept
        split at kept
        · next same =>
          subst same
          exact Or.inl ⟨entry.2, List.mem_cons_self, kept⟩
        · next other =>
          refine Or.inr ⟨?_, kept⟩
          rw [List.map_cons, List.mem_cons]
          rintro (rfl | inRest)
          · exact other rfl
          · exact absent inRest

end RecordType

namespace TypeTable

/-- A new type is at the end of the table, and the others are where they were. -/
theorem get?_declareType (t : TypeTable) (name : String) (parent : Option TypeId)
    (fields : List Field) (methods : List (Behavior × Method)) (id : TypeId)
    : (∃ added : RecordType,
        (t.declareType name parent fields methods).2.get? id = some added
        ∧ ∀ b, added.isSynthesized b = false)
      ∨ (t.declareType name parent fields methods).2.get? id = t.get? id := by
  unfold declareType add get?
  dsimp only
  rw [Array.getElem?_push]
  split
  · refine Or.inl ⟨_, rfl, ?_⟩
    intro b
    rcases RecordType.installed_attachUser ⟨name, parent.filter (·.index < t.entries.size),
      Roster.ofList fields, .all none, .none, none⟩ methods b with ⟨method, isUser⟩ | kept
    · exact congrArg RecordType.Installed.isSynthesized isUser
    · rw [RecordType.installed_bare] at kept
      exact congrArg RecordType.Installed.isSynthesized kept
  · exact Or.inr rfl

variable (t : TypeTable) (id other : TypeId)

theorem get?_declareField (field : Field)
    : (t.declareField id field).get? other
      = if id = other then (t.get? other).map (·.declare field) else t.get? other :=
  get?_modify t id _ _ other

theorem get?_attach (b : Behavior) (method : Method)
    : (t.attach id b method).get? other
      = if id = other then (t.get? other).map (·.attach b method) else t.get? other :=
  get?_modify t id _ _ other

theorem get?_attachAll (methods : List (Behavior × Method))
    : (t.attachAll id methods).get? other
      = if id = other then (t.get? other).map (·.attachAll methods) else t.get? other :=
  get?_modify t id _ _ other

theorem get?_setMatchArgs (fields : List Field)
    : (t.setMatchArgs id fields).get? other
      = if id = other then (t.get? other).map (·.setMatchArgs fields) else t.get? other :=
  get?_modify t id _ _ other

end TypeTable

namespace Workshop

variable {w : Workshop} {id : TypeId} {behavior : Behavior}

-----------------------------------------------------------------------------------------
-- What one edit does to a method
-----------------------------------------------------------------------------------------

/-- What is installed on the type itself for the behavior, if there is the type. -/
def installed? (w : Workshop) (id : TypeId) (behavior : Behavior)
    : Option RecordType.Installed :=
  (w.types.get? id).map (·.installed behavior)

theorem isSynthesized_eq (w : Workshop) (id : TypeId) (behavior : Behavior)
    : w.isSynthesized id behavior = (w.installed? id behavior).any (·.isSynthesized) := by
  unfold isSynthesized installed?
  cases w.types.get? id with
  | none => rfl
  | some ty => rfl

theorem ownMethod?_eq (w : Workshop) (id : TypeId) (behavior : Behavior)
    : (w.types.get? id).bind (·.ownMethod? behavior)
      = (w.installed? id behavior).bind (·.method?) := by
  unfold installed?
  cases w.types.get? id with
  | none => rfl
  | some ty => rfl

/-- Edits only add to the store. -/
theorem store_after (w : Workshop) (edit : Edit)
    : ∃ requests, (w.after edit).store = w.store.requestAll requests := by
  cases edit with
  | declareType name parent fields methods => exact ⟨[], rfl⟩
  | declareField other field => exact ⟨[], rfl⟩
  | attach other b method => exact ⟨[], rfl⟩
  | equip other selection =>
      obtain ⟨requests, ⟨error, isResult⟩ | ⟨methods, isResult, _⟩⟩ :=
        Synthesis.equip_outcome w selection other
      · exact ⟨requests, by rw [after, isResult]⟩
      · exact ⟨requests, by rw [after, isResult]⟩

theorem mem_wanted {selection : Selection} {ty : RecordType}
    : behavior ∈ Synthesis.wanted selection (some ty)
      ↔ selection.contains behavior = true ∧ ty.userDefines behavior = false := by
  rw [Synthesis.wanted, List.mem_filter, Selection.mem_toList]
  simp

/-- What equipping makes of a method of the type. A selected behavior that is not made anew is one
that the user has defined.
-/
theorem installed?_equip {selection : Selection} {store : TemplateStore}
    {methods : List (Behavior × Method)}
    (isResult : (Synthesis.equip selection id).outcome w
      = (.ok (), ⟨(w.types.attachAll id methods).setMatchArgs id
          (w.types.fieldOrder id).toList, store⟩))
    (behaviors : methods.map Prod.fst = Synthesis.wanted selection (w.types.get? id))
    (binds : ∀ entry ∈ methods, store.Binds entry.1 (w.fieldNames id) entry.2)
    : (w.after (.equip id selection)).isSynthesized id behavior = false
      ∨ (w.boundBy id behavior (.equip id selection) = none
        ∧ (w.after (.equip id selection)).installed? id behavior = w.installed? id behavior)
      ∨ ∃ method,
        w.boundBy id behavior (.equip id selection) = some (w.fieldNames id)
        ∧ (w.after (.equip id selection)).installed? id behavior = some ⟨some method, true⟩
        ∧ (w.after (.equip id selection)).store.Binds behavior (w.fieldNames id) method := by
  have installed : (w.after (.equip id selection)).installed? id behavior
      = (w.types.get? id).map fun ty => (ty.attachAll methods).installed behavior := by
    rw [installed?, after, isResult, TypeTable.get?_setMatchArgs, if_pos rfl,
      TypeTable.get?_attachAll, if_pos rfl, Option.map_map, Option.map_map]
    rfl
  have bound : w.boundBy id behavior (.equip id selection)
      = if selection.contains behavior then some (w.fieldNames id) else none := by
    rw [boundBy, isResult]
    simp
  rw [isSynthesized_eq, installed, bound]
  cases isType : w.types.get? id with
  | none => exact Or.inl rfl
  | some ty =>
      rw [isType] at behaviors
      rw [Option.map_some]
      rcases ty.installed_attachAll methods behavior with ⟨method, member, isLast⟩ | ⟨absent, kept⟩
      · have isWanted : behavior ∈ Synthesis.wanted selection (some ty) :=
          behaviors ▸ List.mem_map_of_mem member
        refine Or.inr (Or.inr ⟨method, if_pos (mem_wanted.mp isWanted).1, by rw [isLast], ?_⟩)
        rw [after, isResult]
        exact binds _ member
      · rw [kept]
        by_cases selected : selection.contains behavior = true
        -- It was left out although it is selected, so it is the user's.
        · refine Or.inl ?_
          rw [behaviors, mem_wanted] at absent
          have userDefines : ty.userDefines behavior = true := by
            simpa [selected] using absent
          rw [RecordType.userDefines, Bool.and_eq_true, Bool.not_eq_true'] at userDefines
          exact userDefines.2
        · refine Or.inr (Or.inl ⟨if_neg selected, ?_⟩)
          rw [installed?, isType, Option.map_some]

/-- What an edit makes of a method: afterwards it is not synthesized; or it is as it was, and
nothing is bound; or it is bound to the fields that the type has.
-/
theorem installed?_after (w : Workshop) (edit : Edit) (id : TypeId) (behavior : Behavior)
    : (w.after edit).isSynthesized id behavior = false
      ∨ (w.boundBy id behavior edit = none
        ∧ (w.after edit).installed? id behavior = w.installed? id behavior)
      ∨ ∃ method,
        w.boundBy id behavior edit = some (w.fieldNames id)
        ∧ (w.after edit).installed? id behavior = some ⟨some method, true⟩
        ∧ (w.after edit).store.Binds behavior (w.fieldNames id) method := by
  cases edit with
  | declareType name parent fields methods =>
      rcases w.types.get?_declareType name parent fields methods id
        with ⟨added, isAdded, isUser⟩ | kept
      · exact Or.inl (by rw [isSynthesized, after, isAdded, Option.any_some, isUser])
      · exact Or.inr (Or.inl ⟨rfl, by rw [installed?, after, kept, installed?]⟩)
  | declareField other field =>
      refine Or.inr (Or.inl ⟨rfl, ?_⟩)
      unfold installed? after
      rw [TypeTable.get?_declareField]
      split
      · rw [Option.map_map]
        rfl
      · rfl
  | attach other b method =>
      by_cases same : other = id ∧ b = behavior
      · obtain ⟨rfl, rfl⟩ := same
        refine Or.inl ?_
        rw [isSynthesized_eq, installed?, after, TypeTable.get?_attach, if_pos rfl,
          Option.map_map]
        cases w.types.get? other with
        | none => rfl
        | some ty =>
            rw [Option.map_some, Function.comp_apply, RecordType.installed_attach, if_pos rfl]
            rfl
      · refine Or.inr (Or.inl ⟨rfl, ?_⟩)
        unfold installed? after
        rw [TypeTable.get?_attach]
        split
        · next isType =>
          have different : b ≠ behavior := fun isBehavior => same ⟨isType, isBehavior⟩
          rw [Option.map_map]
          refine congrArg (Option.map · _) (funext fun ty => ?_)
          exact (ty.installed_attach b method behavior).trans (if_neg different)
        · rfl
  | equip other selection =>
      obtain ⟨requests, ⟨error, isResult⟩ | ⟨methods, isResult, behaviors, binds⟩⟩ :=
        Synthesis.equip_outcome w selection other
      · refine Or.inr (Or.inl ⟨?_, ?_⟩)
        · rw [boundBy, isResult]
        · rw [after, isResult]
          rfl
      by_cases isType : other = id
      · subst isType
        exact installed?_equip isResult behaviors binds
      · refine Or.inr (Or.inl ⟨?_, ?_⟩)
        · rw [boundBy, isResult]
          exact if_neg (fun both => isType both.1)
        · rw [installed?, after, isResult, TypeTable.get?_setMatchArgs, if_neg isType,
            TypeTable.get?_attachAll, if_neg isType, installed?]

-----------------------------------------------------------------------------------------
-- What all edits together do to it
-----------------------------------------------------------------------------------------

/-- Every synthesized method carries a program that is bound to the known names. -/
def Bound (w : Workshop) (known : TypeId → Behavior → Option (List String)) : Prop :=
  ∀ id behavior, w.isSynthesized id behavior = true →
    ∃ names, known id behavior = some names ∧ w.Carries id behavior names

theorem Binds.carries {names : List String} {method : Method}
    (binds : w.store.Binds behavior names method)
    (installed : w.installed? id behavior = some ⟨some method, true⟩)
    : w.Carries id behavior names := by
  obtain ⟨artifact, program, present, bound, rfl⟩ := binds
  refine ⟨artifact, artifact.withProgram program, present, ?_, bound⟩
  rw [ownMethod?_eq, installed, Option.bind_some]

/-- A method that is left as it was carries the same program, since the store keeps artifacts. -/
theorem Carries.kept {w' : Workshop} {names : List String}
    (carries : w.Carries id behavior names)
    (installed : w'.installed? id behavior = w.installed? id behavior)
    (grown : ∃ requests, w'.store = w.store.requestAll requests)
    : w'.Carries id behavior names := by
  obtain ⟨artifact, code, present, own, bound⟩ := carries
  obtain ⟨requests, isStore⟩ := grown
  refine ⟨artifact, code, ?_, ?_, bound⟩
  · rw [isStore]
    exact TemplateStore.get?_requestAll_of_present present requests
  · rw [ownMethod?_eq, installed, ← ownMethod?_eq]
    exact own

/-- Each edit keeps synthesized methods bound to what is known after it. -/
theorem Bound.after {known : TypeId → Behavior → Option (List String)} (bound : w.Bound known)
    (edit : Edit)
    : (w.after edit).Bound
        (fun id behavior => (w.boundBy id behavior edit).or (known id behavior)) := by
  intro id behavior synthesized
  rcases installed?_after w edit id behavior
    with isUser | ⟨nothing, installed⟩ | ⟨method, isBound, installed, binds⟩
  · rw [isUser] at synthesized
    cases synthesized
  · rw [isSynthesized_eq, installed, ← isSynthesized_eq] at synthesized
    obtain ⟨names, isKnown, carries⟩ := bound id behavior synthesized
    refine ⟨names, ?_, carries.kept installed (store_after w edit)⟩
    dsimp only
    rw [nothing, Option.none_or, isKnown]
  · refine ⟨w.fieldNames id, ?_, Binds.carries binds installed⟩
    dsimp only
    rw [isBound, Option.some_or]

/-- Histories keep synthesized methods bound to what they last bind them to, by induction on the
edits.
-/
theorem Bound.replay {known : TypeId → Behavior → Option (List String)} (bound : w.Bound known)
    (history : List Edit)
    : (w.replay history).Bound
        (fun id behavior => w.lastBound id behavior (known id behavior) history) := by
  induction history generalizing w known with
  | nil => exact bound
  | cons edit rest ih => exact ih (bound.after edit)

theorem bound_new (library : TemplateLibrary) (region : Nat)
    : (new library region).Bound (fun _ _ => none) := by
  intro id behavior synthesized
  cases synthesized

end Workshop

end RecordSynth
