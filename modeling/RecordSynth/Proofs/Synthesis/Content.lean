import RecordSynth.Proofs.Synthesis.Additions
import RecordSynth.Proofs.Synthesis.Installation
import RecordSynth.Proofs.Synthesis.Lineage

/-! What types hold apart from where the text constants of their methods are made, and what
equipping makes of it. Equipping goes by less: by the fields and by what the user has defined,
which it leaves as they are, and by the answers of the store, which it does not change.
-/

namespace RecordSynth

/-- What a method does, wherever its text constants are made. -/
def Method.content : Method → Program ⊕ Primitive
  | .compiled artifact => .inl artifact.program
  | .primitive operation => .inr operation

-----------------------------------------------------------------------------------------
-- The content of types
-----------------------------------------------------------------------------------------

namespace RecordType

/-- What a record type holds, wherever the text constants of its methods are made. -/
structure Content where
  name : String
  parent : Option TypeId
  declared : Fields
  ownMethod? : Behavior → Option (Program ⊕ Primitive)
  isSynthesized : Behavior → Bool
  matchArgs : Option (List Field)

/-- The content of a record type. -/
def content (ty : RecordType) : Content where
  name := ty.name
  parent := ty.parent
  declared := ty.declared
  ownMethod? b := (ty.ownMethod? b).map Method.content
  isSynthesized := ty.isSynthesized
  matchArgs := ty.matchArgs

/-- What equipping goes by: the place of a type, its fields, and what its user has defined. -/
structure Outline where
  name : String
  parent : Option TypeId
  declared : Fields
  userDefines : Behavior → Bool

/-- The outline of a record type. -/
def outline (ty : RecordType) : Outline :=
  ⟨ty.name, ty.parent, ty.declared, ty.userDefines⟩

namespace Content

/-- The content with synthesized methods that run the given programs. -/
def fitted (c : Content) (made : Behavior → Option Program) : Content :=
  { c with
    ownMethod? := fun b => (made b).elim (c.ownMethod? b) fun program => some (.inl program)
    isSynthesized := fun b => (made b).isSome || c.isSynthesized b }

/-- The content with a recorded field order. -/
def recorded (c : Content) (fields : List Field) : Content :=
  { c with matchArgs := some fields }

/-- The content with synthesized methods and a recorded field order. -/
def equipped (c : Content) (fields : List Field) (made : Behavior → Option Program) : Content :=
  (c.fitted made).recorded fields

/-- The outline of a content. -/
def outline (c : Content) : Outline :=
  ⟨c.name, c.parent, c.declared, fun b => (c.ownMethod? b).isSome && !c.isSynthesized b⟩

/-- To install the same methods once more makes no difference. -/
theorem fitted_fitted (c : Content) (made : Behavior → Option Program)
    : (c.fitted made).fitted made = c.fitted made := by
  unfold fitted
  congr 1
  · funext b
    dsimp only
    cases made b with
    | none => rfl
    | some program => rfl
  · funext b
    exact Bool.or_self_left _ _

/-- Synthesized methods leave the outline, if none of them is for what the user has defined. -/
theorem outline_fitted (c : Content) {made : Behavior → Option Program}
    (spared : ∀ b, (made b).isSome = true → c.outline.userDefines b = false)
    : (c.fitted made).outline = c.outline := by
  refine congrArg (Outline.mk c.name c.parent c.declared) (funext fun b => ?_)
  dsimp only [fitted]
  cases isMade : made b with
  | none => rfl
  | some program => exact (spared b (isMade ▸ rfl)).symm

end Content

theorem outline_content (ty : RecordType) : ty.content.outline = ty.outline := by
  refine congrArg (Outline.mk ty.name ty.parent ty.declared) (funext fun b => ?_)
  dsimp only [content]
  rw [userDefines, defines, Option.isSome_map, ownMethod?]

theorem matchArgs_attachAll (ty : RecordType) (methods : List (Behavior × Method))
    : (ty.attachAll methods).matchArgs = ty.matchArgs := by
  induction methods generalizing ty with
  | nil => rfl
  | cons entry rest ih => exact ih (ty.attachSynthesized entry.1 entry.2)

/-- Installed together, methods run the programs that are made for their behaviors. -/
theorem content_attachAll (ty : RecordType) {methods : List (Behavior × Method)}
    {made : Behavior → Option Program}
    (keys : ∀ b, (made b).isSome = true → b ∈ methods.map Prod.fst)
    (runs : ∀ entry ∈ methods, ∃ program,
      made entry.1 = some program ∧ entry.2.content = .inl program)
    : (ty.attachAll methods).content = ty.content.fitted made := by
  have installed (b : Behavior)
      : (((ty.attachAll methods).ownMethod? b).map Method.content
          = (ty.content.fitted made).ownMethod? b)
        ∧ (ty.attachAll methods).isSynthesized b
          = (ty.content.fitted made).isSynthesized b := by
    rcases ty.installed_attachAll methods b with ⟨method, member, isLast⟩ | ⟨absent, kept⟩
    · obtain ⟨program, isMade, isContent⟩ := runs _ member
      have isMethod := congrArg Installed.method? isLast
      have isFlagged := congrArg Installed.isSynthesized isLast
      dsimp only [installed] at isMethod isFlagged
      dsimp only [Content.fitted]
      rw [isMade, isMethod, isFlagged]
      exact ⟨congrArg some isContent, rfl⟩
    · have notMade : made b = none :=
        Option.not_isSome_iff_eq_none.mp fun isMade => absent (keys b isMade)
      have isMethod := congrArg Installed.method? kept
      have isFlagged := congrArg Installed.isSynthesized kept
      dsimp only [installed] at isMethod isFlagged
      dsimp only [Content.fitted]
      rw [notMade, isMethod, isFlagged]
      exact ⟨rfl, rfl⟩
  rw [content]
  refine (Content.mk.injEq ..).mpr ⟨?_, ?_, ?_, ?_, ?_, ?_⟩
  · exact RecordType.name_attachAll ty methods
  · exact parent_attachAll ty methods
  · exact Workshop.declared_attachAll ty methods
  · exact funext fun b => (installed b).1
  · exact funext fun b => (installed b).2
  · exact matchArgs_attachAll ty methods

end RecordType

namespace TypeTable

/-- The contents of the types in a table. -/
def content (t : TypeTable) (id : TypeId) : Option RecordType.Content :=
  (t.get? id).map RecordType.content

/-- The outlines of the types in a table. -/
def outline (t : TypeTable) (id : TypeId) : Option RecordType.Outline :=
  (t.get? id).map RecordType.outline

theorem outline_eq (t : TypeTable) (id : TypeId)
    : t.outline id = (t.content id).map RecordType.Content.outline := by
  rw [outline, content, Option.map_map]
  exact congrArg (Option.map · _) (funext fun ty => ty.outline_content.symm)

/-- Methods that run what is made for a type are installed on it, if it is in the table. -/
theorem content_attachAll (t : TypeTable) (id : TypeId) {methods : List (Behavior × Method)}
    {made : Behavior → Option Program}
    (keys : ∀ b, (made b).isSome = true → b ∈ methods.map Prod.fst)
    (runs : ∀ entry ∈ methods, ∃ program,
      made entry.1 = some program ∧ entry.2.content = .inl program) (other : TypeId)
    : (t.attachAll id methods).content other
      = if id = other then (t.content other).map (·.fitted made) else t.content other := by
  rw [content, get?_attachAll]
  split
  · rw [content, Option.map_map, Option.map_map]
    exact congrArg (Option.map · _) (funext fun ty => ty.content_attachAll keys runs)
  · rfl

theorem content_setMatchArgs (t : TypeTable) (id : TypeId) (fields : List Field) (other : TypeId)
    : (t.setMatchArgs id fields).content other
      = if id = other then (t.content other).map (·.recorded fields) else t.content other := by
  rw [content, get?_setMatchArgs]
  split
  · rw [content, Option.map_map, Option.map_map]
    rfl
  · rfl

variable {t t' : TypeTable} (same : t'.outline = t.outline) (id : TypeId)
include same

/-- A type of the one table has its like in the other. -/
theorem exists_of_outline {ty : RecordType} (isType : t.get? id = some ty)
    : ∃ ty', t'.get? id = some ty' ∧ ty'.outline = ty.outline := by
  refine Option.map_eq_some_iff.mp ?_
  exact (congrFun same id).trans (congrArg (Option.map RecordType.outline) isType)

theorem get?_eq_none_of_outline (absent : t.get? id = none) : t'.get? id = none := by
  have none := congrFun same id
  rw [outline, outline, absent] at none
  exact Option.map_eq_none_iff.mp none

theorem name_of_outline : t'.name id = t.name id := by
  unfold name
  cases isType : t.get? id with
  | none => rw [get?_eq_none_of_outline same id isType]
  | some ty =>
      obtain ⟨ty', isType', alike⟩ := exists_of_outline same id isType
      rw [isType']
      exact congrArg RecordType.Outline.name alike

theorem declared_of_outline : t'.declared id = t.declared id := by
  unfold declared
  cases isType : t.get? id with
  | none => rw [get?_eq_none_of_outline same id isType]
  | some ty =>
      obtain ⟨ty', isType', alike⟩ := exists_of_outline same id isType
      rw [isType']
      exact congrArg (·.declared.toList) alike

theorem ancestry_of_outline : t'.ancestry id = t.ancestry id := by
  cases isType : t.get? id with
  | none =>
      rw [ancestry_of_get?_eq_none isType,
        ancestry_of_get?_eq_none (get?_eq_none_of_outline same id isType)]
  | some ty =>
      refine ancestry_congr ?_ isType
      intro other above isAbove
      obtain ⟨above', isAbove', alike⟩ := exists_of_outline same other isAbove
      exact ⟨above', isAbove', congrArg RecordType.Outline.parent alike⟩

theorem fieldOrder_of_outline : t'.fieldOrder id = t.fieldOrder id := by
  unfold fieldOrder
  rw [ancestry_of_outline same id, funext (declared_of_outline same)]

theorem userDefines_of_outline (b : Behavior)
    : (t'.get? id).any (·.userDefines b) = (t.get? id).any (·.userDefines b) := by
  cases isType : t.get? id with
  | none => rw [get?_eq_none_of_outline same id isType]
  | some ty =>
      obtain ⟨ty', isType', alike⟩ := exists_of_outline same id isType
      rw [isType']
      exact congrFun (congrArg RecordType.Outline.userDefines alike) b

theorem wanted_of_outline (selection : Selection)
    : Synthesis.wanted selection (t'.get? id) = Synthesis.wanted selection (t.get? id) :=
  List.filter_congr fun b _ => by rw [userDefines_of_outline same id b]

end TypeTable

namespace Synthesis

-----------------------------------------------------------------------------------------
-- What equipping makes of the contents
-----------------------------------------------------------------------------------------

/-- The program that a type gets for a behavior when it is equipped: what the store answers, bound
to the fields of the type.
-/
def made (w : Workshop) (selection : Selection) (id : TypeId) (b : Behavior) : Option Program :=
  if b ∈ wanted selection (w.types.get? id) then
    (w.store.programFor b (w.fieldNames id).length).toOption.bind fun program =>
      (program.bind (w.fieldNames id)).toOption
  else none

theorem wanted_of_made {w : Workshop} {selection : Selection} {id : TypeId} {b : Behavior}
    (isMade : (made w selection id b).isSome = true)
    : b ∈ wanted selection (w.types.get? id) := by
  by_contra absent
  rw [made, if_neg absent] at isMade
  cases isMade

/-- What types hold after one of them is equipped: with an obstacle what they held, and without one
that type holds what has been made for it.
-/
def outfit (w : Workshop) (selection : Selection) (id : TypeId)
    (contents : TypeId → Option RecordType.Content) : TypeId → Option RecordType.Content :=
  match firstObstacle? w selection id with
  | some _ => contents
  | none =>
    Function.update contents id
      ((contents id).map
        (·.equipped (w.types.fieldOrder id).toList (made w selection id)))

/-- Equipping succeeds exactly without an obstacle. -/
theorem outcome_equip_eq (w : Workshop) (selection : Selection) (id : TypeId)
    : ((equip selection id).outcome w).1
      = (firstObstacle? w selection id).elim (.ok ()) .error := by
  cases isObstacle : firstObstacle? w selection id with
  | some error => exact (equip_error_iff selection id error).mpr isObstacle
  | none =>
      cases isResult : ((equip selection id).outcome w).1 with
      | ok => rfl
      | error error =>
          rw [equip_error_iff, isObstacle] at isResult
          cases isResult

/-- Methods that are bound to what the store answers run what is made for the type. -/
theorem runs_made {w : Workshop} {selection : Selection} {id : TypeId}
    {methods : List (Behavior × Method)} {requests : List (Behavior × Nat)}
    (behaviors : methods.map Prod.fst = wanted selection (w.types.get? id))
    (binds : ∀ entry ∈ methods,
      (w.store.requestAll requests).Binds entry.1 (w.fieldNames id) entry.2)
    : ∀ entry ∈ methods, ∃ program,
        made w selection id entry.1 = some program ∧ entry.2.content = .inl program := by
  intro entry member
  obtain ⟨artifact, program, present, bound, isMethod⟩ := binds entry member
  have chosen : entry.1 ∈ wanted selection (w.types.get? id) :=
    behaviors ▸ List.mem_map_of_mem member
  have answer := TemplateStore.programFor_of_present present
  rw [TemplateStore.programFor_requestAll] at answer
  refine ⟨program, ?_, isMethod ▸ rfl⟩
  rw [made, if_pos chosen, answer]
  exact congrArg Except.toOption bound

/-- Equipping gives the type what has been made for it, if there is no obstacle. -/
theorem content_equip (w : Workshop) (selection : Selection) (id : TypeId)
    : ((equip selection id).outcome w).2.types.content
      = outfit w selection id w.types.content := by
  have isOutcome := outcome_equip_eq w selection id
  unfold outfit
  obtain ⟨requests, ⟨error, isResult⟩ | ⟨methods, isResult, behaviors, binds⟩⟩ :=
    equip_outcome w selection id
  · rw [(equip_error_iff selection id error).mp (congrArg Prod.fst isResult), isResult]
  rw [isResult] at isOutcome
  cases isObstacle : firstObstacle? w selection id with
  | some error =>
      rw [isObstacle] at isOutcome
      cases isOutcome
  | none =>
      rw [isResult]
      funext other
      dsimp only
      have keys (b : Behavior) (isMade : (made w selection id b).isSome = true)
          : b ∈ methods.map Prod.fst :=
        behaviors ▸ wanted_of_made isMade
      rw [TypeTable.content_setMatchArgs,
        TypeTable.content_attachAll w.types id keys (runs_made behaviors binds)]
      by_cases same : id = other
      · subst same
        rw [if_pos rfl, if_pos rfl, Function.update_self, Option.map_map]
        rfl
      · rw [if_neg same, if_neg same, Function.update_of_ne (Ne.symm same)]

/-- Without an obstacle the templates of all behaviors are asked for, by induction on them. -/
theorem asked_of_clear {s : TemplateStore} {typeName : String} {fields : List String}
    {behaviors : List Behavior} (clear : ∀ b ∈ behaviors, obstacle? s typeName fields b = none)
    : asked s typeName fields behaviors = behaviors := by
  induction behaviors with
  | nil => rfl
  | cons b rest ih =>
      obtain ⟨first, others⟩ := List.forall_mem_cons.mp clear
      rw [asked, first, ih others]

/-- The store is asked for a template for each behavior that is made. -/
theorem store_of_equip_ok {w : Workshop} {selection : Selection} {id : TypeId}
    (succeeds : ((equip selection id).outcome w).1 = .ok ())
    : ((equip selection id).outcome w).2.store
      = w.store.requestAll
          ((wanted selection (w.types.get? id)).map (·, (w.fieldNames id).length)) := by
  rw [outcome_equip_eq] at succeeds
  cases isObstacle : firstObstacle? w selection id with
  | some error =>
      rw [isObstacle] at succeeds
      cases succeeds
  | none =>
      rw [firstObstacle?] at isObstacle
      split at isObstacle
      · cases isObstacle
      · next few =>
        have clear := List.findSome?_eq_none_iff.mp isObstacle
        rw [store_equip, requestsOf_equip, if_neg few, asked_of_clear clear]

end Synthesis

namespace Workshop

variable {w w' : Workshop}

-----------------------------------------------------------------------------------------
-- What decides how types are equipped
-----------------------------------------------------------------------------------------

/-- What decides how types are equipped is the same: their outlines, and the answers of the store.
-/
structure Agrees (w w' : Workshop) : Prop where
  outline : w'.types.outline = w.types.outline
  answers : w'.store.programFor = w.store.programFor

namespace Agrees

variable (agrees : w.Agrees w') (selection : Selection) (id : TypeId)
include agrees

theorem fieldNames : w'.fieldNames id = w.fieldNames id := by
  rw [Workshop.fieldNames, TypeTable.fieldOrder_of_outline agrees.outline]
  rfl

theorem obstacle? : Synthesis.obstacle? w'.store = Synthesis.obstacle? w.store := by
  funext typeName fields behavior
  rw [Synthesis.obstacle?, agrees.answers]
  rfl

theorem firstObstacle?
    : Synthesis.firstObstacle? w' selection id = Synthesis.firstObstacle? w selection id := by
  rw [Synthesis.firstObstacle?, agrees.fieldNames, TypeTable.name_of_outline agrees.outline,
    TypeTable.wanted_of_outline agrees.outline, agrees.obstacle?]
  rfl

theorem made : Synthesis.made w' selection id = Synthesis.made w selection id := by
  funext b
  rw [Synthesis.made, agrees.fieldNames, TypeTable.wanted_of_outline agrees.outline,
    agrees.answers]
  rfl

theorem outfit : Synthesis.outfit w' selection id = Synthesis.outfit w selection id := by
  funext contents
  rw [Synthesis.outfit, agrees.firstObstacle?, TypeTable.fieldOrder_of_outline agrees.outline,
    agrees.made]
  rfl

theorem asked (typeName : String) (fields : List String) (behaviors : List Behavior)
    : Synthesis.asked w'.store typeName fields behaviors
      = Synthesis.asked w.store typeName fields behaviors := by
  induction behaviors with
  | nil => rfl
  | cons behavior rest ih =>
      rw [Synthesis.asked, agrees.obstacle?, ih]
      rfl

theorem requestsOf
    : w'.store.requestsOf (.equip w'.types selection id)
      = w.store.requestsOf (.equip w.types selection id) := by
  rw [Synthesis.requestsOf_equip, agrees.fieldNames, TypeTable.name_of_outline agrees.outline,
    TypeTable.wanted_of_outline agrees.outline, agrees.asked]
  rfl

end Agrees

end Workshop

namespace Synthesis

/-- Equipping leaves what decides how types are equipped. -/
theorem agrees_equip (w : Workshop) (selection : Selection) (id : TypeId)
    : w.Agrees ((equip selection id).outcome w).2 := by
  refine ⟨?_, ?_⟩
  · funext other
    rw [TypeTable.outline_eq, TypeTable.outline_eq, content_equip, outfit]
    cases firstObstacle? w selection id with
    | some error => rfl
    | none =>
        dsimp only
        by_cases same : other = id
        swap
        · rw [Function.update_of_ne same]
        subst same
        rw [Function.update_self, TypeTable.content]
        cases isType : w.types.get? other with
        | none => rfl
        | some ty =>
            refine congrArg some (RecordType.Content.outline_fitted ty.content ?_)
            intro b isMade
            have chosen := wanted_of_made isMade
            rw [isType, Workshop.mem_wanted] at chosen
            rw [RecordType.outline_content]
            exact chosen.2
  · funext behavior arity
    rw [store_equip, TemplateStore.programFor_requestAll]

end Synthesis

end RecordSynth
