import RecordSynth.Proofs.Synthesis.Interchange

/-! What equipping a type comes to when it succeeds. What the type gets is decided by what it was,
by its fields and by what the store has in the end. All that is left as it was, so equipping the
type once more changes nothing.
-/

namespace RecordSynth

-----------------------------------------------------------------------------------------
-- What an equipped type is
-----------------------------------------------------------------------------------------

/-- What a type is after it is equipped, as against before. For each selected behavior that is not
the user's there is a synthesized method, the template of the store bound to the fields, and the
fields are recorded. The other methods, and all else, are as they were.
-/
structure RecordType.Equipped (ty : RecordType) (selection : Selection) (s : TemplateStore)
    (fields : List Field) (ty' : RecordType) : Prop where
  made : ∀ b, selection.contains b = true → ty.userDefines b = false →
    ∃ method,
      s.Binds b (fields.map Field.name) method ∧ ty'.installed b = ⟨some method, true⟩
  kept : ∀ b, selection.contains b = false ∨ ty.userDefines b = true →
    ty'.installed b = ty.installed b
  matchArgs : ty'.matchArgs = some fields
  name : ty'.name = ty.name
  parent : ty'.parent = ty.parent
  declared : ty'.declared = ty.declared

theorem TemplateStore.Binds.unique {s : TemplateStore} {b : Behavior} {names : List String}
    {method method' : Method} (binds : s.Binds b names method) (binds' : s.Binds b names method')
    : method = method' := by
  obtain ⟨artifact, program, present, bound, rfl⟩ := binds
  obtain ⟨artifact', program', present', bound', rfl⟩ := binds'
  cases present.symm.trans present'
  cases bound.symm.trans bound'
  rfl

/-- Two tables are the same if they have the same types. -/
theorem TypeTable.ext_get? {t t' : TypeTable} (same : ∀ id, t.get? id = t'.get? id) : t = t' := by
  have entries : t.entries = t'.entries := Array.ext_getElem? fun i => same ⟨i⟩
  cases t
  cases t'
  cases entries
  rfl

namespace RecordType

variable {ty ty' ty'' : RecordType} {selection : Selection} {s : TemplateStore}
  {fields : List Field}

/-- A behavior is either made for the type or kept. -/
theorem made_or_kept (ty : RecordType) (selection : Selection) (b : Behavior)
    : (selection.contains b = true ∧ ty.userDefines b = false)
      ∨ (selection.contains b = false ∨ ty.userDefines b = true) := by
  cases selection.contains b
  · exact Or.inr (Or.inl rfl)
  · cases ty.userDefines b
    · exact Or.inl ⟨rfl, rfl⟩
    · exact Or.inr (Or.inr rfl)

theorem userDefines_congr {b : Behavior} (same : ty'.installed b = ty.installed b)
    : ty'.userDefines b = ty.userDefines b :=
  congrArg (fun own : Installed => own.method?.isSome && !own.isSynthesized) same

namespace Equipped

/-- The user has still defined what the user has defined. -/
theorem userDefines (equipped : ty.Equipped selection s fields ty') (b : Behavior)
    : ty'.userDefines b = ty.userDefines b := by
  rcases ty.made_or_kept selection b with ⟨selected, notUser⟩ | kept
  · obtain ⟨method, -, isMade⟩ := equipped.made b selected notUser
    have flagged : ty'.isSynthesized b = true := congrArg Installed.isSynthesized isMade
    rw [RecordType.userDefines, flagged, Bool.not_true, Bool.and_false, notUser]
  · exact userDefines_congr (equipped.kept b kept)

/-- There is only one type that a type can become. -/
theorem unique (equipped : ty.Equipped selection s fields ty')
    (equipped' : ty.Equipped selection s fields ty'')
    : ty' = ty'' := by
  have installed (b : Behavior) : ty'.installed b = ty''.installed b := by
    rcases ty.made_or_kept selection b with ⟨selected, notUser⟩ | kept
    · obtain ⟨method, binds, isMade⟩ := equipped.made b selected notUser
      obtain ⟨method', binds', isMade'⟩ := equipped'.made b selected notUser
      rw [isMade, isMade', binds.unique binds']
    · rw [equipped.kept b kept, equipped'.kept b kept]
  have methods : ty'.methods = ty''.methods :=
    PerBehavior.ext_get fun b => congrArg Installed.method? (installed b)
  have flags : ty'.synthesized = ty''.synthesized :=
    Selection.ext_contains fun b => congrArg Installed.isSynthesized (installed b)
  obtain ⟨name, parent, declared, _, _, matchArgs⟩ := ty'
  obtain ⟨name', parent', declared', _, _, matchArgs'⟩ := ty''
  refine (RecordType.mk.injEq ..).mpr ⟨?_, ?_, ?_, methods, flags, ?_⟩
  · exact equipped.name.trans equipped'.name.symm
  · exact equipped.parent.trans equipped'.parent.symm
  · exact equipped.declared.trans equipped'.declared.symm
  · exact equipped.matchArgs.trans equipped'.matchArgs.symm

/-- What a type has become it becomes again, as the same behaviors are made for it. -/
theorem again (equipped : ty.Equipped selection s fields ty')
    : ty'.Equipped selection s fields ty' where
  made b selected notUser := equipped.made b selected (equipped.userDefines b ▸ notUser)
  kept _ _ := rfl
  matchArgs := equipped.matchArgs
  name := rfl
  parent := rfl
  declared := rfl

end Equipped

/-- Installed together, methods that are bound to templates of the store make an equipped type. -/
theorem equipped_attachAll {methods : List (Behavior × Method)}
    (behaviors : methods.map Prod.fst = Synthesis.wanted selection (some ty))
    (binds : ∀ entry ∈ methods, s.Binds entry.1 (fields.map Field.name) entry.2)
    : ty.Equipped selection s fields ((ty.attachAll methods).setMatchArgs fields) where
  made b selected notUser := by
    rcases ty.installed_attachAll methods b with ⟨method, member, isLast⟩ | ⟨absent, -⟩
    · exact ⟨method, binds _ member, isLast⟩
    · rw [behaviors, Workshop.mem_wanted] at absent
      exact absurd ⟨selected, notUser⟩ absent
  kept b kept := by
    rcases ty.installed_attachAll methods b with ⟨method, member, -⟩ | ⟨-, isKept⟩
    · have isWanted : b ∈ methods.map Prod.fst := List.mem_map_of_mem member
      rw [behaviors, Workshop.mem_wanted] at isWanted
      simp [isWanted.1, isWanted.2] at kept
    · exact isKept
  matchArgs := rfl
  name := name_attachAll ty methods
  parent := parent_attachAll ty methods
  declared := Workshop.declared_attachAll ty methods

end RecordType

namespace Synthesis

variable {w : Workshop} {selection : Selection} {id : TypeId} {ty : RecordType}

-----------------------------------------------------------------------------------------
-- What becomes of types and store
-----------------------------------------------------------------------------------------

/-- Only the type that is equipped changes. -/
theorem types_of_equip_ok (isType : w.types.get? id = some ty)
    (succeeds : ((equip selection id).outcome w).1 = .ok ())
    : let w' := ((equip selection id).outcome w).2
      (∃ ty',
        w'.types.get? id = some ty'
        ∧ ty.Equipped selection w'.store (w.types.fieldOrder id).toList ty')
      ∧ ∀ other, other ≠ id → w'.types.get? other = w.types.get? other := by
  intro w'
  obtain ⟨requests, ⟨error, isResult⟩ | ⟨methods, isResult, behaviors, binds⟩⟩ :=
    equip_outcome w selection id
  · rw [isResult] at succeeds
    cases succeeds
  have isAfter : w' = _ := congrArg Prod.snd isResult
  rw [isAfter]
  refine ⟨⟨_, ?_, RecordType.equipped_attachAll (isType ▸ behaviors) binds⟩, ?_⟩
  · rw [TypeTable.get?_setMatchArgs, if_pos rfl, TypeTable.get?_attachAll, if_pos rfl, isType]
    rfl
  · intro other isOther
    rw [TypeTable.get?_setMatchArgs, if_neg isOther.symm, TypeTable.get?_attachAll,
      if_neg isOther.symm]

/-- What has been equipped can be equipped at once in the same way. Nothing is compiled, since the
templates are in the store, and the type becomes what it is.
-/
theorem equip_again (isType : w.types.get? id = some ty)
    (succeeds : ((equip selection id).outcome w).1 = .ok ())
    : (equip selection id).outcome ((equip selection id).outcome w).2
      = (.ok (), ((equip selection id).outcome w).2) := by
  let w' := ((equip selection id).outcome w).2
  change (equip selection id).outcome w' = (.ok (), w')
  have agrees : w.Agrees w' := agrees_equip w selection id
  have succeeds' : ((equip selection id).outcome w').1 = .ok () :=
    (outcome_equip_after_equip w selection selection id id).trans succeeds
  obtain ⟨⟨ty', isType', equipped⟩, -⟩ := types_of_equip_ok isType succeeds
  obtain ⟨⟨ty'', isType'', equipped'⟩, others⟩ := types_of_equip_ok isType' succeeds'
  have store : ((equip selection id).outcome w').2.store = w'.store := by
    rw [store_of_equip_ok succeeds', TypeTable.wanted_of_outline agrees.outline,
      agrees.fieldNames, isType]
    refine TemplateStore.requestAll_of_no_additions fun r member => ?_
    obtain ⟨b, isWanted, rfl⟩ := List.mem_map.mp member
    obtain ⟨selected, notUser⟩ := Workshop.mem_wanted.mp isWanted
    obtain ⟨method, ⟨artifact, program, present, -⟩, -⟩ := equipped.made b selected notUser
    exact TemplateStore.adds_of_present present
  have types : ((equip selection id).outcome w').2.types = w'.types := by
    refine TypeTable.ext_get? fun other => ?_
    by_cases same : other = id
    · subst same
      rw [store, TypeTable.fieldOrder_of_outline agrees.outline] at equipped'
      rw [isType'', isType', equipped'.unique equipped.again]
    · exact others other same
  refine Prod.ext succeeds' ?_
  exact (Workshop.mk.injEq ..).mpr ⟨types, store⟩

/-- What equipping a type does when it succeeds, whatever the type, the other types and the store
are. The type becomes an equipped one, and no other type changes. The store keeps what it had; what
it has got are templates for as many fields as the type has, of behaviors that are made for it.
Doing it once more succeeds and changes nothing.
-/
theorem effect_of_equip (isType : w.types.get? id = some ty)
    (succeeds : ((equip selection id).outcome w).1 = .ok ())
    : let w' := ((equip selection id).outcome w).2
      let n := (w.fieldNames id).length
      let made (b : Behavior) := selection.contains b = true ∧ ty.userDefines b = false
      (∃ ty',
        w'.types.get? id = some ty'
        ∧ ty.Equipped selection w'.store (w.types.fieldOrder id).toList ty')
      ∧ (∀ other, other ≠ id → w'.types.get? other = w.types.get? other)
      ∧ (∀ b arity artifact,
        w.store.get? b arity = some artifact → w'.store.get? b arity = some artifact)
      ∧ (∀ b arity, w.store.get? b arity = none →
        w'.store.program? b arity
          = if made b ∧ arity = n then (TemplateStore.compile w.store.library b n).toOption
            else none)
      ∧ (equip selection id).outcome w' = (.ok (), w') := by
  intro w' n made
  obtain ⟨becomes, others⟩ := types_of_equip_ok isType succeeds
  have store : w'.store = _ := store_of_equip_ok succeeds
  rw [isType] at store
  obtain ⟨kept, gained, -⟩ := w.store.requestAll_of_nodup (nodup_wanted selection (some ty)) n
  rw [← store] at kept gained
  simp only [Workshop.mem_wanted] at gained
  exact ⟨becomes, others, kept, gained, equip_again isType succeeds⟩

section Displayed

open Workshop

/-- A type whose user has defined how it is displayed. -/
def displayed : RecordType :=
  ⟨"T", none, Roster.ofList [⟨"a", "int"⟩],
    (PerBehavior.all none).set .display (some (.primitive (.display 0))), .none, none⟩

/-- Witness: construction is made for the type, the display is still its user's, and equipping it
once more changes nothing.
-/
theorem effect_of_equip_displayed
    : let w := (new Template.standard 0).after
        (.declareType "T" none [⟨"a", "int"⟩] [(.display, .primitive (.display 0))])
      let w' := ((equip .all ⟨0⟩).outcome w).2
      ∃ ty',
        w'.types.get? ⟨0⟩ = some ty'
        ∧ ty'.isSynthesized .construct = true
        ∧ ty'.ownMethod? .display = some (.primitive (.display 0))
        ∧ (equip .all ⟨0⟩).outcome w' = (.ok (), w') := by
  intro w w'
  have isType : w.types.get? ⟨0⟩ = some displayed := rfl
  have keys : displayed.declared.keys = ["a"] := by
    simp [displayed, Roster.ofList, Roster.keys_insert]
  have succeeds : ((equip .all ⟨0⟩).outcome w).1 = .ok () := by
    refine equipped_of_root isType rfl ?_ rfl (TemplateStore.faithful_empty _ 0) .all
    rw [keys]
    decide
  obtain ⟨⟨ty', isType', equipped⟩, -, -, -, again⟩ := effect_of_equip isType succeeds
  obtain ⟨method, -, isMade⟩ := equipped.made .construct rfl rfl
  have isKept := equipped.kept .display (Or.inr rfl)
  refine ⟨ty', isType', ?_, ?_, again⟩
  · exact congrArg RecordType.Installed.isSynthesized isMade
  · exact congrArg RecordType.Installed.method? isKept

end Displayed

end Synthesis

end RecordSynth
