import RecordSynth.Proofs.Synthesis.History

/-! Which synthesized methods are up to date after a type is equipped: those whose behaviors are
selected. The others stay bound to the fields of the last selection, so they are up to date
exactly if the type has got no fields since then.
-/

namespace RecordSynth.Workshop

variable {w : Workshop} {id : TypeId} {behavior : Behavior}

theorem replay_concat (w : Workshop) (history : List Edit) (edit : Edit)
    : w.replay (history ++ [edit]) = (w.replay history).after edit := by
  rw [replay, List.foldl_append]
  rfl

/-- At any time, a synthesized method carries the program that its history last bound. -/
theorem carries_lastBound {library : TemplateLibrary} {region : Nat} {history : List Edit}
    (synthesized : ((new library region).replay history).isSynthesized id behavior = true)
    : ∃ bound,
        (new library region).lastBound id behavior none history = some bound
        ∧ ((new library region).replay history).Carries id behavior bound :=
  (bound_new library region).replay history id behavior synthesized

/-- The last edit of a history decides, unless it binds nothing. -/
theorem lastBound_concat (w : Workshop) (id : TypeId) (behavior : Behavior)
    (known : Option (List String)) (history : List Edit) (edit : Edit)
    : w.lastBound id behavior known (history ++ [edit])
      = ((w.replay history).boundBy id behavior edit).or
          (w.lastBound id behavior known history) := by
  induction history generalizing w known with
  | nil => rfl
  | cons first rest ih => exact ih (w.after first) _

/-- Histories only add to the store, by induction on the edits. -/
theorem store_replay (w : Workshop) (history : List Edit)
    : ∃ requests, (w.replay history).store = w.store.requestAll requests := by
  induction history generalizing w with
  | nil => exact ⟨[], rfl⟩
  | cons edit rest ih =>
      obtain ⟨front, isFront⟩ := w.store_after edit
      obtain ⟨back, isBack⟩ := ih (w.after edit)
      refine ⟨front ++ back, ?_⟩
      rw [TemplateStore.requestAll_append, ← isFront, ← isBack]
      rfl

theorem library_replay (w : Workshop) (history : List Edit)
    : (w.replay history).store.library = w.store.library := by
  obtain ⟨requests, isStore⟩ := w.store_replay history
  rw [isStore, TemplateStore.library_requestAll]

theorem faithful_replay (library : TemplateLibrary) (region : Nat) (history : List Edit)
    : ((new library region).replay history).store.Faithful := by
  obtain ⟨requests, isStore⟩ := (new library region).store_replay history
  rw [isStore]
  exact (TemplateStore.faithful_empty library region).requestAll requests

/-- The standard templates bound to names tell the names, so a method carries one list of them. -/
theorem Carries.unique {names names' : List String} (carries : w.Carries id behavior names)
    (carries' : w.Carries id behavior names') (standard : w.store.library = Template.standard)
    (faithful : w.store.Faithful)
    : names = names' := by
  obtain ⟨artifact, code, present, own, bound⟩ := carries
  obtain ⟨artifact', code', present', own', bound'⟩ := carries'
  have compiled := faithful _ _ _ present
  have compiled' := faithful _ _ _ present'
  rw [standard] at compiled compiled'
  rw [own] at own'
  obtain rfl : code = code' := by
    cases own'
    rfl
  rw [← TemplateStore.names_of_bind_standard compiled bound,
    TemplateStore.names_of_bind_standard compiled' bound']

/-- A type that has been equipped has the field order recorded that it had, and methods for the
selected behaviors that its user has not defined.
-/
theorem get?_after_equip {selection : Selection}
    (equipped : ((Synthesis.equip selection id).outcome w).1 = .ok ())
    : ∃ methods,
        methods.map Prod.fst = Synthesis.wanted selection (w.types.get? id)
        ∧ (w.after (.equip id selection)).types.get? id
          = (w.types.get? id).map fun ty =>
            (ty.attachAll methods).setMatchArgs (w.types.fieldOrder id).toList := by
  obtain ⟨requests, ⟨error, isResult⟩ | ⟨methods, isResult, behaviors, _⟩⟩ :=
    Synthesis.equip_outcome w selection id
  · rw [isResult] at equipped
    cases equipped
  · refine ⟨methods, behaviors, ?_⟩
    rw [after, isResult, TypeTable.get?_setMatchArgs, if_pos rfl, TypeTable.get?_attachAll,
      if_pos rfl, Option.map_map]
    rfl

theorem boundBy_equip {selection : Selection}
    (equipped : ((Synthesis.equip selection id).outcome w).1 = .ok ())
    (selected : selection.contains behavior = true)
    : w.boundBy id behavior (.equip id selection) = some (w.fieldNames id) := by
  rw [boundBy, equipped]
  exact if_pos ⟨rfl, selected⟩

/-- What a type's synthesized methods are bound to directly after it has been equipped: to what the
history last binds them to. For a selected behavior these are the fields that have just been
recorded. Over the standard templates a method is up to date exactly if they are these fields.
-/
theorem carries_after_equip {library : TemplateLibrary} {region : Nat} {history : List Edit}
    {selection : Selection}
    (equipped
      : ((Synthesis.equip selection id).outcome ((new library region).replay history)).1
        = .ok ())
    : let edits := history ++ [.equip id selection]
      let w := (new library region).replay edits
      w.isSynthesized id behavior = true →
        ∃ fields bound,
          w.types.matchArgs id = some fields
          ∧ (new library region).lastBound id behavior none edits = some bound
          ∧ w.Carries id behavior bound
          ∧ (selection.contains behavior = true → bound = fields.map Field.name)
          ∧ (library = Template.standard →
            (w.Carries id behavior (fields.map Field.name) ↔ bound = fields.map Field.name)) := by
  intro edits w synthesized
  obtain ⟨bound, isBound, carries⟩ := carries_lastBound synthesized
  have isAfter : w = ((new library region).replay history).after (.equip id selection) :=
    replay_concat _ _ _
  obtain ⟨methods, _, isEquipped⟩ := get?_after_equip equipped
  have recorded : w.types.matchArgs id
      = some (((new library region).replay history).types.fieldOrder id).toList := by
    rw [isSynthesized, isAfter, isEquipped] at synthesized
    rw [TypeTable.matchArgs, isAfter, isEquipped]
    cases isType : ((new library region).replay history).types.get? id with
    | none =>
        rw [isType] at synthesized
        cases synthesized
    | some ty => rfl
  refine ⟨_, bound, recorded, isBound, carries, ?_, ?_⟩
  · intro selected
    rw [lastBound_concat, boundBy_equip equipped selected, Option.some_or] at isBound
    exact (Option.some.inj isBound).symm
  · intro standard
    refine ⟨?_, fun same => same ▸ carries⟩
    intro fresh
    refine Carries.unique carries fresh ?_ (faithful_replay library region edits)
    exact (library_replay (new library region) edits).trans standard

section Grown

/-- A type of one field, which is equipped with hashing and then gets another field. -/
def grown : List Edit :=
  [.declareType "T" none [⟨"a", "int"⟩] [], .equip ⟨0⟩ (Selection.standard.insert .hashing),
    .declareField ⟨0⟩ ⟨"b", "int"⟩]

theorem declared_attachAll (ty : RecordType) (methods : List (Behavior × Method))
    : (ty.attachAll methods).declared = ty.declared := by
  induction methods generalizing ty with
  | nil => rfl
  | cons entry rest ih => exact ih (ty.attachSynthesized entry.1 entry.2)

/-- The fields of a type without a parent are those that it declares. -/
theorem fieldNames_of_root {ty : RecordType} (isType : w.types.get? id = some ty)
    (root : ty.parent = none)
    : w.fieldNames id = ty.declared.keys := by
  have ancestry := TypeTable.ancestry_of_get?_eq_some isType
  rw [root, Option.elim_none] at ancestry
  have declared : w.types.declared id = ty.declared.toList := by
    rw [TypeTable.declared, isType]
  change (w.types.fieldOrder id).keys = ty.declared.keys
  rw [TypeTable.fieldOrder, ancestry, List.reverse_singleton, List.foldl_cons, List.foldl_nil,
    declared, Roster.keys_foldl_insert, Roster.keys_empty]
  exact enterAll_of_nodup ty.declared.nodup_keys

theorem equipped_of_root {ty : RecordType} (isType : w.types.get? id = some ty)
    (root : ty.parent = none) (few : ty.declared.keys.length ≤ maxFields)
    (standard : w.store.library = Template.standard) (faithful : w.store.Faithful)
    (selection : Selection)
    : ((Synthesis.equip selection id).outcome w).1 = .ok () := by
  refine Synthesis.equip_standard standard faithful selection ?_
  have length := congrArg List.length (fieldNames_of_root isType root)
  rw [fieldNames, List.length_map] at length
  rwa [length]

/-- The grown type has two fields and hashing that is synthesized and bound to one. -/
theorem grown_type
    : ∃ ty,
        ((new Template.standard 0).replay grown).types.get? ⟨0⟩ = some ty
        ∧ ty.parent = none
        ∧ ty.declared.keys = ["a", "b"]
        ∧ ty.isSynthesized .hashing = true
        ∧ (new Template.standard 0).lastBound ⟨0⟩ .hashing none grown = some ["a"] := by
  let w := (new Template.standard 0).after (.declareType "T" none [⟨"a", "int"⟩] [])
  let ty : RecordType := ⟨"T", none, Roster.ofList [⟨"a", "int"⟩], .all none, .none, none⟩
  have isType : w.types.get? ⟨0⟩ = some ty := rfl
  have keys : ty.declared.keys = ["a"] := by
    simp [ty, Roster.ofList, Roster.keys_insert]
  have few : ty.declared.keys.length ≤ maxFields := by
    rw [keys]
    decide
  have equipped := equipped_of_root isType rfl few rfl (TemplateStore.faithful_empty _ 0)
    (Selection.standard.insert .hashing)
  have bound := @boundBy_equip w ⟨0⟩ .hashing _ equipped (by decide)
  rw [fieldNames_of_root isType rfl, keys] at bound
  obtain ⟨methods, behaviors, isEquipped⟩ := get?_after_equip equipped
  rw [isType] at behaviors isEquipped
  have isGrown : ((new Template.standard 0).replay grown).types.get? ⟨0⟩
      = some (((ty.attachAll methods).setMatchArgs (w.types.fieldOrder ⟨0⟩).toList).declare
        ⟨"b", "int"⟩) := by
    change ((w.after (.equip ⟨0⟩ (Selection.standard.insert .hashing))).after
      (.declareField ⟨0⟩ ⟨"b", "int"⟩)).types.get? ⟨0⟩ = _
    rw [after, TypeTable.get?_declareField, if_pos rfl, isEquipped]
    rfl
  refine ⟨_, isGrown, ?_, ?_, ?_, ?_⟩
  · exact RecordType.parent_attachAll ty methods
  · change ((ty.attachAll methods).declared.insert ⟨"b", "int"⟩).keys = _
    rw [declared_attachAll, Roster.keys_insert, keys]
    decide
  · rcases ty.installed_attachAll methods .hashing with ⟨method, _, isLast⟩ | ⟨absent, _⟩
    · exact congrArg RecordType.Installed.isSynthesized isLast
    · rw [behaviors, mem_wanted] at absent
      exact absurd ⟨by decide, rfl⟩ absent
  · change ((w.boundBy ⟨0⟩ .hashing (.equip ⟨0⟩ (Selection.standard.insert .hashing))).or none) = _
    rw [bound]
    rfl

theorem equipped_grown
    : ((Synthesis.equip .standard ⟨0⟩).outcome ((new Template.standard 0).replay grown)).1
      = .ok () := by
  obtain ⟨ty, isType, root, keys, _⟩ := grown_type
  have few : ty.declared.keys.length ≤ maxFields := by
    rw [keys]
    decide
  exact equipped_of_root isType root few (library_replay _ grown) (faithful_replay _ 0 grown) _

/-- Equipped once more, without hashing, the grown type has two fields recorded and still has its
hashing.
-/
theorem grown_equipped
    : let w := (new Template.standard 0).replay (grown ++ [.equip ⟨0⟩ .standard])
      w.isSynthesized ⟨0⟩ .hashing = true
      ∧ ∃ fields,
        w.types.matchArgs ⟨0⟩ = some fields ∧ fields.map Field.name = ["a", "b"] := by
  intro w
  obtain ⟨ty, isType, root, keys, synthesized, _⟩ := grown_type
  obtain ⟨methods, behaviors, isEquipped⟩ := get?_after_equip equipped_grown
  have isAfter : w = ((new Template.standard 0).replay grown).after (.equip ⟨0⟩ .standard) :=
    replay_concat _ _ _
  rw [isType] at behaviors isEquipped
  rw [isAfter]
  refine ⟨?_, _, ?_, (fieldNames_of_root isType root).trans keys⟩
  · rw [isSynthesized, isEquipped, Option.map_some, Option.any_some]
    change (ty.attachAll methods).isSynthesized .hashing = true
    rcases ty.installed_attachAll methods .hashing with ⟨method, _, isLast⟩ | ⟨_, kept⟩
    · exact congrArg RecordType.Installed.isSynthesized isLast
    · exact (congrArg RecordType.Installed.isSynthesized kept).trans synthesized
  · rw [TypeTable.matchArgs, isEquipped]
    rfl

/-- Witness: the grown type, equipped without hashing. -/
theorem carries_after_equip_grown
    : let edits := grown ++ [.equip ⟨0⟩ .standard]
      let w := (new Template.standard 0).replay edits
      ∃ fields bound,
        w.types.matchArgs ⟨0⟩ = some fields
        ∧ (new Template.standard 0).lastBound ⟨0⟩ .hashing none edits = some bound
        ∧ w.Carries ⟨0⟩ .hashing bound
        ∧ (w.Carries ⟨0⟩ .hashing (fields.map Field.name) ↔ bound = fields.map Field.name) := by
  obtain ⟨fields, bound, recorded, isBound, carries, _, fresh⟩ :=
    @carries_after_equip ⟨0⟩ .hashing Template.standard 0 grown .standard equipped_grown
      grown_equipped.1
  exact ⟨fields, bound, recorded, isBound, carries, fresh rfl⟩

/-- Not every synthesized method is up to date directly after its type is equipped: the hashing of
the grown type is not.
-/
theorem not_carries_matchArgs
    : ¬∀ library region history id selection behavior,
        ((Synthesis.equip selection id).outcome ((new library region).replay history)).1 = .ok () →
        ((new library region).replay (history ++ [.equip id selection])).isSynthesized id behavior
          = true →
        ∃ fields,
          ((new library region).replay (history ++ [.equip id selection])).types.matchArgs id
            = some fields
          ∧ ((new library region).replay (history ++ [.equip id selection])).Carries id behavior
            (fields.map Field.name) := by
  intro claim
  obtain ⟨synthesized, fields, recorded, names⟩ := grown_equipped
  obtain ⟨_, _, _, _, _, isBound⟩ := grown_type
  obtain ⟨fields', recorded', fresh⟩ :=
    claim Template.standard 0 grown ⟨0⟩ .standard .hashing equipped_grown synthesized
  rw [recorded] at recorded'
  obtain rfl := Option.some.inj recorded'
  obtain ⟨bound, isLast, carries⟩ := carries_lastBound synthesized
  have same := Carries.unique carries fresh (library_replay _ _) (faithful_replay _ _ _)
  -- The selection leaves hashing out, so what counts is the first equipping.
  have nothing : ((new Template.standard 0).replay grown).boundBy ⟨0⟩ .hashing
      (.equip ⟨0⟩ .standard) = none := by
    rw [boundBy, equipped_grown]
    rfl
  rw [lastBound_concat, nothing, Option.none_or, isBound, same, names] at isLast
  exact absurd isLast (by decide)

end Grown

end RecordSynth.Workshop
