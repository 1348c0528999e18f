import RecordSynth.Proofs.Synthesis.Installation
import RecordSynth.Proofs.Synthesis.Lineage

/-! What a type keeps of having been equipped. Edits keep its line and, as long as no type of the
line gets a field, the order of its fields. So they keep the field order that equipping has recorded
and the methods that it has synthesized, but for those that the user replaces.
-/

namespace RecordSynth

/-- A method that is not synthesized is its user's. -/
theorem RecordType.userDefines_iff {ty : RecordType} {behavior : Behavior}
    : ty.userDefines behavior = true
      ↔ ∃ own, ty.installed behavior = ⟨some own, false⟩ := by
  unfold userDefines defines installed ownMethod?
  cases ty.methods.get behavior with
  | none => simp
  | some own => simp

/-- The edit gives no type of the line a field. -/
def Edit.Spares (edit : Edit) (line : List TypeId) : Prop :=
  ∀ id ∈ line, ∀ field, edit ≠ .declareField id field

theorem Edit.spares_equip (types : List TypeId) (selection : Selection) (line : List TypeId)
    : ∀ edit ∈ types.map (Edit.equip · selection), edit.Spares line := by
  intro edit member
  obtain ⟨id, -, rfl⟩ := List.mem_map.mp member
  exact fun _ _ => nofun

namespace Workshop

variable {w : Workshop} {id : TypeId} {behavior : Behavior} {ty : RecordType} {edit : Edit}
variable {edits : List Edit}

/-- Edits keep the store reachable. -/
theorem reachable_replay (reached : ∃ region, w.store.Reachable Template.standard region)
    (edits : List Edit)
    : ∃ region, (w.replay edits).store.Reachable Template.standard region := by
  obtain ⟨region, reached⟩ := reached
  obtain ⟨requests, isStore⟩ := w.store_replay edits
  exact ⟨region, isStore ▸ reached.requestAll requests⟩

-----------------------------------------------------------------------------------------
-- What an edit makes of a type
-----------------------------------------------------------------------------------------

/-- What an edit makes of a type. A method is kept, or the user attaches one, or one is synthesized
when the type is equipped; then the order of the fields is recorded, too.
-/
structure Edited (w : Workshop) (edit : Edit) (id : TypeId) (ty ty' : RecordType) : Prop where
  name : ty'.name = ty.name
  parent : ty'.parent = ty.parent
  declared : (∀ field, edit ≠ .declareField id field) → ty'.declared = ty.declared
  matchArgs
    : ty'.matchArgs = ty.matchArgs ∨ ty'.matchArgs = some (w.types.fieldOrder id).toList
  installed
    : ∀ b,
        ty'.installed b = ty.installed b
        ∨ (∃ method, edit = .attach id b method ∧ ty'.installed b = ⟨some method, false⟩)
        ∨ ∃ selection method,
          edit = .equip id selection
          ∧ ((Synthesis.equip selection id).outcome w).1 = .ok ()
          ∧ b ∈ Synthesis.wanted selection (some ty)
          ∧ ty'.installed b = ⟨some method, true⟩

/-- An edit that does not concern the type leaves it as it is. -/
theorem Edited.refl (w : Workshop) (edit : Edit) (id : TypeId) (ty : RecordType)
    : w.Edited edit id ty ty :=
  ⟨rfl, rfl, fun _ => rfl, Or.inl rfl, fun _ => Or.inl rfl⟩

theorem edited_equip {selection : Selection} {methods : List (Behavior × Method)}
    (equipped : ((Synthesis.equip selection id).outcome w).1 = .ok ())
    (behaviors : methods.map Prod.fst = Synthesis.wanted selection (some ty))
    : w.Edited (.equip id selection) id ty
        ((ty.attachAll methods).setMatchArgs (w.types.fieldOrder id).toList) := by
  refine ⟨RecordType.name_attachAll ty methods, RecordType.parent_attachAll ty methods,
    fun _ => declared_attachAll ty methods, Or.inr rfl, ?_⟩
  intro b
  rcases ty.installed_attachAll methods b with ⟨method, member, isLast⟩ | ⟨absent, kept⟩
  · have chosen : b ∈ Synthesis.wanted selection (some ty) :=
      behaviors ▸ List.mem_map_of_mem member
    exact Or.inr (Or.inr ⟨selection, method, rfl, equipped, chosen, isLast⟩)
  · exact Or.inl kept

/-- Every edit keeps a type that there is. -/
theorem edited (isType : w.types.get? id = some ty) (edit : Edit)
    : ∃ ty', (w.after edit).types.get? id = some ty' ∧ w.Edited edit id ty ty' := by
  cases edit with
  | declareType name parent fields methods =>
      exact ⟨ty, TypeTable.get?_declareType_of_some isType _ _ _ _, .refl _ _ _ _⟩
  | declareField other field =>
      unfold after
      rw [TypeTable.get?_declareField, isType]
      split
      · next same =>
        refine ⟨_, rfl, rfl, rfl, ?_, Or.inl rfl, fun _ => Or.inl rfl⟩
        exact fun otherwise => absurd (same ▸ rfl) (otherwise field)
      · exact ⟨ty, rfl, .refl _ _ _ _⟩
  | attach other behavior method =>
      unfold after
      rw [TypeTable.get?_attach, isType]
      split
      · next same =>
        refine ⟨_, rfl, rfl, rfl, fun _ => rfl, Or.inl rfl, ?_⟩
        intro b
        rw [RecordType.installed_attach]
        split
        · next isBehavior => exact Or.inr (Or.inl ⟨method, same ▸ isBehavior ▸ rfl, rfl⟩)
        · exact Or.inl rfl
      · exact ⟨ty, rfl, .refl _ _ _ _⟩
  | equip other selection =>
      obtain ⟨requests, ⟨error, isResult⟩ | ⟨methods, isResult, behaviors, -⟩⟩ :=
        Synthesis.equip_outcome w selection other
      · refine ⟨ty, ?_, .refl _ _ _ _⟩
        rw [after, isResult]
        exact isType
      rw [after, isResult, TypeTable.get?_setMatchArgs, TypeTable.get?_attachAll]
      by_cases same : other = id
      · subst same
        rw [isType] at behaviors
        rw [if_pos rfl, if_pos rfl, isType]
        exact ⟨_, rfl, edited_equip (congrArg Prod.fst isResult) behaviors⟩
      · rw [if_neg same, if_neg same]
        exact ⟨ty, isType, .refl _ _ _ _⟩

/-- Only by attaching a method does its user define a behavior. -/
theorem Edited.userDefines {ty' : RecordType} (edited : w.Edited edit id ty ty')
    (unattached : ∀ method, edit ≠ .attach id behavior method)
    (isUser : ty'.userDefines behavior = true)
    : ty.userDefines behavior = true := by
  obtain ⟨own, isOwn⟩ := RecordType.userDefines_iff.mp isUser
  rcases edited.installed behavior
    with kept | ⟨method, isAttached, -⟩ | ⟨selection, method, -, -, -, isNew⟩
  · exact RecordType.userDefines_iff.mpr ⟨own, kept.symm.trans isOwn⟩
  · exact absurd isAttached (unattached method)
  · cases isNew.symm.trans isOwn

/-- A type that there is stays, with its name, by induction on the edits. -/
theorem exists_replay (isType : w.types.get? id = some ty) (edits : List Edit)
    : ∃ ty',
        (w.replay edits).types.get? id = some ty'
        ∧ ty'.name = ty.name
        ∧ ∀ b, (∀ method, .attach id b method ∉ edits) →
          ty'.userDefines b = true → ty.userDefines b = true := by
  induction edits generalizing w ty with
  | nil => exact ⟨ty, isType, rfl, fun _ _ isUser => isUser⟩
  | cons edit rest ih =>
      obtain ⟨next, isNext, edited⟩ := edited isType edit
      obtain ⟨last, isLast, name, userDefines⟩ := ih isNext
      refine ⟨last, isLast, name.trans edited.name, ?_⟩
      intro b unattached isUser
      obtain ⟨first, others⟩ := forall_and.mp fun method =>
        not_or.mp (mt List.mem_cons.mpr (unattached method))
      exact edited.userDefines (fun method same => first method same.symm)
        (userDefines b others isUser)

-----------------------------------------------------------------------------------------
-- What edits make of the line and of the fields
-----------------------------------------------------------------------------------------

theorem ancestry_after (isType : w.types.get? id = some ty) (edit : Edit)
    : (w.after edit).types.ancestry id = w.types.ancestry id := by
  refine TypeTable.ancestry_congr ?_ isType
  intro a above isAbove
  obtain ⟨above', isAbove', edited⟩ := edited isAbove edit
  exact ⟨above', isAbove', edited.parent⟩

/-- The line of a type that there is never changes, by induction on the edits. -/
theorem ancestry_replay (isType : w.types.get? id = some ty) (edits : List Edit)
    : (w.replay edits).types.ancestry id = w.types.ancestry id := by
  induction edits generalizing w ty with
  | nil => rfl
  | cons edit rest ih =>
      obtain ⟨ty', isType', -⟩ := edited isType edit
      exact (ih isType').trans (ancestry_after isType edit)

/-- The fields are the same as long as no type of the line gets one. -/
theorem fieldNames_after (isType : w.types.get? id = some ty)
    (fixed : edit.Spares (w.types.ancestry id))
    : (w.after edit).fieldNames id = w.fieldNames id := by
  refine TypeTable.keys_fieldOrder_congr (ancestry_after isType edit) ?_
  intro a member
  obtain ⟨⟨above, isAbove⟩, -⟩ := TypeTable.line_of_mem_ancestry member
  obtain ⟨above', isAbove', edited⟩ := edited isAbove edit
  unfold TypeTable.declared
  rw [isAbove, isAbove']
  dsimp only
  rw [edited.declared (fixed a member)]

theorem fieldNames_replay (isType : w.types.get? id = some ty)
    (fixed : ∀ edit ∈ edits, edit.Spares (w.types.ancestry id))
    : (w.replay edits).fieldNames id = w.fieldNames id := by
  induction edits generalizing w ty with
  | nil => rfl
  | cons edit rest ih =>
      obtain ⟨first, others⟩ := List.forall_mem_cons.mp fixed
      obtain ⟨ty', isType', -⟩ := edited isType edit
      rw [← ancestry_after isType edit] at others
      exact (ih isType' others).trans (fieldNames_after isType first)

-----------------------------------------------------------------------------------------
-- What having been equipped leaves
-----------------------------------------------------------------------------------------

/-- The type has its present fields recorded, and a method for the behavior. The method is its
user's or has been synthesized for these fields.
-/
structure Serves (w : Workshop) (id : TypeId) (behavior : Behavior) : Prop where
  recorded
    : ∃ fields, w.types.matchArgs id = some fields ∧ fields.map Field.name = w.fieldNames id
  method
    : ∃ own synthesized,
        w.installed? id behavior = some ⟨some own, synthesized⟩
        ∧ (synthesized = true → own.SynthesizedFor behavior (w.fieldNames id))

/-- A method that an edit has synthesized is for the fields that there are. -/
theorem synthesizedFor_after {selection : Selection} {method : Method}
    (reached : ∃ region, w.store.Reachable Template.standard region)
    (equipped : ((Synthesis.equip selection id).outcome w).1 = .ok ())
    (chosen : behavior ∈ Synthesis.wanted selection (w.types.get? id))
    (installed : (w.after (.equip id selection)).installed? id behavior = some ⟨some method, true⟩)
    : method.SynthesizedFor behavior (w.fieldNames id) := by
  refine ⟨w, selection, id, reached, equipped, chosen, rfl, ?_⟩
  rw [ownMethod?_eq, installed, Option.bind_some]

/-- A successful selection of the behavior leaves it served. -/
theorem serves_equip {selection : Selection}
    (reached : ∃ region, w.store.Reachable Template.standard region)
    (isType : w.types.get? id = some ty)
    (equipped : ((Synthesis.equip selection id).outcome w).1 = .ok ())
    (selected : selection.contains behavior = true)
    : (w.after (.equip id selection)).Serves id behavior := by
  obtain ⟨methods, behaviors, isEquipped⟩ := get?_after_equip equipped
  have names : (w.after (.equip id selection)).fieldNames id = w.fieldNames id :=
    fieldNames_after isType nofun
  rw [isType, Option.map_some] at isEquipped
  refine ⟨⟨(w.types.fieldOrder id).toList, ?_, names.symm⟩, ?_⟩
  · rw [TypeTable.matchArgs, isEquipped]
    rfl
  rw [names]
  have installed : (w.after (.equip id selection)).installed? id behavior
      = some ((ty.attachAll methods).installed behavior) := by
    rw [installed?, isEquipped]
    rfl
  rcases ty.installed_attachAll methods behavior with ⟨method, member, isLast⟩ | ⟨absent, kept⟩
  · rw [isLast] at installed
    refine ⟨_, _, installed, fun _ => ?_⟩
    exact synthesizedFor_after reached equipped (behaviors ▸ List.mem_map_of_mem member) installed
  -- It was left out although it is selected, so it is the user's.
  · rw [behaviors, isType, mem_wanted] at absent
    have userDefines : ty.userDefines behavior = true := by
      simpa [selected] using absent
    obtain ⟨own, isOwn⟩ := RecordType.userDefines_iff.mp userDefines
    rw [kept, isOwn] at installed
    exact ⟨own, false, installed, fun flagged => absurd flagged Bool.false_ne_true⟩

/-- An edit keeps a behavior served as long as no type of the line gets a field. -/
theorem Serves.after (serves : w.Serves id behavior)
    (reached : ∃ region, w.store.Reachable Template.standard region)
    (fixed : edit.Spares (w.types.ancestry id))
    : (w.after edit).Serves id behavior := by
  obtain ⟨⟨fields, recorded, isOrder⟩, own, flag, installed, synthesized⟩ := serves
  obtain ⟨ty, isType, isOwn⟩ := Option.map_eq_some_iff.mp installed
  obtain ⟨ty', isType', edited⟩ := edited isType edit
  have names := fieldNames_after isType fixed
  refine ⟨?_, ?_⟩
  · rw [TypeTable.matchArgs, isType, Option.bind_some] at recorded
    rw [TypeTable.matchArgs, isType', Option.bind_some, names]
    rcases edited.matchArgs with kept | isNew
    · exact ⟨fields, kept.trans recorded, isOrder⟩
    · exact ⟨_, isNew, rfl⟩
  · have installed' : (w.after edit).installed? id behavior = some (ty'.installed behavior) := by
      rw [installed?, isType', Option.map_some]
    rw [names, installed']
    rcases edited.installed behavior
      with kept | ⟨method, -, isNew⟩ | ⟨selection, method, rfl, equipped, chosen, isNew⟩
    · exact ⟨own, flag, congrArg some (kept.trans isOwn), synthesized⟩
    · exact ⟨method, false, congrArg some isNew, fun flagged => absurd flagged Bool.false_ne_true⟩
    · refine ⟨method, true, congrArg some isNew, fun _ => ?_⟩
      exact synthesizedFor_after reached equipped (isType ▸ chosen)
        (installed'.trans (congrArg some isNew))

/-- Edits keep a behavior served as long as no type of the line gets a field, by induction on the
edits.
-/
theorem Serves.replay (serves : w.Serves id behavior)
    (reached : ∃ region, w.store.Reachable Template.standard region)
    (fixed : ∀ edit ∈ edits, edit.Spares (w.types.ancestry id))
    : (w.replay edits).Serves id behavior := by
  induction edits generalizing w with
  | nil => exact serves
  | cons edit rest ih =>
      obtain ⟨own, flag, installed, -⟩ := serves.method
      obtain ⟨ty, isType, -⟩ := Option.map_eq_some_iff.mp installed
      obtain ⟨first, others⟩ := List.forall_mem_cons.mp fixed
      rw [← ancestry_after isType edit] at others
      exact ih (serves.after reached first) (reachable_replay reached [edit]) others

-----------------------------------------------------------------------------------------
-- Lines that are equipped
-----------------------------------------------------------------------------------------

/-- In the course of the edits, the type is equipped with a selection of the behavior. -/
def Equips (w : Workshop) (edits : List Edit) (id : TypeId) (behavior : Behavior) : Prop :=
  ∃ before selection after,
    edits = before ++ .equip id selection :: after
    ∧ (∃ ty, (w.replay before).types.get? id = some ty)
    ∧ ((Synthesis.equip selection id).outcome (w.replay before)).1 = .ok ()
    ∧ selection.contains behavior = true

/-- In the course of the edits, every type of the line is equipped with every behavior, and none
gets a field. After the edits, none has a behavior that its user has defined.
-/
structure EquipsLine (w : Workshop) (edits : List Edit) (bottom : TypeId) : Prop where
  reached : ∃ region, w.store.Reachable Template.standard region
  equips : ∀ a ∈ (w.replay edits).types.ancestry bottom, ∀ b, w.Equips edits a b
  fixed : ∀ edit ∈ edits, edit.Spares ((w.replay edits).types.ancestry bottom)
  notUser
    : ∀ a ∈ (w.replay edits).types.ancestry bottom, ∀ ty b,
        (w.replay edits).types.get? a = some ty → ty.userDefines b = false

theorem replay_of_eq_append {before after : List Edit} (split : edits = before ++ edit :: after)
    : w.replay edits = ((w.replay before).after edit).replay after := by
  rw [split]
  simp only [replay, List.foldl_append, List.foldl_cons]

/-- What has been equipped with a behavior at some time keeps being served. -/
theorem Equips.serves (equips : w.Equips edits id behavior)
    (reached : ∃ region, w.store.Reachable Template.standard region)
    (fixed : ∀ edit ∈ edits, edit.Spares ((w.replay edits).types.ancestry id))
    : (w.replay edits).Serves id behavior := by
  obtain ⟨before, selection, after, split, ⟨ty, isType⟩, equipped, selected⟩ := equips
  have made := reachable_replay reached before
  have serves := serves_equip made isType equipped selected
  obtain ⟨ty', isType', -⟩ := edited isType (.equip id selection)
  rw [replay_of_eq_append split, ancestry_replay isType'] at fixed
  rw [replay_of_eq_append split]
  refine serves.replay (reachable_replay made [.equip id selection]) ?_
  intro edit later
  exact fixed edit (split ▸ List.mem_append_right before (List.mem_cons_of_mem _ later))

namespace EquipsLine

variable {bottom : TypeId}

theorem serves (equips : w.EquipsLine edits bottom)
    (inLine : id ∈ (w.replay edits).types.ancestry bottom) (behavior : Behavior)
    : (w.replay edits).Serves id behavior := by
  refine (equips.equips id inLine behavior).serves equips.reached ?_
  intro edit member a inBelow
  obtain ⟨-, ending⟩ := TypeTable.line_of_mem_ancestry inLine
  exact equips.fixed edit member a (ending.subset inBelow)

/-- A type of the line has its present fields recorded. -/
theorem recorded (equips : w.EquipsLine edits bottom)
    (inLine : id ∈ (w.replay edits).types.ancestry bottom)
    : ∃ fields,
        (w.replay edits).types.matchArgs id = some fields
        ∧ fields.map Field.name = (w.replay edits).fieldNames id :=
  (equips.serves inLine .construct).recorded

/-- A type of the line finds methods that have been synthesized for its present fields. -/
theorem finds (equips : w.EquipsLine edits bottom)
    (inLine : id ∈ (w.replay edits).types.ancestry bottom) (behavior : Behavior)
    : (w.replay edits).types.Finds id behavior ((w.replay edits).fieldNames id) := by
  obtain ⟨own, flag, installed, synthesized⟩ := (equips.serves inLine behavior).method
  obtain ⟨ty, isType, isOwn⟩ := Option.map_eq_some_iff.mp installed
  have isSynthesized : flag = true := by
    have notUser := equips.notUser id inLine ty behavior isType
    by_contra isUser
    rw [Bool.not_eq_true] at isUser
    subst isUser
    rw [RecordType.userDefines_iff.mpr ⟨own, isOwn⟩] at notUser
    cases notUser
  have isMethod : ty.ownMethod? behavior = some own :=
    congrArg RecordType.Installed.method? isOwn
  refine ⟨own, ?_, synthesized isSynthesized⟩
  rw [TypeTable.lookup, TypeTable.ancestry_of_get?_eq_some isType, List.findSome?_cons, isType,
    Option.bind_some, isMethod]

/-- The types of a line may be equipped one after the other, if none has a behavior that its user
has defined and the lowest has no more fields than a behavior binds.
-/
theorem of_few (reached : ∃ region, w.store.Reachable Template.standard region)
    (isType : w.types.get? bottom = some ty)
    (notUser
      : ∀ a ∈ w.types.ancestry bottom, ∀ ty b,
          w.types.get? a = some ty → ty.userDefines b = false)
    (few : (w.fieldNames bottom).length ≤ maxFields)
    : w.EquipsLine ((w.types.ancestry bottom).map (Edit.equip · .all)) bottom := by
  refine ⟨reached, ?_, Edit.spares_equip _ _ _, ?_⟩
  · intro a member b
    rw [ancestry_replay isType] at member
    obtain ⟨⟨above, isAbove⟩, -⟩ := TypeTable.line_of_mem_ancestry member
    obtain ⟨front, back, split⟩ := List.append_of_mem member
    obtain ⟨above', isAbove', -⟩ := exists_replay isAbove (front.map (Edit.equip · .all))
    obtain ⟨region, made⟩ := reachable_replay reached (front.map (Edit.equip · .all))
    refine ⟨front.map (Edit.equip · .all), .all, back.map (Edit.equip · .all), ?_,
      ⟨above', isAbove'⟩, ?_, ?_⟩
    · rw [split, List.map_append, List.map_cons]
    · have fits : ((w.replay (front.map (Edit.equip · .all))).fieldNames a).length
          ≤ maxFields := by
        rw [fieldNames_replay isAbove (Edit.spares_equip front .all _)]
        exact (TypeTable.prefix_keys_fieldOrder member).length_le.trans few
      obtain ⟨methods, requests, isResult, -⟩ := Synthesis.equip_of_few made .all fits
      rw [isResult]
    · cases b <;> rfl
  · intro a member ty' b isType'
    rw [ancestry_replay isType] at member
    obtain ⟨⟨above, isAbove⟩, -⟩ := TypeTable.line_of_mem_ancestry member
    obtain ⟨last, isLast, -, userDefines⟩ :=
      exists_replay isAbove ((w.types.ancestry bottom).map (Edit.equip · .all))
    rw [isLast] at isType'
    cases isType'
    rw [← Bool.not_eq_true]
    intro isUser
    have before := userDefines b (by simp) isUser
    rw [notUser a member above b isAbove] at before
    cases before

end EquipsLine

end Workshop

end RecordSynth
