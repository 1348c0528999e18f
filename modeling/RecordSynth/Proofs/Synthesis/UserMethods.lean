import RecordSynth.Proofs.Synthesis.Retention

/-! What users define on types, in the course of any history. The table of methods and the flags
of what is synthesized stay in step. So the user's method for a behavior is the last one that has
been supplied for it on the type itself, when the type was made or later. Nothing that is equipped,
with whichever store, takes part in that.
-/

namespace RecordSynth

namespace Edit

/-- How many types there are after an edit of `count` types. -/
def countAfter (count : Nat) : Edit → Nat
  | .declareType _ _ _ _ => count + 1
  | _ => count

/-- The methods that an edit of `count` types supplies for a behavior of a type, in order. -/
def supplied (id : TypeId) (b : Behavior) (count : Nat) : Edit → List Method
  | .declareType _ _ _ methods =>
    if id.index = count then (methods.filter (·.1 = b)).map Prod.snd else []
  | .attach other b' method => if other = id ∧ b' = b ∧ id.index < count then [method] else []
  | _ => []

/-- The methods that edits supply for a behavior of a type, in order. -/
def suppliedBy (id : TypeId) (b : Behavior) (count : Nat) : List Edit → List Method
  | [] => []
  | edit :: rest => edit.supplied id b count ++ suppliedBy id b (edit.countAfter count) rest

end Edit

-----------------------------------------------------------------------------------------
-- The user's method on a type
-----------------------------------------------------------------------------------------

namespace RecordType

variable (ty : RecordType) (b : Behavior)

/-- The type's own method for the behavior, if the user has defined it. -/
def userMethod? : Option Method :=
  if ty.userDefines b then ty.ownMethod? b else none

theorem userMethod?_eq
    : ty.userMethod? b
      = if (ty.installed b).isSynthesized then none else (ty.installed b).method? := by
  unfold userMethod? userDefines defines installed ownMethod?
  cases ty.methods.get b with
  | none => simp
  | some own => cases ty.isSynthesized b <;> rfl

theorem isSome_userMethod? : (ty.userMethod? b).isSome = ty.userDefines b := by
  unfold userMethod? userDefines defines ownMethod?
  cases ty.methods.get b with
  | none => rfl
  | some own => cases ty.isSynthesized b <;> rfl

theorem userMethod?_attach (b' : Behavior) (method : Method)
    : (ty.attach b' method).userMethod? b = if b' = b then some method else ty.userMethod? b := by
  rw [userMethod?_eq, userMethod?_eq, installed_attach]
  split
  · rfl
  · rfl

/-- Of the methods for a behavior the last one counts, by induction on the methods. -/
theorem userMethod?_attachUser (methods : List (Behavior × Method))
    : (ty.attachUser methods).userMethod? b
      = ((methods.filter (·.1 = b)).map Prod.snd).getLast?.or (ty.userMethod? b) := by
  induction methods generalizing ty with
  | nil => rfl
  | cons entry rest ih =>
      refine (ih (ty.attach entry.1 entry.2)).trans ?_
      rw [userMethod?_attach]
      by_cases same : entry.1 = b
      · simp [same, List.getLast?_cons]
      · simp [same]

/-- There is a flag only where there is a method. -/
def InStep (ty : RecordType) : Prop :=
  ∀ b, ty.isSynthesized b = true → ty.defines b = true

/-- Keeping what is installed for a behavior, or installing a method, keeps flags and methods in
step.
-/
theorem InStep.of_installed {ty ty' : RecordType} (inStep : ty.InStep)
    (changed
      : ∀ b,
          ty'.installed b = ty.installed b
          ∨ ∃ method flag, ty'.installed b = ⟨some method, flag⟩)
    : ty'.InStep := by
  intro b flagged
  rcases changed b with kept | ⟨method, flag, isNew⟩
  · have defines : ty'.defines b = ty.defines b := congrArg (·.method?.isSome) kept
    rw [defines]
    exact inStep b ((congrArg Installed.isSynthesized kept).symm.trans flagged)
  · exact congrArg (·.method?.isSome) isNew

/-- Synthesis leaves the user's methods, if it is not for what the user has defined. -/
theorem userMethod?_attachAll {methods : List (Behavior × Method)}
    (spared : ∀ b ∈ methods.map Prod.fst, ty.userDefines b = false)
    : (ty.attachAll methods).userMethod? b = ty.userMethod? b := by
  rcases ty.installed_attachAll methods b with ⟨method, member, isLast⟩ | ⟨-, kept⟩
  · have notUser := spared b (List.mem_map_of_mem member)
    rw [← isSome_userMethod?, Option.isSome_eq_false_iff, Option.isNone_iff_eq_none] at notUser
    rw [notUser, userMethod?_eq, isLast]
    rfl
  · rw [userMethod?_eq, userMethod?_eq, kept]

end RecordType

-----------------------------------------------------------------------------------------
-- What edits make of it
-----------------------------------------------------------------------------------------

namespace TypeTable

/-- The types after edits, in order, each of which finds some store. -/
def replay (t : TypeTable) (history : List (TemplateStore × Edit)) : TypeTable :=
  history.foldl (fun t entry => ((Workshop.mk t entry.1).after entry.2).types) t

/-- Every type of the table has flags and methods in step. -/
def InStep (t : TypeTable) : Prop :=
  ∀ ⦃id : TypeId⦄ ⦃ty : RecordType⦄, t.get? id = some ty → ty.InStep

theorem inStep_empty : empty.InStep := by
  intro id ty isType
  cases isType

/-- The method for a behavior that the user has defined on the type itself. -/
def userMethod? (t : TypeTable) (id : TypeId) (b : Behavior) : Option Method :=
  (t.get? id).bind (·.userMethod? b)

variable (t : TypeTable) (id : TypeId) (b : Behavior)

/-- Changing a type leaves the user's methods, if it leaves those of that type. -/
theorem userMethod?_modify (other : TypeId) (change : RecordType → RecordType)
    (keeps : ∀ ty, (change ty).parent = ty.parent)
    (left : ∀ ty, t.get? other = some ty → (change ty).userMethod? b = ty.userMethod? b)
    : (t.modify other change keeps).userMethod? id b = t.userMethod? id b := by
  unfold userMethod?
  rw [get?_modify]
  by_cases same : other = id
  swap
  · rw [if_neg same]
  subst same
  rw [if_pos rfl]
  cases isType : t.get? other with
  | none => rfl
  | some ty => exact left ty isType

theorem size_modify (f : RecordType → RecordType) (keeps : ∀ ty, (f ty).parent = ty.parent)
    : (t.modify id f keeps).entries.size = t.entries.size :=
  Array.size_modify

/-- Making a type supplies its methods, and changes no other type. -/
theorem userMethod?_declareType (name : String) (parent : Option TypeId) (fields : List Field)
    (methods : List (Behavior × Method))
    : (t.declareType name parent fields methods).2.userMethod? id b
      = ((Edit.declareType name parent fields methods).supplied id b t.entries.size).getLast?.or
          (t.userMethod? id b) := by
  unfold userMethod? Edit.supplied declareType add get?
  dsimp only
  rw [Array.getElem?_push]
  by_cases isNew : id.index = t.entries.size
  · rw [if_pos isNew, if_pos isNew, Array.getElem?_eq_none (Nat.le_of_eq isNew.symm)]
    refine (RecordType.userMethod?_attachUser _ b methods).trans ?_
    rw [RecordType.userMethod?_eq, RecordType.installed_bare]
    rfl
  · rw [if_neg isNew, if_neg isNew]
    rfl

/-- Attaching a method supplies it, if there is the type. -/
theorem userMethod?_attach (other : TypeId) (b' : Behavior) (method : Method)
    : (t.attach other b' method).userMethod? id b
      = ((Edit.attach other b' method).supplied id b t.entries.size).getLast?.or
          (t.userMethod? id b) := by
  unfold userMethod? Edit.supplied
  dsimp only
  rw [get?_attach]
  by_cases same : other = id
  swap
  · rw [if_neg same, if_neg (mt And.left same)]
    rfl
  cases isType : t.get? id with
  | none =>
      have absent : ¬id.index < t.entries.size :=
        Nat.not_lt.mpr (Array.getElem?_eq_none_iff.mp isType)
      rw [if_pos same, if_neg (fun all => absent all.2.2)]
      rfl
  | some ty =>
      obtain ⟨inTable, -⟩ := Array.getElem?_eq_some_iff.mp isType
      rw [if_pos same, Option.map_some, Option.bind_some, Option.bind_some,
        RecordType.userMethod?_attach]
      by_cases isBehavior : b' = b
      · rw [if_pos isBehavior, if_pos ⟨same, isBehavior, inTable⟩]
        rfl
      · rw [if_neg isBehavior, if_neg (fun all => isBehavior all.2.1)]
        rfl

/-- Equipping types supplies nothing, whether it succeeds or fails. -/
theorem userMethod?_equip (store : TemplateStore) (other : TypeId) (selection : Selection)
    : ((Workshop.mk t store).after (.equip other selection)).types.userMethod? id b
      = t.userMethod? id b := by
  obtain ⟨requests, ⟨error, isResult⟩ | ⟨methods, isResult, behaviors, -⟩⟩ :=
    Synthesis.equip_outcome ⟨t, store⟩ selection other
  · rw [Workshop.after, isResult]
  rw [Workshop.after, isResult]
  refine (userMethod?_modify _ id b other (·.setMatchArgs (t.fieldOrder other).toList)
    (fun _ => rfl) fun _ _ => rfl).trans ?_
  refine t.userMethod?_modify id b other (·.attachAll methods)
    (fun ty => ty.parent_attachAll methods) fun ty isType => ty.userMethod?_attachAll b ?_
  intro b' member
  rw [behaviors] at member
  change b' ∈ Synthesis.wanted selection (t.get? other) at member
  rw [isType, Workshop.mem_wanted] at member
  exact member.2

/-- After an edit the user's method is the last one that it supplies, or the one before. -/
theorem userMethod?_after (store : TemplateStore) (edit : Edit)
    : ((Workshop.mk t store).after edit).types.userMethod? id b
      = (edit.supplied id b t.entries.size).getLast?.or (t.userMethod? id b) := by
  cases edit with
  | declareType name parent fields methods =>
      exact t.userMethod?_declareType id b name parent fields methods
  | declareField other field =>
      exact t.userMethod?_modify id b other (·.declare field) (fun _ => rfl) fun _ _ => rfl
  | attach other b' method => exact t.userMethod?_attach id b other b' method
  | equip other selection => exact t.userMethod?_equip id b store other selection

theorem size_after (store : TemplateStore) (edit : Edit)
    : ((Workshop.mk t store).after edit).types.entries.size = edit.countAfter t.entries.size := by
  cases edit with
  | declareType name parent fields methods => exact Array.size_push _
  | declareField other field => exact t.size_modify other (·.declare field) fun _ => rfl
  | attach other b' method => exact t.size_modify other (·.attach b' method) fun _ => rfl
  | equip other selection =>
      obtain ⟨requests, ⟨error, isResult⟩ | ⟨methods, isResult, -, -⟩⟩ :=
        Synthesis.equip_outcome ⟨t, store⟩ selection other
      · rw [Workshop.after, isResult]
        rfl
      · rw [Workshop.after, isResult]
        exact (size_modify ..).trans (size_modify ..)

/-- A type that there is after an edit was there before, or has been made and has no flags. -/
theorem inStep_after (inStep : t.InStep) (store : TemplateStore) (edit : Edit)
    : ((Workshop.mk t store).after edit).types.InStep := by
  intro id ty' isType'
  cases isType : t.get? id with
  | some ty =>
      obtain ⟨ty'', isType'', edited⟩ := Workshop.edited (w := ⟨t, store⟩) isType edit
      obtain rfl : ty'' = ty' := Option.some.inj (isType''.symm.trans isType')
      refine (inStep isType).of_installed fun b => ?_
      rcases edited.installed b with kept | ⟨method, -, isNew⟩ | ⟨_, method, -, -, -, isNew⟩
      · exact Or.inl kept
      · exact Or.inr ⟨method, false, isNew⟩
      · exact Or.inr ⟨method, true, isNew⟩
  | none =>
      have absent : ¬id.index < t.entries.size :=
        Nat.not_lt.mpr (Array.getElem?_eq_none_iff.mp isType)
      obtain ⟨inTable, -⟩ := Array.getElem?_eq_some_iff.mp isType'
      rw [size_after] at inTable
      cases edit with
      | declareType name parent fields methods =>
          rcases t.get?_declareType name parent fields methods id
            with ⟨added, isAdded, notFlagged⟩ | kept
          · obtain rfl : added = ty' := Option.some.inj (isAdded.symm.trans isType')
            intro b flagged
            rw [notFlagged] at flagged
            cases flagged
          · cases isType'.symm.trans (kept.trans isType)
      | _ => exact absurd inTable absent

/-- Flags and methods stay in step in the course of a history, by induction on it. -/
theorem inStep_replay (inStep : t.InStep) (history : List (TemplateStore × Edit))
    : (t.replay history).InStep := by
  induction history generalizing t with
  | nil => exact inStep
  | cons entry rest ih => exact ih _ (t.inStep_after inStep entry.1 entry.2)

/-- After edits the user's method is the last one that they supply, or the one before them, by
induction on the edits.
-/
theorem userMethod?_replay (history : List (TemplateStore × Edit))
    : (t.replay history).userMethod? id b
      = (Edit.suppliedBy id b t.entries.size (history.map Prod.snd)).getLast?.or
          (t.userMethod? id b) := by
  induction history generalizing t with
  | nil => rfl
  | cons entry rest ih =>
      refine (ih ((Workshop.mk t entry.1).after entry.2).types).trans ?_
      rw [userMethod?_after, size_after, List.map_cons, Edit.suppliedBy, List.getLast?_append,
        Option.or_assoc]

/-- A type that there is stays, by induction on the edits. -/
theorem exists_replay {ty : RecordType} (isType : t.get? id = some ty)
    (history : List (TemplateStore × Edit))
    : ∃ ty', (t.replay history).get? id = some ty' := by
  induction history generalizing t ty with
  | nil => exact ⟨ty, isType⟩
  | cons entry rest ih =>
      obtain ⟨ty', isType', -⟩ :=
        Workshop.edited (w := ⟨t, entry.1⟩) isType entry.2
      exact ih _ isType'

/-- Equipping types supplies nothing in the course of a history either, by induction on it. -/
theorem userMethod?_replay_equips {history : List (TemplateStore × Edit)}
    (equips : ∀ entry ∈ history, ∃ other selection, entry.2 = .equip other selection)
    : (t.replay history).userMethod? id b = t.userMethod? id b := by
  induction history generalizing t with
  | nil => rfl
  | cons entry rest ih =>
      obtain ⟨⟨other, selection, isEquip⟩, others⟩ := List.forall_mem_cons.mp equips
      have first := t.userMethod?_equip id b entry.1 other selection
      rw [← isEquip] at first
      exact (ih _ others).trans first

end TypeTable

-----------------------------------------------------------------------------------------
-- What is left of what users define
-----------------------------------------------------------------------------------------

/-- Let types be made, get fields and methods, and be equipped, with any stores and whether or not
that succeeds. Then a behavior is flagged as synthesized only where the type has a method for it.
The user has defined a behavior on a type exactly if a method has been supplied for it on that
type, and the type's method is the last one that has been. It stays that one whatever types are
equipped from then on.
-/
theorem userDefines_replay_iff {history : List (TemplateStore × Edit)} {id : TypeId}
    {ty : RecordType} (isType : (TypeTable.empty.replay history).get? id = some ty) (b : Behavior)
    : let supplied := Edit.suppliedBy id b 0 (history.map Prod.snd)
      (ty.isSynthesized b = true → ty.defines b = true)
      ∧ (ty.userDefines b = true ↔ supplied ≠ [])
      ∧ (ty.userDefines b = true → ty.ownMethod? b = supplied.getLast?)
      ∧ ∀ later : List (TemplateStore × Edit),
        (∀ entry ∈ later, ∃ other selection, entry.2 = .equip other selection) →
        ∃ ty',
          (TypeTable.empty.replay (history ++ later)).get? id = some ty'
          ∧ ty'.userDefines b = ty.userDefines b
          ∧ (ty.userDefines b = true → ty'.ownMethod? b = ty.ownMethod? b) := by
  intro supplied
  have isUser : ty.userMethod? b = supplied.getLast? := by
    have last := TypeTable.empty.userMethod?_replay id b history
    rw [TypeTable.userMethod?, isType] at last
    exact last.trans (Option.or_none)
  have own {ty : RecordType} (defined : ty.userDefines b = true)
      : ty.ownMethod? b = ty.userMethod? b :=
    (if_pos defined).symm
  refine ⟨TypeTable.inStep_replay _ TypeTable.inStep_empty history isType b, ?_, ?_, ?_⟩
  · rw [← ty.isSome_userMethod? b, isUser]
    exact List.getLast?_isSome
  · intro defined
    exact (own defined).trans isUser
  · intro later equips
    have whole : TypeTable.empty.replay (history ++ later)
        = (TypeTable.empty.replay history).replay later :=
      List.foldl_append
    obtain ⟨ty', isType'⟩ := TypeTable.exists_replay _ id isType later
    have kept : ty'.userMethod? b = ty.userMethod? b := by
      have same := (TypeTable.empty.replay history).userMethod?_replay_equips id b equips
      rw [TypeTable.userMethod?, isType', TypeTable.userMethod?, isType] at same
      exact same
    have defined' : ty'.userDefines b = ty.userDefines b := by
      rw [← ty'.isSome_userMethod? b, kept, ty.isSome_userMethod? b]
    refine ⟨ty', whole ▸ isType', defined', fun defined => ?_⟩
    rw [own (defined'.trans defined), kept, own defined]

/-- A type that is displayed in its user's way is equipped, gets an equality in its user's way, and
is equipped once more, as is a type that descends from it.
-/
def overridden : List (TemplateStore × Edit) :=
  [.declareType "T" none [⟨"x", "int"⟩] [(.display, .primitive (.display 0))],
    .equip ⟨0⟩ .all,
    .attach ⟨0⟩ .equality (.primitive (.sameAttr "x")),
    .declareType "U" (some ⟨0⟩) [⟨"y", "int"⟩] [],
    .equip ⟨0⟩ .all,
    .equip ⟨1⟩ .all].map (.empty Template.standard 0, ·)

/-- Witness: construction is not the user's, display and equality are, each as supplied last. -/
theorem userDefines_replay_iff_overridden
    : ∃ ty,
        (TypeTable.empty.replay overridden).get? ⟨0⟩ = some ty
        ∧ ty.userDefines .construct = false
        ∧ ty.ownMethod? .display = some (.primitive (.display 0))
        ∧ ty.ownMethod? .equality = some (.primitive (.sameAttr "x")) := by
  obtain ⟨ty, isType⟩ :=
    (TypeTable.empty.replay (overridden.take 1)).exists_replay ⟨0⟩ rfl (overridden.drop 1)
  have isType' : (TypeTable.empty.replay overridden).get? ⟨0⟩ = some ty := isType
  have user := userDefines_replay_iff isType'
  obtain ⟨-, construct, -⟩ := user .construct
  obtain ⟨-, display, shown, -⟩ := user .display
  obtain ⟨-, equality, compared, -⟩ := user .equality
  refine ⟨ty, isType', ?_, shown (display.mpr nofun), compared (equality.mpr nofun)⟩
  exact Bool.eq_false_iff.mpr (mt construct.mp (not_not_intro rfl))

end RecordSynth
