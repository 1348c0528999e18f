import RecordSynth.Proofs.Synthesis.Content
import RecordSynth.Proofs.Synthesis.Turns

/-! What a call that equips a type has done at any of its turns, while others have theirs. It goes
by what was there when the first call began, as no call changes what decides how types are equipped.
-/

namespace RecordSynth

-----------------------------------------------------------------------------------------
-- Types and store in the course of equipping
-----------------------------------------------------------------------------------------

namespace RecordType.Content

/-- The content of a type on which methods may be installed, and for which a field order may be
recorded.
-/
def dressed (c : Content) (fields : List Field) (made : Behavior → Option Program)
    (isFitted isRecorded : Bool) : Content :=
  let c := if isFitted then c.fitted made else c
  if isRecorded then c.recorded fields else c

variable (c : Content) (fields : List Field) {made : Behavior → Option Program}
  (isFitted isRecorded : Bool)

theorem fitted_dressed
    : (c.dressed fields made isFitted isRecorded).fitted made
      = c.dressed fields made true isRecorded := by
  cases isFitted
  · cases isRecorded <;> rfl
  · cases isRecorded
    · exact c.fitted_fitted made
    · exact congrArg (·.recorded fields) (c.fitted_fitted made)

theorem recorded_dressed
    : (c.dressed fields made isFitted isRecorded).recorded fields
      = c.dressed fields made isFitted true := by
  cases isRecorded <;> rfl

theorem outline_dressed (spared : ∀ b, (made b).isSome = true → c.outline.userDefines b = false)
    : (c.dressed fields made isFitted isRecorded).outline = c.outline := by
  cases isFitted
  · cases isRecorded <;> rfl
  · cases isRecorded
    · exact c.outline_fitted spared
    · exact c.outline_fitted spared

end RecordType.Content

namespace TemplateStore

/-- The store may have got artifacts, for some of the requests for which it had none. -/
structure Grown (s : TemplateStore) (requests : List (Behavior × Nat)) (s' : TemplateStore)
    : Prop where
  library : s'.library = s.library
  programs : ∀ behavior arity,
    s'.program? behavior arity = s.program? behavior arity
    ∨ (behavior, arity) ∈ requests
      ∧ s.get? behavior arity = none
      ∧ s'.program? behavior arity = (compile s.library behavior arity).toOption

variable {s s' : TemplateStore} {requests : List (Behavior × Nat)}

theorem Grown.refl (s : TemplateStore) (requests : List (Behavior × Nat)) : s.Grown requests s :=
  ⟨rfl, fun _ _ => Or.inl rfl⟩

/-- A store that has grown answers as before. -/
theorem Grown.programFor (grown : s.Grown requests s') : s'.programFor = s.programFor := by
  funext behavior arity
  rw [programFor_eq, programFor_eq, grown.library]
  rcases grown.programs behavior arity with same | ⟨-, absent, isProgram⟩
  · rw [same]
  · rw [isProgram, program?_of_absent absent]
    cases compile s.library behavior arity <;> rfl

theorem Grown.absent (grown : s.Grown requests s') {behavior : Behavior} {arity : Nat}
    (absent : s'.get? behavior arity = none)
    : s.get? behavior arity = none := by
  rcases grown.programs behavior arity with same | ⟨-, absent, -⟩
  · rw [program?_of_absent absent] at same
    exact Option.map_eq_none_iff.mp same.symm
  · exact absent

theorem Grown.put (grown : s.Grown requests s') {behavior : Behavior} {arity : Nat}
    {artifact : Artifact} (asked : (behavior, arity) ∈ requests)
    (absent : s.get? behavior arity = none)
    (compiled : compile s.library behavior arity = .ok artifact.program)
    : s.Grown requests (s'.put behavior arity artifact) := by
  refine ⟨grown.library, fun behavior' arity' => ?_⟩
  rw [program?, get?_put]
  split
  · next same =>
    obtain ⟨rfl, rfl⟩ := Prod.mk.inj same
    exact Or.inr ⟨asked, absent, by rw [compiled]; rfl⟩
  · exact grown.programs behavior' arity'

end TemplateStore

/-- Methods and artifacts that are there stay there, be they the same or others. -/
structure Workshop.Keeps (v v' : Workshop) : Prop where
  methods : ∀ id b, (v.types.get? id).any (·.defines b) = true →
    (v'.types.get? id).any (·.defines b) = true
  artifacts : ∀ b arity, (v.store.get? b arity).isSome = true →
    (v'.store.get? b arity).isSome = true

theorem RecordType.defines_attachAll {ty : RecordType} {b : Behavior}
    (defines : ty.defines b = true) (methods : List (Behavior × Method))
    : (ty.attachAll methods).defines b = true := by
  have own : (ty.attachAll methods).defines b
      = ((ty.attachAll methods).installed b).method?.isSome := rfl
  rw [own]
  rcases ty.installed_attachAll methods b with ⟨method, -, isLast⟩ | ⟨-, kept⟩
  · rw [isLast]
    rfl
  · rw [kept]
    exact defines

theorem RecordType.any_userDefines (ty : Option RecordType) (b : Behavior)
    : ty.any (·.userDefines b) = (ty.any (·.defines b) && !ty.any (·.isSynthesized b)) := by
  cases ty <;> rfl

namespace Synthesis

namespace Call

variable {w v v' : Workshop} {selection : Selection} {stopped : Bool} {call : Call}

/-- No turn takes away a method or an artifact. -/
theorem keeps_turn (selection : Selection) (stopped : Bool) (v : Workshop) (call : Call)
    : v.Keeps (call.turn selection stopped v).2 := by
  have moves := moves_turn selection stopped v call
  generalize call.turn selection stopped v = y at moves ⊢
  cases moves with
  | put isNext =>
      refine ⟨fun _ _ there => there, fun b arity present => ?_⟩
      rw [TemplateStore.get?_put]
      split
      · rfl
      · exact present
  | install isNext =>
      refine ⟨fun id b defines => ?_, fun _ _ there => there⟩
      rw [TypeTable.get?_attachAll]
      split
      · obtain ⟨ty, isType, defines⟩ := (Option.any_eq_true _ _).mp defines
        rw [isType]
        exact RecordType.defines_attachAll defines _
      · exact defines
  | record isNext =>
      refine ⟨fun id b defines => ?_, fun _ _ there => there⟩
      rw [TypeTable.get?_setMatchArgs]
      split
      · obtain ⟨ty, isType, defines⟩ := (Option.any_eq_true _ _).mp defines
        rw [isType]
        exact defines
      · exact defines
  | _ => exact ⟨fun _ _ there => there, fun _ _ there => there⟩

theorem id_turn : (call.turn selection stopped v).1.id = call.id := by
  have moves := moves_turn selection stopped v call
  have id_bind (typeName : String) (behavior : Behavior) (artifact : Artifact)
      (left : List Behavior) : (call.bind typeName behavior artifact left).id = call.id := by
    unfold bind
    split <;> rfl
  generalize call.turn selection stopped v = y at moves ⊢
  cases moves with
  | find isNext present => exact id_bind _ _ _ _
  | put isNext => exact id_bind _ _ _ _
  | _ => rfl

end Call

-----------------------------------------------------------------------------------------
-- What a call has done so far
-----------------------------------------------------------------------------------------

/-- The behaviors of a list that the user has not defined on a type. -/
def remaining (w : Workshop) (id : TypeId) (left : List Behavior) : List Behavior :=
  left.filter fun b => !(w.types.get? id).any (·.userDefines b)

theorem remaining_cons_of_user {w : Workshop} {id : TypeId} {b : Behavior}
    (isUser : (w.types.get? id).any (·.userDefines b) = true) (left : List Behavior)
    : remaining w id (b :: left) = remaining w id left := by
  rw [remaining, List.filter_cons, isUser]
  rfl

theorem remaining_cons_of_not_user {w : Workshop} {id : TypeId} {b : Behavior}
    (notUser : (w.types.get? id).any (·.userDefines b) = false) (left : List Behavior)
    : remaining w id (b :: left) = b :: remaining w id left := by
  rw [remaining, List.filter_cons, notUser]
  rfl

theorem made_eq_some_iff {w : Workshop} {selection : Selection} {id : TypeId} {b : Behavior}
    {bound : Program}
    : made w selection id b = some bound
      ↔ b ∈ wanted selection (w.types.get? id)
        ∧ ∃ program,
          w.store.programFor b (w.fieldNames id).length = .ok program
          ∧ program.bind (w.fieldNames id) = .ok bound := by
  rw [made]
  split
  · next chosen =>
    cases w.store.programFor b (w.fieldNames id).length with
    | error error => simp [Except.toOption]
    | ok program =>
        dsimp only [Except.toOption, Option.bind_some]
        cases isResult : program.bind (w.fieldNames id) with
        | error error => simp [isResult]
        | ok bound' => simp [isResult, chosen]
  · next others => simp [others]

theorem obstacle?_of_made {w : Workshop} {selection : Selection} {id : TypeId} {b : Behavior}
    {bound : Program} (isMade : made w selection id b = some bound) (typeName : String)
    : obstacle? w.store typeName (w.fieldNames id) b = none := by
  obtain ⟨-, program, answer, binds⟩ := made_eq_some_iff.mp isMade
  rw [obstacle?, answer]
  dsimp only
  rw [binds]

namespace Call

variable {w v v' : Workshop} {selection : Selection} {stopped : Bool} {call : Call}

/-- The call has made methods for behaviors that the user has not defined, and those that are left
are the others. Each method is what the call would make alone, and its artifact is in the store.
-/
structure Working (w v : Workshop) (selection : Selection) (call : Call) (left : List Behavior)
    : Prop where
  fields : call.fields = (w.types.fieldOrder call.id).toList
  few : call.fields.length ≤ maxFields
  behaviors : wanted selection (w.types.get? call.id)
    = (call.made.map Prod.fst).reverse ++ remaining w call.id left
  runs : ∀ entry ∈ call.made, ∃ program,
    Synthesis.made w selection call.id entry.1 = some program ∧ entry.2.content = .inl program
  present : ∀ entry ∈ call.made, (v.store.get? entry.1 call.fields.length).isSome = true

/-- The call makes a method for a behavior that the user has not defined. -/
structure Seeking (w v : Workshop) (selection : Selection) (call : Call) (behavior : Behavior)
    (left : List Behavior) : Prop where
  working : call.Working w v selection (behavior :: left)
  notUser : (w.types.get? call.id).any (·.userDefines behavior) = false

/-- The call has done what it does alone in the workshop `w` that was there at first. The workshop
`v` is the one that there is now.
-/
def Sound (w v : Workshop) (selection : Selection) (call : Call) : Prop :=
  match call.stage with
  | .waiting => call.made = []
  | .starting => call.made = []
  | .choosing behavior left => call.Working w v selection (behavior :: left)
  | .checking behavior left =>
    call.Working w v selection (behavior :: left)
    ∧ (v.types.get? call.id).any (·.defines behavior) = true
  | .seeking behavior left => call.Seeking w v selection behavior left
  | .compiling behavior left =>
    call.Seeking w v selection behavior left
    ∧ w.store.get? behavior call.fields.length = none
  | .putting behavior artifact left =>
    call.Seeking w v selection behavior left
    ∧ w.store.get? behavior call.fields.length = none
    ∧ TemplateStore.compile w.store.library behavior call.fields.length = .ok artifact.program
  | .installing => call.Working w v selection []
  | .recording => call.Working w v selection []
  | .failing error => firstObstacle? w selection call.id = some error
  | .ended (.ok ()) => call.Working w v selection []
  | .ended (.error error) => firstObstacle? w selection call.id = some error
  | .skipped => True

theorem Working.keeps {left : List Behavior} (working : call.Working w v selection left)
    (keeps : v.Keeps v')
    : call.Working w v' selection left :=
  { working with present := fun entry member => keeps.artifacts _ _ (working.present entry member) }

theorem Seeking.keeps {behavior : Behavior} {left : List Behavior}
    (seeking : call.Seeking w v selection behavior left) (keeps : v.Keeps v')
    : call.Seeking w v' selection behavior left :=
  ⟨seeking.working.keeps keeps, seeking.notUser⟩

theorem Working.goOn {left : List Behavior} (working : call.Working w v selection left)
    (stage : Stage)
    : ({ call with stage := stage } : Call).Working w v selection left :=
  { working with }

theorem Seeking.goOn {behavior : Behavior} {left : List Behavior}
    (seeking : call.Seeking w v selection behavior left) (stage : Stage)
    : ({ call with stage := stage } : Call).Seeking w v selection behavior left :=
  ⟨seeking.working.goOn stage, seeking.notUser⟩

/-- What a call has done stays so when others have their turns. -/
theorem Sound.keeps (sound : call.Sound w v selection) (keeps : v.Keeps v')
    : call.Sound w v' selection := by
  unfold Sound at sound ⊢
  split at sound
  · exact sound
  · exact sound
  · exact sound.keeps keeps
  · exact ⟨sound.1.keeps keeps, keeps.methods _ _ sound.2⟩
  · exact sound.keeps keeps
  · exact ⟨sound.1.keeps keeps, sound.2⟩
  · exact ⟨sound.1.keeps keeps, sound.2⟩
  · exact sound.keeps keeps
  · exact sound.keeps keeps
  · exact sound
  · exact sound.keeps keeps
  · exact sound
  · exact sound

theorem Working.names {left : List Behavior} (working : call.Working w v selection left)
    : call.fields.map Field.name = w.fieldNames call.id := by
  rw [working.fields]
  rfl

theorem Working.length {left : List Behavior} (working : call.Working w v selection left)
    : call.fields.length = (w.fieldNames call.id).length := by
  rw [← working.names, List.length_map]

/-- What a call has made has no obstacle. -/
theorem Working.clear {left : List Behavior} (working : call.Working w v selection left)
    : ∀ b ∈ (call.made.map Prod.fst).reverse,
        obstacle? w.store (w.types.name call.id) (w.fieldNames call.id) b = none := by
  intro b member
  obtain ⟨entry, isEntry, rfl⟩ := List.mem_map.mp (List.mem_reverse.mp member)
  obtain ⟨program, isMade, -⟩ := working.runs entry isEntry
  exact obstacle?_of_made isMade _

/-- When no behaviors are left, there was no obstacle. -/
theorem Working.firstObstacle? (working : call.Working w v selection [])
    : Synthesis.firstObstacle? w selection call.id = none := by
  have few := working.few
  rw [working.length] at few
  rw [Synthesis.firstObstacle?, if_neg (Nat.not_lt.mpr few), List.findSome?_eq_none_iff]
  intro b member
  rw [working.behaviors] at member
  exact working.clear b (by simpa [remaining] using member)

/-- The obstacle of the behavior for which a call makes a method is the first. -/
theorem Seeking.firstObstacle? {behavior : Behavior} {left : List Behavior}
    (seeking : call.Seeking w v selection behavior left) {error : SynthesisError}
    (isObstacle : obstacle? w.store (w.types.name call.id) (w.fieldNames call.id) behavior
      = some error)
    : Synthesis.firstObstacle? w selection call.id = some error := by
  have few := seeking.working.few
  rw [seeking.working.length] at few
  rw [Synthesis.firstObstacle?, if_neg (Nat.not_lt.mpr few), List.findSome?_eq_some_iff]
  refine ⟨_, behavior, remaining w call.id left, ?_, isObstacle, seeking.working.clear⟩
  rw [seeking.working.behaviors, remaining_cons_of_not_user seeking.notUser]

theorem Sound.next {left : List Behavior} (working : call.Working w v selection left)
    (isNext : call.stage = .next left)
    : call.Sound w v selection := by
  unfold Sound
  rw [isNext]
  cases left with
  | nil => exact working
  | cons behavior left => exact working

/-- All behaviors for which something is made have their methods when none are left. -/
theorem Working.keys (working : call.Working w v selection []) (b : Behavior)
    (isMade : (Synthesis.made w selection call.id b).isSome = true)
    : b ∈ call.made.reverse.map Prod.fst := by
  have chosen := wanted_of_made isMade
  rw [working.behaviors] at chosen
  simpa [remaining] using chosen

theorem Working.runs_reverse {left : List Behavior} (working : call.Working w v selection left)
    : ∀ entry ∈ call.made.reverse, ∃ program,
        Synthesis.made w selection call.id entry.1 = some program
        ∧ entry.2.content = .inl program :=
  fun entry member => working.runs entry (List.mem_reverse.mp member)

theorem Seeking.chosen {behavior : Behavior} {left : List Behavior}
    (seeking : call.Seeking w v selection behavior left)
    : behavior ∈ wanted selection (w.types.get? call.id) := by
  rw [seeking.working.behaviors, remaining_cons_of_not_user seeking.notUser]
  exact List.mem_append_right _ List.mem_cons_self

/-- A method is made of an artifact whose program is what the store answers, or there is an
obstacle.
-/
theorem Seeking.bind {behavior : Behavior} {left : List Behavior}
    (seeking : call.Seeking w v selection behavior left) {artifact : Artifact}
    (answer : w.store.programFor behavior call.fields.length = .ok artifact.program)
    (present : (v.store.get? behavior call.fields.length).isSome = true)
    : (call.bind (w.types.name call.id) behavior artifact left).Sound w v selection := by
  have working := seeking.working
  rw [working.length] at answer
  rw [Call.bind, working.names]
  cases isResult : artifact.program.bind (w.fieldNames call.id) with
  | error error =>
      refine seeking.firstObstacle? ?_
      rw [obstacle?, answer]
      dsimp only
      rw [isResult]
  | ok program =>
      refine Sound.next (?_ : Working _ _ _ _ left) rfl
      refine ⟨working.fields, working.few, ?_, ?_, ?_⟩
      · rw [working.behaviors, remaining_cons_of_not_user seeking.notUser]
        simp
      · refine List.forall_mem_cons.mpr ⟨⟨program, ?_, rfl⟩, working.runs⟩
        exact made_eq_some_iff.mpr ⟨seeking.chosen, _, answer, isResult⟩
      · exact List.forall_mem_cons.mpr ⟨present, working.present⟩

/-- A turn of a call does what the call does alone, by the cases of what a turn can do. The workshop
that it finds agrees with the one that there was at first.
-/
theorem Sound.turn (sound : call.Sound w v selection) (agrees : w.Agrees v)
    {requests : List (Behavior × Nat)} (grown : w.store.Grown requests v.store)
    : (call.turn selection stopped v).1.Sound w (call.turn selection stopped v).2 selection := by
  have keeps := keeps_turn selection stopped v call
  have moves := moves_turn selection stopped v call
  have user (b : Behavior) : (w.types.get? call.id).any (·.userDefines b) = _ :=
    (TypeTable.userDefines_of_outline agrees.outline call.id b).symm.trans
      (RecordType.any_userDefines _ b)
  have name := TypeTable.name_of_outline agrees.outline call.id
  generalize call.turn selection stopped v = y at moves keeps ⊢
  unfold Sound at sound
  cases moves with
  | skip isNext => trivial
  | rest finished => exact sound
  | begin isNext =>
      rw [isNext] at sound
      exact sound
  | refuse isNext many =>
      change Synthesis.firstObstacle? w selection call.id = _
      rw [← agrees.firstObstacle?, Synthesis.firstObstacle?, Workshop.fieldNames, List.length_map,
        if_pos many]
  | collect isNext few =>
      rw [isNext] at sound
      refine Sound.next ⟨?_, few, ?_, ?_, ?_⟩ rfl
      · exact congrArg Roster.toList (TypeTable.fieldOrder_of_outline agrees.outline call.id)
      · rw [sound]
        rfl
      · rw [sound]
        exact List.forall_mem_nil _
      · rw [sound]
        exact List.forall_mem_nil _
  | lack isNext absent =>
      rw [isNext] at sound
      exact ⟨Working.goOn sound _, by rw [user, absent, Bool.false_and]⟩
  | own isNext present =>
      rw [isNext] at sound
      exact ⟨Working.goOn sound _, present⟩
  | renew isNext flagged =>
      rw [isNext] at sound
      exact ⟨sound.1.goOn _, by rw [user, flagged, Bool.not_true, Bool.and_false]⟩
  | spare isNext unflagged =>
      rw [isNext] at sound
      obtain ⟨working, present⟩ := sound
      refine Sound.next { working with behaviors := ?_ } rfl
      rw [working.behaviors, remaining_cons_of_user]
      rw [user, present, unflagged, Bool.not_false, Bool.and_true]
  | find isNext present =>
      rw [isNext] at sound
      rw [name]
      refine sound.bind ?_ (by rw [present]; rfl)
      rw [← agrees.answers]
      exact TemplateStore.programFor_of_present present
  | miss isNext absent =>
      rw [isNext] at sound
      exact ⟨Seeking.goOn sound _, grown.absent absent⟩
  | reject isNext fails =>
      rw [isNext] at sound
      obtain ⟨seeking, absent⟩ := sound
      refine seeking.firstObstacle? ?_
      rw [grown.library, seeking.working.length] at fails
      rw [seeking.working.length] at absent
      rw [obstacle?, TemplateStore.programFor_of_absent absent, fails]
  | make isNext compiled =>
      rw [isNext] at sound
      obtain ⟨seeking, absent⟩ := sound
      rw [grown.library] at compiled
      exact ⟨(seeking.keeps keeps).goOn _, absent, compiled⟩
  | put isNext =>
      rw [isNext] at sound
      obtain ⟨seeking, absent, compiled⟩ := sound
      rw [name]
      refine (seeking.keeps keeps).bind ?_ ?_
      · rw [TemplateStore.programFor_of_absent absent, compiled]
      · rw [TemplateStore.get?_put, if_pos rfl]
        rfl
  | install isNext =>
      rw [isNext] at sound
      exact (Working.keeps sound keeps).goOn _
  | record isNext =>
      rw [isNext] at sound
      exact (Working.keeps sound keeps).goOn _
  | tell isNext =>
      rw [isNext] at sound
      exact sound

/-- A call puts into the store what its template compiles to, where there was nothing at first. -/
theorem Sound.grown {requests : List (Behavior × Nat)} (sound : call.Sound w v selection)
    (grown : w.store.Grown requests v.store)
    (asks : ∀ b ∈ wanted selection (w.types.get? call.id),
      (b, (w.fieldNames call.id).length) ∈ requests)
    : w.store.Grown requests (call.turn selection stopped v).2.store := by
  have moves := moves_turn selection stopped v call
  generalize call.turn selection stopped v = y at moves ⊢
  unfold Sound at sound
  cases moves with
  | make isNext compiled => exact ⟨grown.library, grown.programs⟩
  | put isNext =>
      rw [isNext] at sound
      obtain ⟨seeking, absent, compiled⟩ := sound
      refine grown.put ?_ absent compiled
      rw [seeking.working.length]
      exact asks _ seeking.chosen
  | _ => exact grown

/-- A call is left out only when another has told that it failed. -/
theorem stopped_of_skipped (isSkipped : (call.turn selection stopped v).1.stage = .skipped)
    : stopped = true ∨ call.stage = .skipped := by
  have moves := moves_turn selection stopped v call
  have next (left : List Behavior) : Stage.next left ≠ .skipped := by
    cases left <;> nofun
  have bound (typeName : String) (behavior : Behavior) (artifact : Artifact)
      (left : List Behavior) : (call.bind typeName behavior artifact left).stage ≠ .skipped := by
    unfold bind
    split
    · nofun
    · exact next left
  generalize call.turn selection stopped v = y at moves isSkipped
  cases moves with
  | skip isNext told => exact Or.inl told
  | rest finished => exact Or.inr isSkipped
  | collect isNext few => exact absurd isSkipped (next _)
  | spare isNext unflagged => exact absurd isSkipped (next _)
  | find isNext present => exact absurd isSkipped (bound _ _ _ _)
  | put isNext => exact absurd isSkipped (bound _ _ _ _)
  | _ => cases isSkipped

end Call

end Synthesis

end RecordSynth
