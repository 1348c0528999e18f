import RecordSynth.Proofs.Synthesis.Progress

/-! Calls that equip types at the same time. Whatever the schedule, each call ends as it would
alone, and what the types hold can be read off from where the calls are. So when all have ended
well, types and store hold what they hold after equipping the types one after the other.
-/

namespace RecordSynth.Synthesis

-----------------------------------------------------------------------------------------
-- Where the calls are tells what types hold
-----------------------------------------------------------------------------------------

namespace Stage

/-- Whether the call has installed its methods. -/
def hasFitted : Stage → Bool
  | recording => true
  | ended (.ok ()) => true
  | _ => false

/-- Whether the call has recorded the field order. -/
def hasRecorded : Stage → Bool
  | ended (.ok ()) => true
  | _ => false

theorem not_hasFitted_next (left : List Behavior) : (next left).hasFitted = false := by
  cases left <;> rfl

theorem not_hasRecorded_next (left : List Behavior) : (next left).hasRecorded = false := by
  cases left <;> rfl

end Stage

namespace Call

variable {w v : Workshop} {selection : Selection} {stopped : Bool} {call : Call}

theorem not_hasFitted_bind (call : Call) (typeName : String) (behavior : Behavior)
    (artifact : Artifact) (left : List Behavior)
    : (call.bind typeName behavior artifact left).stage.hasFitted = false
      ∧ (call.bind typeName behavior artifact left).stage.hasRecorded = false := by
  unfold bind
  split
  · exact ⟨rfl, rfl⟩
  · exact ⟨Stage.not_hasFitted_next left, Stage.not_hasRecorded_next left⟩

/-- Types change when a call installs its methods and when it records the field order. -/
theorem types_turn (selection : Selection) (stopped : Bool) (v : Workshop) (call : Call)
    : let y := call.turn selection stopped v
      (call.stage = .installing
        ∧ y.1.stage = .recording
        ∧ y.2.types = v.types.attachAll call.id call.made.reverse)
      ∨ (call.stage = .recording
        ∧ y.1.stage = .ended (.ok ())
        ∧ y.2.types = v.types.setMatchArgs call.id call.fields)
      ∨ (y.2.types = v.types
        ∧ y.1.stage.hasFitted = call.stage.hasFitted
        ∧ y.1.stage.hasRecorded = call.stage.hasRecorded) := by
  intro y
  have moves : Moves selection stopped v call y := moves_turn selection stopped v call
  have bound := not_hasFitted_bind call (v.types.name call.id)
  clear_value y
  cases moves with
  | install isNext => exact Or.inl ⟨isNext, rfl, rfl⟩
  | record isNext => exact Or.inr (Or.inl ⟨isNext, rfl, rfl⟩)
  | rest finished => exact Or.inr (Or.inr ⟨rfl, rfl, rfl⟩)
  | collect isNext few =>
      rw [isNext]
      exact Or.inr (Or.inr ⟨rfl, Stage.not_hasFitted_next _, Stage.not_hasRecorded_next _⟩)
  | spare isNext unflagged =>
      rw [isNext]
      exact Or.inr (Or.inr ⟨rfl, Stage.not_hasFitted_next _, Stage.not_hasRecorded_next _⟩)
  | find isNext present =>
      rw [isNext]
      exact Or.inr (Or.inr ⟨rfl, bound _ _ _⟩)
  | put isNext =>
      rw [isNext]
      exact Or.inr (Or.inr ⟨rfl, bound _ _ _⟩)
  | _ isNext =>
      rw [isNext]
      exact Or.inr (Or.inr ⟨rfl, rfl, rfl⟩)

end Call

namespace Batch

/-- Whether a call has installed methods on a type. -/
def isFitted (b : Batch) (id : TypeId) : Bool :=
  b.calls.any fun call => decide (call.id = id) && call.stage.hasFitted

/-- Whether a call has recorded the field order of a type. -/
def isRecorded (b : Batch) (id : TypeId) : Bool :=
  b.calls.any fun call => decide (call.id = id) && call.stage.hasRecorded

/-- Once a call has come so far, it has come so far. -/
theorem any_set {calls : List Call} {i : Nat} {call call' : Call} {p : Call → Bool}
    (found : calls[i]? = some call) (stays : p call = true → p call' = true)
    : (calls.set i call').any p = (calls.any p || p call') := by
  induction calls generalizing i with
  | nil => cases found
  | cons first rest ih =>
      cases i with
      | zero =>
          cases found
          rw [List.set_cons_zero, List.any_cons, List.any_cons]
          cases isOld : p call with
          | true => rw [stays isOld, Bool.true_or, Bool.or_true]
          | false => rw [Bool.false_or, Bool.or_comm]
      | succ i =>
          rw [List.set_cons_succ, List.any_cons, List.any_cons, ih found, Bool.or_assoc]

theorem any_set_of_eq {calls : List Call} {i : Nat} {call call' : Call} {p : Call → Bool}
    (found : calls[i]? = some call) (same : p call' = p call)
    : (calls.set i call').any p = calls.any p := by
  rw [any_set found (fun isOld => same.trans isOld), same]
  cases isOld : p call with
  | false => exact Bool.or_false _
  | true =>
      rw [Bool.or_true]
      exact (List.any_eq_true.mpr ⟨call, List.mem_of_getElem? found, isOld⟩).symm

end Batch

/-- The templates that calls ask for, if there is no obstacle. -/
def requests (w : Workshop) (selection : Selection) (ids : List TypeId)
    : List (Behavior × Nat) :=
  ids.flatMap fun id =>
    (wanted selection (w.types.get? id)).map (·, (w.fieldNames id).length)

namespace Batch

variable {w : Workshop} {selection : Selection} {ids : List TypeId} {b : Batch}

/-- The calls have done what they do alone in the workshop that was there at first. What types hold
now can be read off from where the calls are. The store has got only what was asked for.
-/
structure Sound (w : Workshop) (selection : Selection) (ids : List TypeId) (b : Batch) : Prop where
  calls : ∀ call ∈ b.calls, call.Sound w b.workshop selection
  order : b.calls.map Call.id = ids
  types : ∀ id, b.workshop.types.content id
    = (w.types.content id).map
        (·.dressed (w.types.fieldOrder id).toList (made w selection id) (b.isFitted id)
          (b.isRecorded id))
  store : w.store.Grown (requests w selection ids) b.workshop.store
  stopped : b.stopped = b.calls.any (·.stage.error?.isSome)
  skipped : ∀ call ∈ b.calls, call.stage = .skipped → b.stopped = true

/-- What decides how types are equipped is as it was at first. -/
theorem Sound.agrees (sound : b.Sound w selection ids) : w.Agrees b.workshop := by
  refine ⟨?_, sound.store.programFor⟩
  funext id
  rw [TypeTable.outline_eq, TypeTable.outline_eq, sound.types, TypeTable.content]
  cases isType : w.types.get? id with
  | none => rfl
  | some ty =>
      refine congrArg some (ty.content.outline_dressed _ _ _ ?_)
      intro b isMade
      have chosen := wanted_of_made isMade
      rw [isType, Workshop.mem_wanted] at chosen
      rw [RecordType.outline_content]
      exact chosen.2

/-- A turn keeps telling what types hold. -/
theorem Sound.types_turn (sound : b.Sound w selection ids) {i : Nat} {call : Call}
    (found : b.calls[i]? = some call) (id : TypeId)
    : (b.turn selection i).workshop.types.content id
      = (w.types.content id).map
          (·.dressed (w.types.fieldOrder id).toList (made w selection id)
            ((b.turn selection i).isFitted id) ((b.turn selection i).isRecorded id)) := by
  have callSound := sound.calls call (List.mem_of_getElem? found)
  have sameId := @Call.id_turn b.workshop selection b.stopped call
  rw [turn_of_some selection found]
  dsimp only [isFitted, isRecorded]
  rcases Call.types_turn selection b.stopped b.workshop call
    with ⟨isNext, isAfter, isTypes⟩ | ⟨isNext, isAfter, isTypes⟩ | ⟨isTypes, fitted, recorded⟩
  · have working : call.Working w b.workshop selection [] := by
      unfold Call.Sound at callSound
      rwa [isNext] at callSound
    rw [isTypes, TypeTable.content_attachAll _ _ working.keys working.runs_reverse, sound.types,
      any_set found (by simp [isNext, Stage.hasFitted]),
      any_set_of_eq found (by simp [isNext, isAfter, Stage.hasRecorded]), sameId, isAfter]
    split
    · next same =>
      subst same
      rw [decide_eq_true rfl, Stage.hasFitted, Bool.true_and, Bool.or_true, Option.map_map]
      exact congrArg (Option.map · _) (funext fun c => c.fitted_dressed _ _ _)
    · next other =>
      rw [decide_eq_false other, Bool.false_and, Bool.or_false]
      rfl
  · have working : call.Working w b.workshop selection [] := by
      unfold Call.Sound at callSound
      rwa [isNext] at callSound
    rw [isTypes, TypeTable.content_setMatchArgs, sound.types,
      any_set_of_eq found (by rw [isNext, isAfter, sameId]; rfl),
      any_set found (by simp [isNext, Stage.hasRecorded]), sameId, isAfter]
    split
    · next same =>
      subst same
      rw [decide_eq_true rfl, Stage.hasRecorded, Bool.true_and, Bool.or_true, Option.map_map,
        working.fields]
      exact congrArg (Option.map · _) (funext fun c => c.recorded_dressed _ _ _)
    · next other =>
      rw [decide_eq_false other, Bool.false_and, Bool.or_false]
      rfl
  · rw [isTypes, sound.types, any_set_of_eq found (by rw [sameId, fitted]),
      any_set_of_eq found (by rw [sameId, recorded])]
    rfl

/-- Every turn keeps the batch sound. -/
theorem Sound.turn (sound : b.Sound w selection ids) (i : Nat)
    : (b.turn selection i).Sound w selection ids := by
  cases found : b.calls[i]? with
  | none => rwa [turn_of_none found]
  | some call =>
      have member := List.mem_of_getElem? found
      have callSound := sound.calls call member
      have types := sound.types_turn found
      have isTurn := turn_of_some selection found
      refine ⟨?_, ?_, types, ?_, ?_, ?_⟩
      all_goals rw [isTurn]
      · intro other isOther
        rcases List.mem_or_eq_of_mem_set isOther with old | rfl
        · exact (sound.calls other old).keeps (Call.keeps_turn ..)
        · exact callSound.turn sound.agrees sound.store
      · rw [List.map_set, Call.id_turn, ← sound.order]
        exact set_of_getElem? (by rw [List.getElem?_map, found]; rfl)
      · refine callSound.grown sound.store fun b chosen => ?_
        have isCall : call.id ∈ ids := sound.order ▸ List.mem_map_of_mem member
        exact List.mem_flatMap_of_mem isCall (List.mem_map_of_mem chosen)
      · rw [any_set found, ← sound.stopped]
        intro failed
        rw [Call.turn_of_isOver (Stage.isOver_of_error? failed)]
        exact failed
      · intro other isOther isSkipped
        refine Bool.or_eq_true_iff.mpr (Or.inl ?_)
        rcases List.mem_or_eq_of_mem_set isOther with old | rfl
        · exact sound.skipped other old isSkipped
        · rcases Call.stopped_of_skipped isSkipped with told | isOld
          · exact told
          · exact sound.skipped call member isOld

/-- So does every schedule, by induction on it. -/
theorem Sound.run (sound : b.Sound w selection ids) (schedule : List Nat)
    : (b.run selection schedule).Sound w selection ids := by
  induction schedule generalizing b with
  | nil => exact sound
  | cons i rest ih => exact ih (sound.turn i)

/-- A call that has ended has ended as it would alone. -/
theorem Sound.ended (sound : b.Sound w selection ids) {call : Call} (member : call ∈ b.calls)
    {outcome : Except SynthesisError Unit} (isEnded : call.stage = .ended outcome)
    : outcome = ((equip selection call.id).outcome w).1 := by
  have callSound := sound.calls call member
  unfold Call.Sound at callSound
  rw [isEnded] at callSound
  rw [outcome_equip_eq]
  cases outcome with
  | ok => rw [Call.Working.firstObstacle? callSound, Option.elim_none]
  | error error =>
      have isObstacle : firstObstacle? w selection call.id = some error := callSound
      rw [isObstacle, Option.elim_some]

section Success

variable (sound : b.Sound w selection ids)
  (each : ∀ id ∈ ids, ((equip selection id).outcome w).1 = .ok ())
include sound each

/-- Where each type can be equipped, no call fails. -/
theorem Sound.clear : ∀ call ∈ b.calls, call.stage.error? = none := by
  intro call member
  have isCall : call.id ∈ ids := sound.order ▸ List.mem_map_of_mem member
  cases isStage : call.stage with
  | ended outcome =>
      rw [sound.ended member isStage, each call.id isCall]
      rfl
  | _ => rfl

end Success

section Ended

variable (sound : b.Sound w selection ids)
  (ended : ∀ call ∈ b.calls, call.stage = .ended (.ok ()))
include sound ended

theorem Sound.any_ended {came : Stage → Bool} (hasCome : came (.ended (.ok ())) = true)
    (id : TypeId)
    : (b.calls.any fun call => decide (call.id = id) && came call.stage) = decide (id ∈ ids) := by
  rw [Bool.eq_iff_iff, List.any_eq_true, decide_eq_true_iff, ← sound.order, List.mem_map]
  refine exists_congr fun call => and_congr_right fun member => ?_
  rw [ended call member, hasCome, Bool.and_true, decide_eq_true_iff]

/-- When the calls have all ended well, each type that they are for has got what is made for it. -/
theorem Sound.content (id : TypeId)
    : b.workshop.types.content id
      = if id ∈ ids then
          (w.types.content id).map
            (·.equipped (w.types.fieldOrder id).toList (made w selection id))
        else w.types.content id := by
  rw [sound.types, isFitted, sound.any_ended ended rfl, isRecorded, sound.any_ended ended rfl]
  split
  · next member =>
    rw [decide_eq_true member]
    rfl
  · next absent =>
    rw [decide_eq_false absent]
    exact Option.map_id'

/-- When the calls have all ended well, the store has got what they asked for. -/
theorem Sound.programs (behavior : Behavior) (arity : Nat)
    : b.workshop.store.program? behavior arity
      = if (behavior, arity) ∈ requests w selection ids then
          (w.store.programFor behavior arity).toOption
        else w.store.program? behavior arity := by
  split
  · next asked =>
    obtain ⟨id, isId, isAsked⟩ := List.mem_flatMap.mp asked
    obtain ⟨_, chosen, isPair⟩ := List.mem_map.mp isAsked
    obtain ⟨rfl, rfl⟩ := Prod.mk.inj isPair
    obtain ⟨call, member, rfl⟩ := List.mem_map.mp (sound.order ▸ isId)
    have callSound := sound.calls call member
    unfold Call.Sound at callSound
    rw [ended call member] at callSound
    have working : call.Working w b.workshop selection [] := callSound
    rw [working.behaviors, remaining, List.filter_nil, List.append_nil, List.mem_reverse] at chosen
    obtain ⟨entry, isEntry, rfl⟩ := List.mem_map.mp chosen
    have present := working.present entry isEntry
    rw [working.length] at present
    obtain ⟨artifact, isArtifact⟩ := Option.isSome_iff_exists.mp present
    rw [← sound.store.programFor, TemplateStore.programFor_of_present isArtifact,
      TemplateStore.program?, isArtifact]
    rfl
  · next absent =>
    rcases sound.store.programs behavior arity with same | ⟨asked, -⟩
    · exact same
    · exact absurd asked absent

end Ended

end Batch

end RecordSynth.Synthesis
