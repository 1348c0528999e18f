import RecordSynth.Proofs.Behavior.FieldOrder
import RecordSynth.Proofs.Synthesis.Races

/-! Equipping types in different orders, and at the same time. What decides how a type is equipped
is not changed by equipping it or any other, so neither the order nor the schedule matters for what
succeeds or, but for where text constants are made, for what types and store hold in the end.
-/

namespace RecordSynth

-----------------------------------------------------------------------------------------
-- Workshops that hold alike
-----------------------------------------------------------------------------------------

namespace Synthesis

variable {w w' : Workshop} {selection selection' : Selection} {id id' : TypeId}

-----------------------------------------------------------------------------------------
-- Two types in either order
-----------------------------------------------------------------------------------------

/-- A type is equipped with the same outcome before and after another one, or itself. -/
theorem outcome_equip_after_equip (w : Workshop) (selection selection' : Selection)
    (id id' : TypeId)
    : ((equip selection' id').outcome ((equip selection id).outcome w).2).1
      = ((equip selection' id').outcome w).1 := by
  rw [outcome_equip_eq, outcome_equip_eq, (agrees_equip w selection id).firstObstacle?]

end Synthesis

end RecordSynth
