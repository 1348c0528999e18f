import RecordSynth.Proofs.Synthesis.Interleaving

/-! How often calls that equip types at the same time compile. A call that finds no artifact
compiles the template, and by the time it puts its artifact into the store another call may have put
in one. The compilations beyond those of equipping one after the other are as many as such late
puts.
-/

namespace RecordSynth

namespace TemplateStore

variable {s s' : TemplateStore}

end TemplateStore

namespace Synthesis

namespace Batch

end Batch

namespace Call

variable {v : Workshop} {selection : Selection} {stopped : Bool} {call : Call}

end Call

namespace Batch

variable {selection : Selection} {b : Batch}

end Batch

-----------------------------------------------------------------------------------------
-- How often is compiled at most
-----------------------------------------------------------------------------------------

namespace Stage

/-- The behaviors whose templates a call may still compile. -/
def ahead (selection : Selection) : Stage → List Behavior
  | waiting => selection.toList
  | starting => selection.toList
  | choosing behavior left => behavior :: left
  | checking behavior left => behavior :: left
  | seeking behavior left => behavior :: left
  | compiling behavior left => behavior :: left
  | putting _ _ left => left
  | _ => []

end Stage

namespace Call

variable {w v : Workshop} {selection : Selection} {stopped : Bool} {call : Call}

end Call

namespace Batch

variable {w : Workshop} {selection : Selection} {ids : List TypeId} {b : Batch}

end Batch

end Synthesis

end RecordSynth
