import RecordSynth.Program.Basic
import RecordSynth.Value

/-! Artifacts: programs whose text constants have been made. A text constant is the same text each
time it is loaded, also by the other programs that share the constants.
-/

namespace RecordSynth

/-- A program whose text constants have been made: the constant at position `i` is at the offset
`i` behind `literals`.
-/
structure Artifact where
  program : Program
  literals : Address
  deriving DecidableEq, Inhabited

/-- The value of the constant at a position. -/
def Artifact.const? (a : Artifact) (position : Nat) : Option Value :=
  match a.program.consts[position]? with
  | none => none
  | some .none => some .none
  | some .notApplicable => some .notApplicable
  | some (.bool b) => some (.bool b)
  | some (.int n) => some (.int n)
  | some (.str text) => some (.str ⟨a.literals.region, a.literals.offset + position⟩ text)

/-- The same artifact over another program with the same constants. -/
def Artifact.withProgram (a : Artifact) (program : Program) : Artifact :=
  ⟨program, a.literals⟩

end RecordSynth
