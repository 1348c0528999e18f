import RecordSynth.Behavior.Basic
import RecordSynth.Text.Blank

/-! Selections of behaviors: which of them are to be synthesized. A selection is written as a
list of names with commas between them.
-/

namespace RecordSynth

/-- A set of behaviors. -/
structure Selection where
  chosen : PerBehavior Bool
  deriving DecidableEq, Inhabited

namespace Selection

/-- No behavior. -/
def none : Selection :=
  ⟨.all false⟩

/-- Every behavior. -/
def all : Selection :=
  ⟨.all true⟩

/-- Whether the behavior is selected. -/
def contains (s : Selection) (b : Behavior) : Bool :=
  s.chosen.get b

/-- The selection with one more behavior. -/
def insert (s : Selection) (b : Behavior) : Selection :=
  ⟨s.chosen.set b true⟩

/-- The selection without a behavior. -/
def erase (s : Selection) (b : Behavior) : Selection :=
  ⟨s.chosen.set b false⟩

/-- The behaviors in either selection. -/
def union (s t : Selection) : Selection :=
  Behavior.all.foldl (fun u b => if t.contains b then u.insert b else u) s

/-- The selection of the behaviors in a list. -/
def ofList (behaviors : List Behavior) : Selection :=
  behaviors.foldl insert none

/-- The selected behaviors, in the order of synthesis. -/
def toList (s : Selection) : List Behavior :=
  Behavior.all.filter s.contains

/-- What is synthesized unless another selection is made. -/
def standard : Selection :=
  ofList [.construct, .display, .equality]

/-- The bit of a behavior. -/
def bit (b : Behavior) : Nat :=
  match b with
  | .construct => 1
  | .display => 2
  | .equality => 4
  | .iteration => 8
  | .hashing => 16

/-- The selection as a number: the sum of the bits of its behaviors. -/
def bits (s : Selection) : Nat :=
  s.toList.foldl (fun total b => total + bit b) 0

/-- The name of a behavior in the inspected form of a selection. -/
def label : Behavior → String
  | .construct => "CONSTRUCT"
  | .display => "DISPLAY"
  | .equality => "EQUALITY"
  | .iteration => "ITERATION"
  | .hashing => "HASHING"

/-- The inspected form of a selection. -/
def inspect (s : Selection) : String :=
  match s.toList with
  | [] => "Behaviors(0x0)"
  | chosen => "Behaviors(" ++ String.intercalate " | " (chosen.map label) ++ ")"

@[simp] theorem contains_insert (s : Selection) (b c : Behavior)
    : (s.insert b).contains c = (decide (b = c) || s.contains c) := by
  simp only [contains, insert, PerBehavior.get_set]
  split <;> simp_all

@[simp] theorem contains_erase (s : Selection) (b c : Behavior)
    : (s.erase b).contains c = (!decide (b = c) && s.contains c) := by
  simp only [contains, erase, PerBehavior.get_set]
  split <;> simp_all

/-- Selections that contain the same behaviors are the same. -/
theorem ext_contains {s t : Selection} (same : ∀ b, s.contains b = t.contains b) : s = t := by
  cases s
  cases t
  exact congrArg mk (PerBehavior.ext_get same)

theorem mem_toList {s : Selection} {b : Behavior} : b ∈ s.toList ↔ s.contains b = true := by
  simp [toList]

/-- A name in the list that is neither a behavior's nor a selection's. -/
structure UnknownName where
  name : String
  deriving DecidableEq, Inhabited

/-- The error message. -/
def UnknownName.message (error : UnknownName) : String :=
  "unknown behavior `" ++ error.name ++ "`"

/-- The selection that a name in a list stands for. -/
def ofName (name : String) : Except UnknownName Selection :=
  if name == "all" then .ok all
  else if name == "none" then .ok none
  else if name == "default" then .ok standard
  else
    match Behavior.ofName? name with
    | some b => .ok (none.insert b)
    | .none => .error ⟨name⟩

/-- The parts of a text between its commas. -/
def splitCommas (cs : List Char) : List (List Char) :=
  cs.splitOn ','

/-- The names in a list: its parts without the white space around them, empty ones left out. -/
def namesOf (text : String) : List String :=
  (((splitCommas text.toList).map Text.trim).filter (!·.isEmpty)).map String.ofList

/-- The selection that a text lists: all that its names stand for. -/
def ofText (text : String) : Except UnknownName Selection :=
  (namesOf text).foldlM (fun s name => (ofName name).map s.union) none

end Selection

end RecordSynth
