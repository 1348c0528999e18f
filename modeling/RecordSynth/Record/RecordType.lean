import RecordSynth.Behavior.Selection
import RecordSynth.Record.Primitive
import RecordSynth.Roster.Basic

/-! Record types: the fields that a type declares itself, and the methods installed on it by its
user or by synthesis. Which methods are synthesized is told by flags that are kept apart from the
methods.
-/

namespace RecordSynth

/-- A declared field. The hint is documentation. -/
structure Field where
  name : String
  hint : String
  deriving DecidableEq, Inhabited

/-- Fields with distinct names, in the order of declaration. Declaring a name again keeps its
place and takes the later hint.
-/
abbrev Fields : Type := Roster Field.name

/-- A record type: its own methods, and the flags of the behaviors that synthesis installed. -/
structure RecordType where
  name : String
  parent : Option TypeId
  declared : Fields
  methods : PerBehavior (Option Method)
  synthesized : Selection
  matchArgs : Option (List Field)
  deriving Inhabited

namespace RecordType

/-- Whether the type itself has a method for the behavior. -/
def defines (ty : RecordType) (b : Behavior) : Bool :=
  (ty.methods.get b).isSome

/-- Whether the behavior is flagged as synthesized. -/
def isSynthesized (ty : RecordType) (b : Behavior) : Bool :=
  ty.synthesized.contains b

/-- Whether the type itself has a method for the behavior that is not flagged as synthesized. -/
def userDefines (ty : RecordType) (b : Behavior) : Bool :=
  ty.defines b && !ty.isSynthesized b

/-- The type's own method for the behavior. -/
def ownMethod? (ty : RecordType) (b : Behavior) : Option Method :=
  ty.methods.get b

/-- Declares a field. -/
def declare (ty : RecordType) (field : Field) : RecordType :=
  { ty with declared := ty.declared.insert field }

/-- Installs a user's method and takes the flag away. -/
def attach (ty : RecordType) (b : Behavior) (method : Method) : RecordType :=
  { ty with
    methods := ty.methods.set b (some method)
    synthesized := ty.synthesized.erase b }

/-- Installs users' methods, in order. -/
def attachUser (ty : RecordType) (methods : List (Behavior × Method)) : RecordType :=
  methods.foldl (fun ty (b, method) => ty.attach b method) ty

/-- Installs a synthesized method and flags it. -/
def attachSynthesized (ty : RecordType) (b : Behavior) (method : Method) : RecordType :=
  { ty with
    methods := ty.methods.set b (some method)
    synthesized := ty.synthesized.insert b }

/-- Installs synthesized methods, in order. -/
def attachAll (ty : RecordType) (methods : List (Behavior × Method)) : RecordType :=
  methods.foldl (fun ty (b, method) => ty.attachSynthesized b method) ty

/-- Records the field order for matching. -/
def setMatchArgs (ty : RecordType) (fields : List Field) : RecordType :=
  { ty with matchArgs := some fields }

@[simp] theorem parent_declare (ty : RecordType) (field : Field)
    : (ty.declare field).parent = ty.parent :=
  rfl

@[simp] theorem parent_attach (ty : RecordType) (b : Behavior) (method : Method)
    : (ty.attach b method).parent = ty.parent :=
  rfl

@[simp] theorem parent_attachUser (ty : RecordType) (methods : List (Behavior × Method))
    : (ty.attachUser methods).parent = ty.parent := by
  induction methods generalizing ty with
  | nil => rfl
  | cons entry rest ih => exact ih (ty.attach entry.1 entry.2)

@[simp] theorem parent_attachAll (ty : RecordType) (methods : List (Behavior × Method))
    : (ty.attachAll methods).parent = ty.parent := by
  induction methods generalizing ty with
  | nil => rfl
  | cons entry rest ih => exact ih (ty.attachSynthesized entry.1 entry.2)

@[simp] theorem parent_setMatchArgs (ty : RecordType) (fields : List Field)
    : (ty.setMatchArgs fields).parent = ty.parent :=
  rfl

end RecordType

end RecordSynth
