import RecordSynth.Program.Artifact

/-! Methods: what a record type does when a behavior is called for. A method is a compiled
program, or a native one that is brought from outside. Of a native method only the name is known
here. What the names stand for is a parameter of evaluation, and the comments at them tell what they
stand for in the stock (`Natives.stock`).
-/

namespace RecordSynth

/-- The name of a native method, which is called with a list of arguments, the receiver first. -/
inductive Primitive where
  /-- Gives back a value, always the same. -/
  | const (value : Value)
  /-- Fails with a message. -/
  | raise (message : String)
  /-- Gives back an argument. -/
  | arg (index : Nat)
  /-- Gives back the tuple of all arguments. -/
  | args
  /-- Displays an argument. -/
  | display (index : Nat)
  /-- Hashes an argument. -/
  | hash (index : Nat)
  /-- Gives back an attribute of an argument; `none` if there is no such attribute. -/
  | attr (index : Nat) (name : String)
  /-- Tells whether an attribute has the same content on the first two arguments. -/
  | sameAttr (name : String)
  /-- Assigns the arguments after the receiver to the named attributes of a record. -/
  | store (names : List String)
  deriving Inhabited

/-- What is called for a behavior. -/
inductive Method where
  | compiled (artifact : Artifact)
  | primitive (operation : Primitive)
  deriving Inhabited

namespace Method

/-- The artifact of a compiled method. -/
def artifact? : Method → Option Artifact
  | compiled artifact => some artifact
  | primitive _ => none

/-- The inspected form of a method. -/
def inspect : Method → String
  | compiled artifact => "Compiled(" ++ artifact.program.name ++ ")"
  | primitive _ => "Native"

end Method

end RecordSynth
