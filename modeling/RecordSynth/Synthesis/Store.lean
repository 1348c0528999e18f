import RecordSynth.Program.Artifact
import RecordSynth.Program.Binding
import RecordSynth.Program.Emission
import RecordSynth.Synthesis.Library
import Std.Data.HashMap

/-! The store of compiled templates, one for each behavior and number of fields. A template is
compiled when it is first asked for and kept if it binds as many fields as it is for.
-/

namespace RecordSynth

/-- Why a template is of no use. -/
inductive TemplateError where
  | fault (behavior : Behavior) (arity : Nat) (fault : Source.Fault)
  | arity (behavior : Behavior) (arity found : Nat)
  | layout (behavior : Behavior) (arity : Nat) (error : BindError)
  deriving DecidableEq, Inhabited

/-- The error message. -/
def TemplateError.message : TemplateError → String
  | fault b n error =>
    b.methodName ++ " template for " ++ toString n ++ " field(s) does not compile: "
      ++ error.message
  | arity b n found =>
    b.methodName ++ " template for " ++ toString n ++ " field(s) binds " ++ toString found
      ++ " field(s)"
  | layout b n error =>
    b.methodName ++ " template for " ++ toString n ++ " field(s) is unusable: "
      ++ error.message

/-- Compiled templates, how many compilations there were, and where their text constants are
made: in a region of the store's own, up to the next free offset.
-/
structure TemplateStore where
  library : TemplateLibrary
  region : Nat
  artifacts : Std.HashMap (Behavior × Nat) Artifact
  compilations : Nat
  nextOffset : Nat

namespace TemplateStore

/-- A store without artifacts. -/
def empty (library : TemplateLibrary) (region : Nat) : TemplateStore :=
  ⟨library, region, ∅, 0, 0⟩

/-- The artifact of a template that is in the store. -/
def get? (s : TemplateStore) (behavior : Behavior) (arity : Nat) : Option Artifact :=
  s.artifacts[(behavior, arity)]?

/-- How many artifacts are in the store. -/
def size (s : TemplateStore) : Nat :=
  s.artifacts.size

/-- The program of a template, which has to bind as many fields as it is for. -/
def compile (library : TemplateLibrary) (behavior : Behavior) (arity : Nat)
    : Except TemplateError Program :=
  match Program.ofText (library behavior arity) with
  | .error fault => .error (.fault behavior arity fault)
  | .ok program =>
    match program.arity with
    | .error error => .error (.layout behavior arity error)
    | .ok found =>
      if found = arity then .ok program else .error (.arity behavior arity found)

/-- Makes the artifact of a compiled program and counts the compilation. -/
def make (s : TemplateStore) (program : Program) : Artifact × TemplateStore :=
  (⟨program, ⟨s.region, s.nextOffset⟩⟩, { s with
    compilations := s.compilations + 1
    nextOffset := s.nextOffset + program.consts.size })

/-- Puts an artifact into the store, in place of the one that is there. -/
def put (s : TemplateStore) (behavior : Behavior) (arity : Nat) (artifact : Artifact)
    : TemplateStore :=
  { s with artifacts := s.artifacts.insert (behavior, arity) artifact }

/-- Makes the artifact of a compiled program and puts it into the store. -/
def keep (s : TemplateStore) (behavior : Behavior) (arity : Nat) (program : Program)
    : Artifact × TemplateStore :=
  let (artifact, s) := s.make program
  (artifact, s.put behavior arity artifact)

/-- The artifact of a template, which is compiled unless it is in the store. -/
def request (s : TemplateStore) (behavior : Behavior) (arity : Nat)
    : Except TemplateError Artifact × TemplateStore :=
  match s.get? behavior arity with
  | some artifact => (.ok artifact, s)
  | none =>
    match compile s.library behavior arity with
    | .error error => (.error error, s)
    | .ok program =>
      let (artifact, s) := s.keep behavior arity program
      (.ok artifact, s)

/-- The inspected form of a store. -/
def inspect (s : TemplateStore) : String :=
  "ArityCache \x7b entries: " ++ toString s.size ++ ", compilations: "
    ++ toString s.compilations ++ ", .. \x7d"

end TemplateStore

end RecordSynth
