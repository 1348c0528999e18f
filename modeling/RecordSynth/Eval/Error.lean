import RecordSynth.Behavior.Basic
import RecordSynth.Value

/-! Errors of evaluation, told apart by cause. -/

namespace RecordSynth

/-- Why an evaluation fails. -/
inductive EvalError where
  /-- A call with the wrong number of arguments; `missing` names the parameters without one. -/
  | argumentCount (function : String) (expected found : Nat) (missing : List String)
  | noAttribute (typeName attr : String)
  | readOnlyAttribute (typeName attr : String)
  | notIterable (typeName : String)
  /-- A behavior gave back a value of another type than it has to. -/
  | badReturn (behavior : Behavior) (typeName : String) (expected : BuiltinType)
      (found : String)
  | tooManyPositional (typeName : String) (allowed found : Nat)
  /-- A program refers to what is not there, or ends without giving back a value. -/
  | malformedCode (function detail : String)
  /-- A primitive operation fails with a message of its own. -/
  | custom (message : String)
  deriving DecidableEq, Inhabited

namespace EvalError

/-- The ending of a noun that is counted. -/
def plural (n : Nat) : String :=
  if n = 1 then "" else "s"

/-- The message about a wrong number of arguments. -/
def argumentCountMessage (function : String) (expected found : Nat) (missing : List String)
    : String :=
  match missing with
  | [] =>
    function ++ "() takes " ++ toString expected ++ " positional argument" ++ plural expected
      ++ " but " ++ toString found ++ (if found = 1 then " was" else " were") ++ " given"
  | missing =>
    function ++ "() missing " ++ toString missing.length ++ " required positional argument"
      ++ plural missing.length ++ ": "
      ++ String.intercalate ", " (missing.map fun name => "'" ++ name ++ "'")

/-- The error message. -/
def message : EvalError → String
  | argumentCount function expected found missing =>
    argumentCountMessage function expected found missing
  | noAttribute typeName attr =>
    "'" ++ typeName ++ "' object has no attribute '" ++ attr ++ "'"
  | readOnlyAttribute typeName attr =>
    "cannot set attribute '" ++ attr ++ "' on '" ++ typeName ++ "' value"
  | notIterable typeName => "'" ++ typeName ++ "' object is not iterable"
  | badReturn behavior typeName expected found =>
    behavior.methodName ++ " of '" ++ typeName ++ "' returned " ++ found ++ ", expected "
      ++ expected.name
  | tooManyPositional typeName allowed found =>
    typeName ++ "() accepts " ++ toString allowed ++ " positional sub-pattern(s) ("
      ++ toString found ++ " given)"
  | malformedCode function detail => "malformed code in `" ++ function ++ "`: " ++ detail
  | custom message => message

end EvalError

end RecordSynth
