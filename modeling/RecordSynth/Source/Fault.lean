import RecordSynth.Source.Token

/-! Faults of a source text: what is wrong with it and where. A template with a fault has no
program; the first fault in reading order is the one reported.
-/

namespace RecordSynth.Source

/-- What the grammar asks for at a place where something else stands. -/
inductive Expected where
  | fn
  | identifier
  | parenOpen
  | parenCloseOrComma
  | braceOpen
  | braceClose
  | semicolon
  | semicolonOrAssign
  | expression
  deriving DecidableEq, Inhabited

namespace Expected

/-- How error messages speak of what was expected. -/
def describe : Expected → String
  | fn => "`fn`"
  | identifier => "identifier"
  | parenOpen => "`(`"
  | parenCloseOrComma => "`)` or `,`"
  | braceOpen => "`\x7b`"
  | braceClose => "`\x7d`"
  | semicolon => "`;`"
  | semicolonOrAssign => "`;` or `=`"
  | expression => "expression"

end Expected

/-- The tables of a program, and the operand counts, whose size is limited. -/
inductive Table where
  | params
  | names
  | consts
  | code
  | tuple
  | concat
  deriving DecidableEq, Inhabited

namespace Table

/-- How error messages name the table. -/
def label : Table → String
  | params => "varnames"
  | names => "names"
  | consts => "consts"
  | code => "ops"
  | tuple => "tuple"
  | concat => "concat"

end Table

/-- What can be wrong with a source text. -/
inductive Cause where
  | strayText (text : String)
  | integerTooLarge (digits : String)
  | unknownEscape (escaped : Char)
  | unexpectedToken (expected : Expected) (found : Option Token)
  | definitionCount (count : Nat)
  | assignmentTarget
  | unknownBuiltin (name : String)
  | builtinArity (name : String) (expected found : Nat)
  | labelTarget
  | unboundName (name : String)
  | duplicateParam (name : String)
  | yieldOutsideGenerator
  | tableFull (table : Table)
  deriving DecidableEq, Inhabited

namespace Cause

/-- The text of the cause, without its place. -/
def message : Cause → String
  | strayText text => "unexpected character `" ++ text ++ "`"
  | integerTooLarge digits => "integer literal `" ++ digits ++ "` out of range"
  | unknownEscape c => "invalid escape `\\" ++ c.toString ++ "` in string literal"
  | unexpectedToken expected found =>
    "expected " ++ expected.describe ++ ", found "
      ++ (found.map Token.describe).getD "end of input"
  | definitionCount count =>
    "expected exactly one function definition, found " ++ toString count
  | assignmentTarget => "invalid assignment target; only attributes can be assigned"
  | unknownBuiltin name => "unknown builtin `" ++ name ++ "`"
  | builtinArity name expected found =>
    "builtin `" ++ name ++ "` takes " ++ toString expected ++ " argument(s), got "
      ++ toString found
  | labelTarget => "`nameof` expects a bare identifier"
  | unboundName name => "name `" ++ name ++ "` is not bound"
  | duplicateParam name => "duplicate parameter `" ++ name ++ "`"
  | yieldOutsideGenerator => "`yield` outside a generator function"
  | tableFull table => "too many entries in the " ++ table.label ++ " table"

end Cause

/-- A cause and the range of source text that it is about. -/
structure Fault where
  cause : Cause
  range : ByteRange
  deriving DecidableEq, Inhabited

namespace Fault

/-- The full error message. -/
def message (fault : Fault) : String :=
  fault.cause.message ++ " at " ++ fault.range.text

end Fault

end RecordSynth.Source
