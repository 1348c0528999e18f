/-! Displayed texts: between single quotes, or double ones if that saves escapes, with
backslashes, the chosen quote and control characters written as escapes.
-/

namespace RecordSynth.Text

/-- The quote around a displayed text: double for a text with single quotes and no double ones,
and otherwise single.
-/
def quoteFor (cs : List Char) : Char :=
  if cs.contains '\'' && !cs.contains '"' then '"' else '\''

/-- Whether the character is a control: a code point below the space, or one of the block that
starts with the delete character.
-/
def isControl (c : Char) : Bool :=
  c.toNat < 32 || (127 ≤ c.toNat && c.toNat < 160)

/-- A hexadecimal digit, in lower case. -/
def hexDigit (n : Nat) : Char :=
  Nat.digitChar n

/-- How a character is written in a text displayed with the given quote. -/
def displayChar (quote c : Char) : List Char :=
  if c == '\\' then ['\\', '\\']
  else if c == '\n' then ['\\', 'n']
  else if c == '\t' then ['\\', 't']
  else if c == '\r' then ['\\', 'r']
  else if c == quote then ['\\', c]
  else if isControl c then ['\\', 'x', hexDigit (c.toNat / 16), hexDigit (c.toNat % 16)]
  else [c]

/-- The characters of a displayed text. -/
def displayChars (cs : List Char) : List Char :=
  let quote := quoteFor cs
  quote :: (cs.flatMap (displayChar quote) ++ [quote])

/-- The displayed form of a text. -/
def display (s : String) : String :=
  String.ofList (displayChars s.toList)

end RecordSynth.Text
