import RecordSynth.Source.Fault

/-! Lexemes: the pieces that tile a source text. Each piece is as long as its shape allows, so
a text splits into lexemes in one way only. Blank and comment lexemes separate tokens, stray and
unclosed ones are faults, and each of the others is a token.
-/

namespace RecordSynth.Source

/-- Space, tab, carriage return and line feed separate tokens. -/
def isBlank (c : Char) : Bool :=
  c == ' ' || c == '\t' || c == '\r' || c == '\n'

/-- ASCII letters and the underscore begin a word. -/
def isWordStart (c : Char) : Bool :=
  c.isAlpha || c == '_'

/-- ASCII letters, ASCII digits and the underscore continue a word. -/
def isWordPart (c : Char) : Bool :=
  c.isAlpha || c.isDigit || c == '_'

/-- What a lexeme is, judged by its characters alone. -/
inductive Shape where
  | blank
  | comment
  | word
  | digits
  | quoted
  | mark (m : Mark)
  | unclosed
  | stray
  deriving DecidableEq, Inhabited

/-- A piece of a source text. -/
structure Lexeme where
  shape : Shape
  text : List Char
  deriving DecidableEq, Inhabited

namespace Lexeme

/-- How many characters of `cs`, added to `n`, are elements of a string literal: an element is
a character other than a quote, a backslash and a line feed, or a backslash with the character
after it, which is no line feed.
-/
def elementCount (n : Nat) : List Char → Nat
  | [] => n
  | [c] => if c == '"' || c == '\\' || c == '\n' then n else n + 1
  | c :: d :: cs =>
    if c == '\\' then
      if d == '\n' then n else elementCount (n + 2) cs
    else if c == '"' || c == '\n' then n
    else elementCount (n + 1) (d :: cs)

/-- The string literal whose opening quote stands before `cs`, and what follows it. Without a
closing quote it ends with its last element.
-/
def quotedAt (cs : List Char) : Lexeme × List Char :=
  let n := elementCount 0 cs
  match cs.drop n with
  | '"' :: rest => (⟨.quoted, '"' :: (cs.take n ++ ['"'])⟩, rest)
  | rest => (⟨.unclosed, '"' :: cs.take n⟩, rest)

/-- The mark, or the stray character, at `c` followed by `cs`. -/
def markAt (c : Char) (cs : List Char) : Lexeme × List Char :=
  match c, cs with
  | '=', '=' :: rest => (⟨.mark .equal, ['=', '=']⟩, rest)
  | '!', '=' :: rest => (⟨.mark .notEqual, ['!', '=']⟩, rest)
  | '=', rest => (⟨.mark .assign, ['=']⟩, rest)
  | '(', rest => (⟨.mark .parenOpen, ['(']⟩, rest)
  | ')', rest => (⟨.mark .parenClose, [')']⟩, rest)
  | '\x7b', rest => (⟨.mark .braceOpen, ['\x7b']⟩, rest)
  | '\x7d', rest => (⟨.mark .braceClose, ['\x7d']⟩, rest)
  | ',', rest => (⟨.mark .comma, [',']⟩, rest)
  | '.', rest => (⟨.mark .dot, ['.']⟩, rest)
  | ';', rest => (⟨.mark .semicolon, [';']⟩, rest)
  | c, rest => (⟨.stray, [c]⟩, rest)

/-- The longest run of characters that satisfy `p`, begun by `c`, as a lexeme of `shape`. -/
def runAt (shape : Shape) (p : Char → Bool) (c : Char) (cs : List Char)
    : Lexeme × List Char :=
  (⟨shape, c :: cs.takeWhile p⟩, cs.dropWhile p)

/-- The first lexeme of `c :: cs`, and what follows it. -/
def next (c : Char) (cs : List Char) : Lexeme × List Char :=
  if isBlank c then runAt .blank isBlank c cs
  else if isWordStart c then runAt .word isWordPart c cs
  else if c.isDigit then runAt .digits Char.isDigit c cs
  else if c == '"' then quotedAt cs
  else if c == '/' && cs.head? == some '/' then runAt .comment (· != '\n') c cs
  else markAt c cs

theorem dropWhile_length_le (p : Char → Bool) (cs : List Char)
    : (cs.dropWhile p).length ≤ cs.length :=
  (List.dropWhile_sublist p).length_le

theorem quotedAt_rest_length_le (cs : List Char)
    : (quotedAt cs).2.length ≤ cs.length := by
  have drop_le : (cs.drop (elementCount 0 cs)).length ≤ cs.length := by simp
  simp only [quotedAt]
  split
  · next rest h => rw [h] at drop_le; exact Nat.le_of_succ_le drop_le
  · exact drop_le

theorem markAt_rest_length_le (c : Char) (cs : List Char)
    : (markAt c cs).2.length ≤ cs.length := by
  unfold markAt
  split <;> simp

/-- Every lexeme takes at least its first character. -/
theorem next_rest_length_le (c : Char) (cs : List Char)
    : (next c cs).2.length ≤ cs.length := by
  unfold next runAt
  split
  · exact dropWhile_length_le _ _
  split
  · exact dropWhile_length_le _ _
  split
  · exact dropWhile_length_le _ _
  split
  · exact quotedAt_rest_length_le cs
  split
  · exact dropWhile_length_le _ _
  · exact markAt_rest_length_le c cs

/-- Adds the lexemes of a text, last one first, to those found before it. -/
def collect (found : List Lexeme) : List Char → List Lexeme
  | [] => found
  | c :: cs => collect ((next c cs).1 :: found) (next c cs).2
termination_by cs => cs.length
decreasing_by exact Nat.lt_succ_of_le (next_rest_length_le c cs)

/-- The lexemes of a text, in order. -/
def ofText (cs : List Char) : List Lexeme :=
  (collect [] cs).reverse

end Lexeme

/-- The character that a backslash and `c` stand for in a string literal. -/
def escape? : Char → Option Char
  | 'n' => some '\n'
  | 't' => some '\t'
  | 'r' => some '\r'
  | '0' => some '\x00'
  | '\\' => some '\\'
  | '"' => some '"'
  | '\'' => some '\''
  | _ => none

/-- Reads the body of a string literal into the reversed `done`. A backslash with nothing after
it stands for itself.
-/
def unescapeFrom (done : List Char) : List Char → Except Cause (List Char)
  | [] => .ok done.reverse
  | [c] => .ok (c :: done).reverse
  | c :: d :: cs =>
    if c == '\\' then
      match escape? d with
      | some e => unescapeFrom (e :: done) cs
      | none => .error (.unknownEscape d)
    else unescapeFrom (c :: done) (d :: cs)

/-- The characters that the body of a string literal stands for. -/
def unescape (body : List Char) : Except Cause (List Char) :=
  unescapeFrom [] body

/-- The number that a run of decimal digits writes. -/
def digitsValue (digits : List Char) : Nat :=
  digits.foldl (fun n c => n * 10 + (c.toNat - '0'.toNat)) 0

/-- Integers are below this bound. -/
def integerLimit : Nat := 9223372036854775808

/-- The token that a lexeme spells; blanks and comments spell none. -/
def Lexeme.token? (lexeme : Lexeme) : Except Cause (Option Token) :=
  match lexeme.shape with
  | .blank => .ok none
  | .comment => .ok none
  | .word =>
    let word := String.ofList lexeme.text
    match Keyword.ofSpelling? word with
    | some keyword => .ok (some (.keyword keyword))
    | none => .ok (some (.ident word))
  | .digits =>
    let n := digitsValue lexeme.text
    if n < integerLimit then .ok (some (.int (Int64.ofNat n)))
    else .error (.integerTooLarge (String.ofList lexeme.text))
  | .quoted => do
    let text ← unescape (lexeme.text.drop 1).dropLast
    return some (.str (String.ofList text))
  | .mark m => .ok (some (.mark m))
  | .unclosed => .error (.strayText (String.ofList lexeme.text))
  | .stray => .error (.strayText (String.ofList lexeme.text))

/-- Adds the tokens of lexemes that start at byte `start`, last one first, to those found
before them; fails at the first lexeme that is a fault.
-/
def PlacedToken.collect (start : Nat) (found : List PlacedToken)
    : List Lexeme → Except Fault (List PlacedToken)
  | [] => .ok found
  | lexeme :: rest =>
    let stop := start + byteCount lexeme.text
    let range := ByteRange.ofOffsets start stop
    match lexeme.token? with
    | .error cause => .error ⟨cause, range⟩
    | .ok none => collect stop found rest
    | .ok (some token) => collect stop (⟨token, range⟩ :: found) rest

/-- The tokens of a source text with their places. -/
def PlacedToken.ofText (source : String) : Except Fault (List PlacedToken) := do
  let found ← PlacedToken.collect 0 [] (Lexeme.ofText source.toList)
  return found.reverse

end RecordSynth.Source
