import RecordSynth.Source.ByteRange

/-! Tokens of the template language: keywords, marks, identifiers, integers and strings,
each with the byte range of its spelling.
-/

namespace RecordSynth.Source

/-- The reserved words. -/
inductive Keyword where
  | fn
  | gen
  | «return»
  | yield
  | «if»
  | «else»
  | is
  | «true»
  | «false»
  | none
  | notApplicable
  deriving DecidableEq, Inhabited

namespace Keyword

/-- How the word is spelled in a source text. -/
def spelling : Keyword → String
  | fn => "fn"
  | gen => "gen"
  | «return» => "return"
  | yield => "yield"
  | «if» => "if"
  | «else» => "else"
  | is => "is"
  | «true» => "true"
  | «false» => "false"
  | none => "None"
  | notApplicable => "NotApplicable"

/-- Every keyword. -/
def all : List Keyword :=
  [fn, gen, «return», yield, «if», «else», is, «true», «false», none, notApplicable]

/-- The keyword spelled `word`, if there is one. -/
def ofSpelling? (word : String) : Option Keyword :=
  all.find? (fun k => k.spelling == word)

theorem ofSpelling?_spelling (k : Keyword) : ofSpelling? k.spelling = some k := by
  cases k <;> decide

end Keyword

/-- Punctuation and operators. -/
inductive Mark where
  | parenOpen
  | parenClose
  | braceOpen
  | braceClose
  | comma
  | dot
  | semicolon
  | equal
  | notEqual
  | assign
  deriving DecidableEq, Inhabited

namespace Mark

/-- How the mark is spelled in a source text. -/
def spelling : Mark → String
  | parenOpen => "("
  | parenClose => ")"
  | braceOpen => "\x7b"
  | braceClose => "\x7d"
  | comma => ","
  | dot => "."
  | semicolon => ";"
  | equal => "=="
  | notEqual => "!="
  | assign => "="

end Mark

/-- One token, its spelling interpreted. -/
inductive Token where
  | keyword (word : Keyword)
  | mark (m : Mark)
  | ident (name : String)
  | int (n : Int64)
  | str (text : String)
  deriving DecidableEq, Inhabited

namespace Token

/-- How error messages speak of the token. -/
def describe : Token → String
  | keyword word => "`" ++ word.spelling ++ "`"
  | mark m => "`" ++ m.spelling ++ "`"
  | ident name => "identifier `" ++ name ++ "`"
  | int n => "integer `" ++ toString n.toInt ++ "`"
  | str _ => "string literal"

end Token

/-- A token and where it stands. -/
structure PlacedToken where
  token : Token
  range : ByteRange
  deriving DecidableEq, Inhabited

end RecordSynth.Source
