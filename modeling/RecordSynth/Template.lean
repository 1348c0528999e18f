import RecordSynth.Behavior.Basic
import RecordSynth.Program.Placeholder

/-! Templates: the source text of a behavior for given field names. Written with placeholders it
depends on the number of fields only, so one compiled template serves every record type with as
many fields.
-/

namespace RecordSynth

/-- The most fields that a synthesized behavior binds: a parameter for each, after the receiver. -/
def maxFields : Nat := 65535

namespace Template

/-- How many fields share one `concat` of a display template. -/
def displayGroup : Nat := 1024

/-- What stands between two fields in a display template: the literal of a comma and a space. -/
def displaySeparator : String := ", \", \", "

/-- The attributes of `receiver` with the given names, as a tuple. -/
def attributeTuple (receiver : String) (fields : List String) : String :=
  match fields with
  | [] => "()"
  | fields =>
    "(" ++ String.intercalate " " (fields.map fun f => receiver ++ "." ++ f ++ ",") ++ ")"

/-- Takes a value for each field and assigns it. -/
def construct (fields : List String) : String :=
  "fn construct(self" ++ String.join (fields.map fun f => ", " ++ f) ++ ") \x7b"
    ++ String.join (fields.map fun f => " self." ++ f ++ " = " ++ f ++ ";") ++ " \x7d"

/-- The display of one field: its name, an equals sign and its value's display. -/
def displayField (field : String) : String :=
  "nameof(" ++ field ++ "), \"=\", repr(self." ++ field ++ ")"

/-- The display of a group of fields. -/
def displayFields (fields : List String) : String :=
  String.intercalate displaySeparator (fields.map displayField)

/-- Splits a list into groups of `size` entries, the last one of what is left, after those in
the reversed `done`.
-/
def groupsFrom {α : Type} (size : Nat) (done : List (List α)) (xs : List α)
    : List (List α) :=
  match xs with
  | [] => done.reverse
  | x :: xs =>
    groupsFrom size ((x :: xs.take (size - 1)) :: done) (xs.drop (size - 1))
termination_by xs.length

/-- Splits a list into groups of `size` entries, the last one of what is left. -/
def groupsOf {α : Type} (size : Nat) (xs : List α) : List (List α) :=
  groupsFrom size [] xs

theorem flatten_groupsFrom {α : Type} (size : Nat) (done : List (List α)) (xs : List α)
    : (groupsFrom size done xs).flatten = done.reverse.flatten ++ xs := by
  fun_induction groupsFrom size done xs with
  | case1 done => simp
  | case2 done x xs ih => simp [ih, List.take_append_drop]

/-- The groups of a list, put together, are the list. -/
theorem flatten_groupsOf {α : Type} (size : Nat) (xs : List α)
    : (groupsOf size xs).flatten = xs := by
  simp [groupsOf, flatten_groupsFrom]

/-- The arguments of the outer `concat` between the opening and the closing parenthesis, with a
comma after each.
-/
def displayArguments (fields : List String) : String :=
  match (groupsOf displayGroup fields).map displayFields with
  | [] => ""
  | [group] => group ++ ", "
  | groups =>
    String.intercalate displaySeparator (groups.map fun g => "concat(" ++ g ++ ")") ++ ", "

/-- Gives back the type name and, in parentheses, each field with its value. -/
def display (fields : List String) : String :=
  "fn display(self) \x7b return concat(typename(self), \"(\", " ++ displayArguments fields
    ++ "\")\"); \x7d"

/-- Compares the fields of two records of one type; no other pair of values is its concern. -/
def equality (fields : List String) : String :=
  "fn eq(self, other) \x7b if type(self) is type(other) \x7b return "
    ++ attributeTuple "self" fields ++ " == " ++ attributeTuple "other" fields
    ++ "; \x7d return NotApplicable; \x7d"

/-- Yields each field's value. -/
def iteration (fields : List String) : String :=
  "gen fn iter(self) \x7b" ++ String.join (fields.map fun f => " yield self." ++ f ++ ";")
    ++ " \x7d"

/-- Hashes the tuple of the fields' values. -/
def hashing (fields : List String) : String :=
  "fn hash(self) \x7b return hash(" ++ attributeTuple "self" fields ++ "); \x7d"

/-- The source text of a behavior over field names. -/
def render : Behavior → List String → String
  | .construct => construct
  | .display => display
  | .equality => equality
  | .iteration => iteration
  | .hashing => hashing

/-- The standard template of a behavior for a number of fields. -/
def standard (behavior : Behavior) (arity : Nat) : String :=
  render behavior ((List.range arity).map placeholder)

end Template

end RecordSynth
