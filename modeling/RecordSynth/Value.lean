import RecordSynth.Number.Decimal

/-! Values, their identity and their structural equality. Texts and tuples carry the address at
which they were made, and records and record types the number by which a heap knows them, so
identity is decided without a heap.
-/

namespace RecordSynth

/-- Where a text or a tuple was made. Each region numbers what is made in it. -/
structure Address where
  region : Nat
  offset : Nat
  deriving DecidableEq, Inhabited

/-- The number of a record in its heap. -/
structure RecordId where
  index : Nat
  deriving DecidableEq, Inhabited

/-- The number of a record type in its heap. -/
structure TypeId where
  index : Nat
  deriving DecidableEq, Inhabited

/-- The types of the values that are no records. -/
inductive BuiltinType where
  | none
  | bool
  | int
  | float
  | str
  | tuple
  | type
  | notApplicable
  deriving DecidableEq, Inhabited

namespace BuiltinType

/-- The name of the type. -/
def name : BuiltinType → String
  | none => "NoneType"
  | bool => "bool"
  | int => "int"
  | float => "float"
  | str => "str"
  | tuple => "tuple"
  | type => "type"
  | notApplicable => "NotApplicableType"

/-- Every builtin type; the position of a type is its number. -/
def all : List BuiltinType :=
  [none, bool, int, float, str, tuple, type, notApplicable]

/-- The number of the type. -/
def number (t : BuiltinType) : Nat :=
  all.idxOf t

/-- The builtin type with a name. -/
def ofName? (name : String) : Option BuiltinType :=
  all.find? fun t => t.name == name

end BuiltinType

/-- A type as a value. -/
inductive TypeRef where
  | builtin (kind : BuiltinType)
  | record (id : TypeId)
  deriving DecidableEq, Inhabited

/-- A value. The one called not applicable is the answer of an equality behavior to a value that
it is not concerned with.
-/
inductive Value where
  | none
  | bool (b : Bool)
  | int (n : Int64)
  | float (x : Binary64)
  | str (address : Address) (text : String)
  | tuple (address : Address) (items : List Value)
  | record (id : RecordId)
  | type (ref : TypeRef)
  | notApplicable
  deriving Inhabited

namespace Value

/-- Whether a condition that has this value holds. -/
def isTruthy : Value → Bool
  | none => false
  | notApplicable => false
  | bool b => b
  | int n => n != 0
  | float x => !x.isZero
  | str _ text => !text.isEmpty
  | tuple _ items => !items.isEmpty
  | record _ => true
  | type _ => true

/-- Identity: scalars are identical when they are the same, floats bit for bit; texts, tuples
and records when they were made at once.
-/
def isIdentical : Value → Value → Bool
  | none, none => true
  | notApplicable, notApplicable => true
  | bool a, bool b => a == b
  | int a, int b => a == b
  | float a, float b => a == b
  | str a _, str b _ => a == b
  | tuple a _, tuple b _ => a == b
  | record a, record b => a == b
  | type a, type b => a == b
  | _, _ => false

/-- Whether two texts, tuples or records were made at once. Scalars never are, so this does not
take a float that is no number as equal to itself.
-/
def sharesAllocation : Value → Value → Bool
  | str a _, str b _ => a == b
  | tuple a _, tuple b _ => a == b
  | record a, record b => a == b
  | _, _ => false

mutual

/-- Equality of content, without any behavior: integers and floats compare as numbers, texts
and tuples by their parts, and all else by identity.
-/
def sameContent : Value → Value → Bool
  | int a, float b => (Binary64.ofInt64 a).equals b
  | float a, int b => (Binary64.ofInt64 b).equals a
  | float a, float b => a.equals b
  | str _ a, str _ b => a == b
  | tuple _ a, tuple _ b => sameContents a b
  | none, b => none.isIdentical b
  | bool a, b => (bool a).isIdentical b
  | int a, b => (int a).isIdentical b
  | record a, b => (record a).isIdentical b
  | type a, b => (type a).isIdentical b
  | notApplicable, b => notApplicable.isIdentical b
  | _, _ => false

/-- Equality of content, part by part. -/
def sameContents : List Value → List Value → Bool
  | [], [] => true
  | a :: as, b :: bs => sameContent a b && sameContents as bs
  | _, _ => false

end

/-- The integer that the value is, if it is one. -/
def int? : Value → Option Int64
  | int n => some n
  | _ => Option.none

/-- The text that the value is, if it is one. -/
def text? : Value → Option String
  | str _ text => some text
  | _ => Option.none

/-- Whether the value is a record. -/
def isRecord : Value → Bool
  | record _ => true
  | _ => false

end Value

end RecordSynth
