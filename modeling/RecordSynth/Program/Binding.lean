import RecordSynth.Program.Placeholder

/-! Binding a program to field names: each placeholder `_i` in its tables is replaced by the name
of field `i`, and nothing else changes. The placeholders of a table have to stand side by side,
in the order of their indices from zero on.
-/

namespace RecordSynth

/-- The two tables of names. -/
inductive NameTable where
  | names
  | params
  deriving DecidableEq, Inhabited

/-- How error messages name the table. -/
def NameTable.label : NameTable → String
  | names => "names"
  | params => "varnames"

/-- Why a program cannot be bound to field names. -/
inductive BindError where
  | fieldCount (function : String) (expected found : Nat)
  | placeholderRun (function : String) (table : NameTable)
  | mismatch (error : Program.TableMismatch)
  deriving DecidableEq, Inhabited

/-- The error message. -/
def BindError.message : BindError → String
  | fieldCount function expected found =>
    "artifact `" ++ function ++ "` binds " ++ toString expected ++ " field(s), got "
      ++ toString found
  | placeholderRun function table =>
    "artifact `" ++ function ++ "` has a malformed placeholder run in `" ++ table.label ++ "`"
  | mismatch error => error.message

namespace Program

/-- The placeholders of a table, each as its position and its index. -/
def placeholdersOf (table : Array String) : List (Nat × Nat) :=
  table.toList.zipIdx.filterMap fun (name, position) =>
    (placeholderIndex? name).map fun index => (position, index)

/-- Whether placeholders with indices from `offset` on stand side by side from position
`start + offset` on.
-/
def isRunFrom (start offset : Nat) : List (Nat × Nat) → Bool
  | [] => true
  | (position, index) :: rest =>
    position == start + offset && index == offset && isRunFrom start (offset + 1) rest

/-- A run of placeholders: where it starts and how long it is. -/
structure Run where
  start : Nat
  length : Nat
  deriving DecidableEq, Inhabited

/-- The placeholders of a table as a run: `none` if there are none, and an error if they are
not in order side by side.
-/
def placeholderRun (p : Program) (which : NameTable) : Except BindError (Option Run) :=
  let table := match which with
    | .names => p.names
    | .params => p.params
  match placeholdersOf table with
  | [] => .ok none
  | (start, index) :: rest =>
    if isRunFrom start 0 ((start, index) :: rest) then .ok (some ⟨start, rest.length + 1⟩)
    else .error (.placeholderRun p.name which)

/-- The length of a run; no run is as long as an empty one. -/
def runLength : Option Run → Nat
  | none => 0
  | some run => run.length

/-- The number of fields that a program binds. -/
def arity (p : Program) : Except BindError Nat :=
  (p.placeholderRun .names).map runLength

/-- Writes `fields` into a table from position `start` on. -/
def overwrite (table : Array String) (start : Nat) : List String → Array String
  | [] => table
  | field :: rest => overwrite (table.setIfInBounds start field) (start + 1) rest

/-- A table with its run of placeholders replaced by field names. -/
def rebind (table : Array String) (run : Option Run) (fields : List String) : Array String :=
  match run with
  | none => table
  | some run => overwrite table run.start fields

/-- The program over the field names `fields` in place of its placeholders. -/
def bind (p : Program) (fields : List String) : Except BindError Program := do
  let namesRun ← p.placeholderRun .names
  let arity := runLength namesRun
  if fields.length ≠ arity then
    throw (.fieldCount p.name arity fields.length)
  let paramsRun ← p.placeholderRun .params
  if paramsRun.isSome && runLength paramsRun ≠ arity then
    throw (.placeholderRun p.name .params)
  (p.replaceNames (rebind p.names namesRun fields) (rebind p.params paramsRun fields)).mapError
    .mismatch

end Program

end RecordSynth
