import RecordSynth.Behavior.Selection
import RecordSynth.Record.TypeTable
import RecordSynth.Synthesis.Store

/-! Synthesis of behaviors: a record type gets, for every selected behavior that its user has not
defined on it, the artifact for its number of fields bound to its field names. Methods are
installed together at the end, so a failure leaves the types as they were; what was compiled
before it stays in the store. Many types are equipped at the same time, by calls that take turns
as a schedule says.
-/

namespace RecordSynth

/-- Why a record type gets no behaviors. -/
inductive SynthesisError where
  | template (error : TemplateError)
  | tooManyFields (typeName : String) (count : Nat)
  | binding (typeName : String) (error : BindError)
  deriving DecidableEq, Inhabited

/-- The error message. -/
def SynthesisError.message : SynthesisError → String
  | template error => error.message
  | tooManyFields typeName count =>
    "'" ++ typeName ++ "' has " ++ toString count
      ++ " fields; synthesized behaviors bind at most " ++ toString maxFields
  | binding typeName error =>
    "cannot bind fields of '" ++ typeName ++ "': " ++ error.message

/-- Record types and the store from which they get behaviors. -/
structure Workshop where
  types : TypeTable
  store : TemplateStore

/-- A step of synthesis: it changes the workshop, and gives a value or fails. -/
abbrev Synthesis (α : Type) : Type := ExceptT SynthesisError (StateM Workshop) α

namespace Synthesis

/-- The artifact for a behavior and a number of fields. -/
def artifactFor (behavior : Behavior) (arity : Nat) : Synthesis Artifact := do
  let outcome ← modifyGet fun w =>
    let (outcome, store) := w.store.request behavior arity
    (outcome, { w with store := store })
  match outcome with
  | .ok artifact => return artifact
  | .error error => throw (.template error)

/-- The method for a behavior, bound to field names. -/
def methodFor (typeName : String) (fields : List String) (behavior : Behavior)
    : Synthesis Method := do
  let artifact ← artifactFor behavior fields.length
  match artifact.program.bind fields with
  | .ok program => return .compiled (artifact.withProgram program)
  | .error error => throw (.binding typeName error)

/-- The methods for behaviors in order, after those in the reversed `done`. -/
def methodsFor (typeName : String) (fields : List String)
    (done : List (Behavior × Method)) : List Behavior → Synthesis (List (Behavior × Method))
  | [] => return done.reverse
  | behavior :: rest => do
    let method ← methodFor typeName fields behavior
    methodsFor typeName fields ((behavior, method) :: done) rest

/-- The selected behaviors that the user has not defined on a type. -/
def wanted (selection : Selection) (ty : Option RecordType) : List Behavior :=
  selection.toList.filter fun b => !ty.any (·.userDefines b)

/-- Synthesizes the selected behaviors of a type and records its field order for matching. -/
def equip (selection : Selection) (id : TypeId) : Synthesis Unit := do
  let types := (← get).types
  let fields := (types.fieldOrder id).toList
  let typeName := types.name id
  if maxFields < fields.length then
    throw (.tooManyFields typeName fields.length)
  let behaviors := wanted selection (types.get? id)
  let methods ← methodsFor typeName (fields.map Field.name) [] behaviors
  modify fun w =>
    { w with types := (w.types.attachAll id methods).setMatchArgs id fields }

-----------------------------------------------------------------------------------------
-- Many types at once
-----------------------------------------------------------------------------------------

/-- What a call that equips a type does at its next turn. At a turn it looks at the types, the store
or the other calls, or changes one of them, and nothing comes in between.
-/
inductive Stage where
  /-- Begins, unless another call has failed. -/
  | waiting
  /-- Collects the fields of the type. -/
  | starting
  /-- Looks whether the type has a method for the behavior. -/
  | choosing (behavior : Behavior) (left : List Behavior)
  /-- Looks whether the method that the type has is synthesized. -/
  | checking (behavior : Behavior) (left : List Behavior)
  /-- Looks for an artifact in the store. -/
  | seeking (behavior : Behavior) (left : List Behavior)
  /-- Compiles the template, as no artifact was there. -/
  | compiling (behavior : Behavior) (left : List Behavior)
  /-- Puts what it has compiled into the store, whether or not there is an artifact by now. -/
  | putting (behavior : Behavior) (artifact : Artifact) (left : List Behavior)
  /-- Installs the methods that it has made. -/
  | installing
  /-- Records the field order. -/
  | recording
  /-- Tells the other calls that it has failed. -/
  | failing (error : SynthesisError)
  | ended (outcome : Except SynthesisError Unit)
  /-- Has not begun, as another call had failed. -/
  | skipped
  deriving Inhabited

namespace Stage

/-- What is next when some behaviors are left. -/
def next : List Behavior → Stage
  | [] => installing
  | behavior :: left => choosing behavior left

/-- Whether the call has nothing more to do. -/
def isOver : Stage → Bool
  | ended _ => true
  | skipped => true
  | _ => false

/-- The error with which the call has ended. -/
def error? : Stage → Option SynthesisError
  | ended (.error error) => some error
  | _ => none

end Stage

/-- A call that equips a type: the fields that it has collected, the methods that it has made so
far, the last one first, and what it does next.
-/
structure Call where
  id : TypeId
  fields : List Field
  made : List (Behavior × Method)
  stage : Stage

namespace Call

/-- The call that is to equip a type. -/
def start (id : TypeId) : Call :=
  ⟨id, [], [], .waiting⟩

/-- The call with the method for a behavior bound to the fields. -/
def bind (call : Call) (typeName : String) (behavior : Behavior) (artifact : Artifact)
    (left : List Behavior) : Call :=
  match artifact.program.bind (call.fields.map Field.name) with
  | .error error => { call with stage := .failing (.binding typeName error) }
  | .ok program =>
    { call with
      made := (behavior, .compiled (artifact.withProgram program)) :: call.made
      stage := .next left }

/-- The call and the workshop after a turn of the call. -/
def turn (selection : Selection) (stopped : Bool) (w : Workshop) (call : Call)
    : Call × Workshop :=
  let arity := call.fields.length
  match call.stage with
  | .waiting => ({ call with stage := if stopped then .skipped else .starting }, w)
  | .starting =>
    let fields := (w.types.fieldOrder call.id).toList
    let stage :=
      if maxFields < fields.length then
        .failing (.tooManyFields (w.types.name call.id) fields.length)
      else .next selection.toList
    ({ call with fields := fields, stage := stage }, w)
  | .choosing behavior left =>
    let defines := (w.types.get? call.id).any (·.defines behavior)
    ({ call with stage := if defines then .checking behavior left else .seeking behavior left }, w)
  | .checking behavior left =>
    let synthesized := (w.types.get? call.id).any (·.isSynthesized behavior)
    ({ call with stage := if synthesized then .seeking behavior left else .next left }, w)
  | .seeking behavior left =>
    match w.store.get? behavior arity with
    | some artifact => (call.bind (w.types.name call.id) behavior artifact left, w)
    | none => ({ call with stage := .compiling behavior left }, w)
  | .compiling behavior left =>
    match TemplateStore.compile w.store.library behavior arity with
    | .error error => ({ call with stage := .failing (.template error) }, w)
    | .ok program =>
      let (artifact, store) := w.store.make program
      ({ call with stage := .putting behavior artifact left }, { w with store := store })
  | .putting behavior artifact left =>
    (call.bind (w.types.name call.id) behavior artifact left,
      { w with store := w.store.put behavior arity artifact })
  | .installing =>
    ({ call with stage := .recording },
      { w with types := w.types.attachAll call.id call.made.reverse })
  | .recording =>
    ({ call with stage := .ended (.ok ()) },
      { w with types := w.types.setMatchArgs call.id call.fields })
  | .failing error => ({ call with stage := .ended (.error error) }, w)
  | .ended _ => (call, w)
  | .skipped => (call, w)

/-- As many turns as a call needs at most. -/
def turns : Nat := 29

end Call

/-- Calls that equip types at the same time, and whether one of them has told that it failed. -/
structure Batch where
  workshop : Workshop
  stopped : Bool
  calls : List Call

namespace Batch

/-- The calls that are to equip types. -/
def start (w : Workshop) (ids : List TypeId) : Batch :=
  ⟨w, false, ids.map Call.start⟩

/-- The batch after a turn of one of its calls. -/
def turn (selection : Selection) (b : Batch) (i : Nat) : Batch :=
  match b.calls[i]? with
  | none => b
  | some call =>
    let (call, workshop) := call.turn selection b.stopped b.workshop
    ⟨workshop, b.stopped || call.stage.error?.isSome, b.calls.set i call⟩

/-- The batch after the turns of a schedule, which says whose turn is next. -/
def run (selection : Selection) (b : Batch) (schedule : List Nat) : Batch :=
  schedule.foldl (turn selection) b

/-- The outcome of the batch: the first error of its calls, if one has failed. -/
def outcome (b : Batch) : Except SynthesisError Unit :=
  match b.calls.findSome? (·.stage.error?) with
  | some error => .error error
  | none => .ok ()

/-- The schedule by which calls take their turns one after the other. -/
def inOrder (count : Nat) : List Nat :=
  (List.range count).flatMap (List.replicate Call.turns)

end Batch

/-- Synthesizes the selected behaviors of types by calls that one thread carries out in order. -/
def equipAll (selection : Selection) (ids : List TypeId) : Synthesis Unit := do
  let batch := (Batch.start (← get) ids).run selection (Batch.inOrder ids.length)
  set batch.workshop
  match batch.outcome with
  | .ok () => return
  | .error error => throw error

end Synthesis

end RecordSynth
