import RecordSynth.Record.TypeTable
import Std.Data.HashMap

/-! The heap: record types, records with their attributes, and how many texts and tuples have
been made.
-/

namespace RecordSynth

/-- A record: its type, and its attributes by name. -/
structure Record where
  type : TypeId
  attrs : Std.HashMap String Value

/-- All types and records, and the next free offset of the heap's own region. -/
structure Heap where
  types : TypeTable
  records : Array Record
  nextOffset : Nat

namespace Heap

/-- The region in which the heap itself makes texts and tuples. -/
def region : Nat := 0

/-- The heap with nothing on it. -/
def empty : Heap :=
  ⟨.empty, #[], 0⟩

instance : Inhabited Heap :=
  ⟨empty⟩

/-- Takes the addresses of `count` new texts or tuples; gives the first one. -/
def allocate (h : Heap) (count : Nat) : Address × Heap :=
  let offset := h.nextOffset
  (⟨region, offset⟩, { h with nextOffset := offset + count })

/-- Makes the text constants of a program. -/
def link (h : Heap) (program : Program) : Artifact × Heap :=
  let (address, h) := h.allocate program.consts.size
  (⟨program, address⟩, h)

/-- Makes a record without attributes. -/
def newRecord (h : Heap) (type : TypeId) : RecordId × Heap :=
  let id : RecordId := ⟨h.records.size⟩
  (id, { h with records := h.records.push ⟨type, ∅⟩ })

/-- The type of a record. -/
def typeOf? (h : Heap) (id : RecordId) : Option TypeId :=
  h.records[id.index]?.map Record.type

/-- An attribute of a record. -/
def getAttr? (h : Heap) (id : RecordId) (name : String) : Option Value :=
  h.records[id.index]?.bind (·.attrs[name]?)

/-- Sets an attribute of a record. -/
def setAttr (h : Heap) (id : RecordId) (name : String) (value : Value) : Heap :=
  { h with records := h.records.modify id.index fun r =>
      { r with attrs := r.attrs.insert name value } }

@[simp] theorem getAttr?_newRecord (h : Heap) (type : TypeId) (id : RecordId) (name : String)
    : (h.newRecord type).2.getAttr? id name = h.getAttr? id name := by
  simp only [newRecord, getAttr?, Array.getElem?_push]
  split
  · next isNew => simp [isNew]
  · rfl

/-- An attribute that is set on a record of the heap is changed to the new value, and no other
attribute is changed.
-/
theorem getAttr?_setAttr {h : Heap} {id : RecordId} (present : id.index < h.records.size)
    (name : String) (value : Value) (other : RecordId) (attr : String)
    : (h.setAttr id name value).getAttr? other attr =
      if id = other ∧ name = attr then some value else h.getAttr? other attr := by
  cases id with | mk i
  cases other with | mk j
  simp only [setAttr, getAttr?, Array.getElem?_modify, RecordId.mk.injEq]
  by_cases i_eq : i = j
  · subst i_eq
    have inBounds : i < h.records.size := present
    simp only [Array.getElem?_eq_getElem inBounds, true_and, ↓reduceIte, Option.map_some,
      Option.bind_some, Std.HashMap.getElem?_insert, beq_iff_eq]
  · simp [i_eq]

/-- The type of a value. A number that no record has stands for nothing and has its type. -/
def typeRef (h : Heap) : Value → TypeRef
  | .none => .builtin .none
  | .bool _ => .builtin .bool
  | .int _ => .builtin .int
  | .float _ => .builtin .float
  | .str _ _ => .builtin .str
  | .tuple _ _ => .builtin .tuple
  | .record id =>
    match h.typeOf? id with
    | some type => .record type
    | none => .builtin .none
  | .type _ => .builtin .type
  | .notApplicable => .builtin .notApplicable

/-- The name of a value's type. -/
def typeName (h : Heap) (v : Value) : String :=
  h.types.refName (h.typeRef v)

/-- The method for a behavior that a record's type has. -/
def methodOf? (h : Heap) (id : RecordId) (b : Behavior) : Option Method :=
  (h.typeOf? id).bind fun type => h.types.lookup type b

end Heap

end RecordSynth
