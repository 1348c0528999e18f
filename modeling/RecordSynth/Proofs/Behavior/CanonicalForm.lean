import Mathlib.Data.Fintype.EquivFin
import Mathlib.Logic.Relation
import RecordSynth.Proofs.Behavior.Symmetry

/-! Canonical forms of values on a heap without cycles. A canonical form has no addresses, and a
record with fields to compare is its type with the forms of the fields. What is inside a value is
reached in finitely many steps, so every value has one form.
-/

namespace RecordSynth

-----------------------------------------------------------------------------------------
-- What is inside a value
-----------------------------------------------------------------------------------------

namespace Heap

/-- The first value is an item of the second one, or an attribute of it. -/
inductive Inside (h : Heap) : Value → Value → Prop
  | item {v : Value} {items : List Value} (address : Address) (member : v ∈ items)
    : Inside h v (.tuple address items)
  | attr {v : Value} {id : RecordId} {name : String} (found : h.getAttr? id name = some v)
    : Inside h v (.record id)

/-- No value is inside itself, however deep. -/
def Acyclic (h : Heap) : Prop :=
  ∀ v, ¬ Relation.TransGen h.Inside v v

/-- No record that is reached from the value is inside itself, however deep. -/
def AcyclicFrom (h : Heap) (v : Value) : Prop :=
  ∀ id, Relation.ReflTransGen h.Inside (.record id) v →
    ¬ Relation.TransGen h.Inside (.record id) (.record id)

variable {h : Heap}

/-- What is inside a value is reached in finitely many steps if that holds of the records that are
inside it, by recursion on the value.
-/
theorem acc_of_records (within : Value → Prop)
    (closed : ∀ u v, h.Inside u v → within v → within u)
    (records : ∀ id, within (.record id) → Acc h.Inside (.record id))
    (v : Value) (isWithin : within v)
    : Acc h.Inside v := by
  refine Acc.intro v ?_
  intro u inside
  match v, inside with
  | .tuple address items, .item _ member =>
      exact acc_of_records within closed records u (closed u _ (.item address member) isWithin)
  | .record id, .attr found => exact (records id isWithin).inv (.attr found)
termination_by sizeOf v
decreasing_by
  have smaller := List.sizeOf_lt_of_mem member
  simp only [Value.tuple.sizeOf_spec]
  omega

theorem acc_of_isEmpty {id : RecordId} (absent : h.records.size ≤ id.index)
    : Acc h.Inside (.record id) := by
  refine Acc.intro _ ?_
  intro v inside
  cases inside with
  | attr found => simp [getAttr?, Array.getElem?_eq_none absent] at found

/-- What is inside a record is reached in finitely many steps, since there are finitely many records
and no cycle leads back to one.
-/
theorem AcyclicFrom.acc_record {v : Value} (acyclic : h.AcyclicFrom v)
    (i : {i : Fin h.records.size // Relation.ReflTransGen h.Inside (.record ⟨i⟩) v})
    : Acc h.Inside (.record ⟨i.1⟩) := by
  let Reached := {i : Fin h.records.size // Relation.ReflTransGen h.Inside (.record ⟨i⟩) v}
  let Below (j i : Reached) : Prop :=
    Relation.TransGen h.Inside (.record ⟨j.1⟩) (.record ⟨i.1⟩)
  have : IsTrans Reached Below := ⟨fun _ _ _ first second => first.trans second⟩
  have : Std.Irrefl Below := ⟨fun i => acyclic ⟨i.1⟩ i.2⟩
  induction i using (Finite.wellFounded_of_trans_of_irrefl Below).induction with | _ i ih
  refine Acc.intro _ ?_
  intro u inside
  refine acc_of_records (Relation.TransGen h.Inside · (.record ⟨i.1⟩)) (fun _ _ => .head) ?_ u
    (.single inside)
  rintro ⟨j⟩ isBelow
  by_cases inHeap : j < h.records.size
  · exact ih ⟨⟨j, inHeap⟩, isBelow.to_reflTransGen.trans i.2⟩ isBelow
  · exact acc_of_isEmpty (Nat.le_of_not_lt inHeap)

/-- What is inside a value is reached in finitely many steps if no cycle is reached from it. -/
theorem AcyclicFrom.acc {v : Value} (acyclic : h.AcyclicFrom v) : Acc h.Inside v := by
  refine acc_of_records (Relation.ReflTransGen h.Inside · v) (fun _ _ => .head) ?_ v .refl
  rintro ⟨i⟩ reached
  by_cases inHeap : i < h.records.size
  · exact acyclic.acc_record ⟨⟨i, inHeap⟩, reached⟩
  · exact acc_of_isEmpty (Nat.le_of_not_lt inHeap)

/-- On an acyclic heap, what is inside a value is reached in finitely many steps. -/
theorem Acyclic.wellFounded (acyclic : h.Acyclic) : WellFounded h.Inside := by
  refine ⟨fun v => AcyclicFrom.acc ?_⟩
  exact fun id _ => acyclic (.record id)

end Heap

-----------------------------------------------------------------------------------------
-- Canonical forms
-----------------------------------------------------------------------------------------

/-- What equality tells values apart by. -/
inductive CanonicalForm where
  | none
  | notApplicable
  | int (n : Int64)
  | float (x : Binary64)
  | text (text : String)
  | type (ref : TypeRef)
  /-- A record that is equal to itself only. -/
  | itself (id : RecordId)
  | tuple (items : List CanonicalForm)
  | record (type : TypeId) (fields : List CanonicalForm)

/-- The kind of the values with the form. -/
def CanonicalForm.kind : CanonicalForm → Value.Kind
  | none => .none
  | notApplicable => .notApplicable
  | int _ | float _ => .number
  | text _ => .text
  | type _ => .type
  | itself _ | record _ _ => .record
  | tuple _ => .tuple

/-- For each type the fields that its records are compared by, if they are. -/
abbrev Schema : Type := TypeId → Option (List String)

namespace Heap

variable {h : Heap}

/-- The type of a record and the fields that it is compared by, if it is. -/
def comparedBy? (h : Heap) (schema : Schema) (id : RecordId) : Option (TypeId × List String) :=
  (h.typeOf? id).bind fun type => (schema type).map (type, ·)

/-- The canonical form of a value, given those of what is inside it. -/
def formLayer (h : Heap) (schema : Schema) (v : Value)
    (form : ∀ u, h.Inside u v → CanonicalForm) : CanonicalForm :=
  match v with
  | .none => .none
  | .notApplicable => .notApplicable
  | .bool b => .int (if b then 1 else 0)
  | .int n => .int n
  | .float x => .float x
  | .str _ text => .text text
  | .type ref => .type ref
  | .tuple address items =>
    .tuple (items.attach.map fun item => form item.1 (.item address item.2))
  | .record id =>
    match h.comparedBy? schema id with
    | none => .itself id
    | some (type, fields) =>
      .record type (fields.map fun name =>
        match found : h.getAttr? id name with
        | some u => form u (.attr found)
        | none => .none)

/-- The canonical form of a value on an acyclic heap. -/
noncomputable def canonical (acyclic : h.Acyclic) (schema : Schema) (v : Value) : CanonicalForm :=
  acyclic.wellFounded.fix (h.formLayer schema) v

section Forms

variable {acyclic : h.Acyclic} {schema : Schema}

theorem canonical_eq (acyclic : h.Acyclic) (schema : Schema) (v : Value)
    : h.canonical acyclic schema v = h.formLayer schema v fun u _ => h.canonical acyclic schema u :=
  acyclic.wellFounded.fix_eq _ v

theorem canonical_str (address : Address) (text : String)
    : h.canonical acyclic schema (.str address text) = .text text :=
  canonical_eq acyclic schema _

theorem canonical_type (ref : TypeRef) : h.canonical acyclic schema (.type ref) = .type ref :=
  canonical_eq acyclic schema _

/-- Truth values have the form of the integers that they count as. -/
theorem canonical_int {v : Value} {n : Int64} (isInt : Numeric.ofValue? v = some (.int n))
    : h.canonical acyclic schema v = .int n := by
  rw [canonical_eq]
  cases v with
  | bool b | int m =>
      cases isInt
      rfl
  | _ => cases isInt

theorem canonical_tuple (address : Address) (items : List Value)
    : h.canonical acyclic schema (.tuple address items)
      = .tuple (items.map (h.canonical acyclic schema)) := by
  rw [canonical_eq]
  simp [formLayer]

theorem canonical_itself {id : RecordId} (bare : h.comparedBy? schema id = none)
    : h.canonical acyclic schema (.record id) = .itself id := by
  rw [canonical_eq]
  simp [formLayer, bare]

theorem canonical_record {id : RecordId} {type : TypeId} {fields : List String}
    {values : List Value} (compared : h.comparedBy? schema id = some (type, fields))
    (set : fields.map (h.getAttr? id) = values.map some)
    : h.canonical acyclic schema (.record id)
      = .record type (values.map (h.canonical acyclic schema)) := by
  let formOf (found : Option Value) : CanonicalForm :=
    (found.map (h.canonical acyclic schema)).getD .none
  have forms : fields.map (fun name => formOf (h.getAttr? id name))
      = values.map (h.canonical acyclic schema) := by
    have read := congrArg (List.map formOf) set
    simpa [formOf, Function.comp_def] using read
  rw [canonical_eq, ← forms]
  simp only [formLayer, compared]
  refine congrArg _ (List.map_congr_left fun name _ => ?_)
  split
  · next found => simp [formOf, found]
  · next absent => simp [formOf, absent]

/-- Values of different kinds have different forms. -/
theorem kind_canonical (v : Value) : (h.canonical acyclic schema v).kind = v.kind := by
  rw [canonical_eq]
  cases v with
  | record id =>
      simp only [formLayer]
      split <;> rfl
  | _ => rfl

end Forms

end Heap

end RecordSynth
