import RecordSynth.Eval.Basic

/-! What evaluations give, and which heap they leave: one equation for each operation on values.
Making texts and tuples changes no record, and what is made before does not matter to records.
-/

namespace RecordSynth

-----------------------------------------------------------------------------------------
-- Heaps that differ in what has been made
-----------------------------------------------------------------------------------------

namespace Heap

/-- The heap after `count` more texts and tuples have been made. -/
def allocated (h : Heap) (count : Nat) : Heap :=
  (h.allocate count).2

/-- The heaps have the same types and records, whatever else has been made. -/
structure SameRecords (h h' : Heap) : Prop where
  types : h'.types = h.types
  records : h'.records = h.records

variable {h h' h'' : Heap}

theorem allocated_allocated (h : Heap) (first second : Nat)
    : (h.allocated first).allocated second = h.allocated (first + second) := by
  simp [allocated, allocate, Nat.add_assoc]

theorem SameRecords.refl (h : Heap) : h.SameRecords h :=
  ⟨rfl, rfl⟩

theorem SameRecords.trans (first : h.SameRecords h') (second : h'.SameRecords h'')
    : h.SameRecords h'' :=
  ⟨second.types.trans first.types, second.records.trans first.records⟩

theorem SameRecords.allocated (h : Heap) (count : Nat) : h.SameRecords (h.allocated count) :=
  ⟨rfl, rfl⟩

theorem SameRecords.typeOf? (same : h.SameRecords h') (id : RecordId)
    : h'.typeOf? id = h.typeOf? id := by
  simp only [Heap.typeOf?, same.records]

theorem SameRecords.getAttr? (same : h.SameRecords h') (id : RecordId) (name : String)
    : h'.getAttr? id name = h.getAttr? id name := by
  simp only [Heap.getAttr?, same.records]

theorem SameRecords.typeRef (same : h.SameRecords h') (value : Value)
    : h'.typeRef value = h.typeRef value := by
  cases value <;> simp only [Heap.typeRef, same.typeOf?]

theorem SameRecords.typeName (same : h.SameRecords h') (value : Value)
    : h'.typeName value = h.typeName value := by
  simp only [Heap.typeName, same.typeRef, same.types]

theorem SameRecords.methodOf? (same : h.SameRecords h') (id : RecordId) (behavior : Behavior)
    : h'.methodOf? id behavior = h.methodOf? id behavior := by
  simp only [Heap.methodOf?, same.typeOf?, same.types]

end Heap

-----------------------------------------------------------------------------------------
-- Outcomes of evaluations
-----------------------------------------------------------------------------------------

namespace Eval

variable {α β : Type} {h h' : Heap}

/-- What an evaluation gives on a heap, and the heap after it. -/
def outcome (x : Eval α) (h : Heap) : Except Halt α × Heap :=
  x.run.run h

@[simp] theorem outcome_pure (a : α) : (pure a : Eval α).outcome h = (.ok a, h) :=
  rfl

@[simp] theorem outcome_throw (halt : Halt)
    : (throw halt : Eval α).outcome h = (.error halt, h) :=
  rfl

@[simp] theorem outcome_ask (f : Heap → α) : (ask f).outcome h = (.ok (f h), h) :=
  rfl

theorem outcome_ask_of_eq {f : Heap → α} {a : α} (isValue : f h = a)
    : (ask f).outcome h = (.ok a, h) :=
  isValue ▸ outcome_ask f

@[simp] theorem outcome_change (f : Heap → Heap) : (change f).outcome h = (.ok (), f h) :=
  rfl

@[simp] theorem outcome_modifyGet (f : Heap → α × Heap)
    : (modifyGet f : Eval α).outcome h = (.ok (f h).1, (f h).2) :=
  rfl

theorem outcome_bind (x : Eval α) (f : α → Eval β) (h : Heap)
    : (x >>= f).outcome h
      = match x.outcome h with
        | (.ok a, h') => (f a).outcome h'
        | (.error halt, h') => (.error halt, h') := by
  unfold outcome
  rw [ExceptT.run_bind, StateT.run_bind]
  rcases x.run.run h with ⟨_ | a, h'⟩
  · rfl
  · rfl

theorem outcome_bind_ok {x : Eval α} {a : α} (given : x.outcome h = (.ok a, h'))
    (f : α → Eval β)
    : (x >>= f).outcome h = (f a).outcome h' := by
  simp [outcome_bind, given]

theorem outcome_bind_error {x : Eval α} {halt : Halt} (given : x.outcome h = (.error halt, h'))
    (f : α → Eval β)
    : (x >>= f).outcome h = (.error halt, h') := by
  simp [outcome_bind, given]

theorem outcome_bind_eq_ok_iff {x : Eval α} {f : α → Eval β} {b : β}
    : (x >>= f).outcome h = (.ok b, h')
      ↔ ∃ a h₁, x.outcome h = (.ok a, h₁) ∧ (f a).outcome h₁ = (.ok b, h') := by
  rw [outcome_bind]
  rcases x.outcome h with ⟨_ | a, h₁⟩
  · simp
  · refine ⟨fun given => ⟨a, h₁, rfl, given⟩, ?_⟩
    rintro ⟨_, _, ⟨⟩, given⟩
    exact given

/-- Evaluations are equal if they have the same outcome on every heap. -/
theorem ext_outcome {x y : Eval α} (same : ∀ h, x.outcome h = y.outcome h) : x = y :=
  funext same

/-- What follows an evaluation may rely on what the evaluation gives. -/
theorem bind_congr_of_outcome {x : Eval α} {f g : α → Eval β}
    (agree : ∀ h a h', x.outcome h = (.ok a, h') → f a = g a)
    : x >>= f = x >>= g := by
  refine ext_outcome ?_
  intro h
  rw [outcome_bind, outcome_bind]
  rcases given : x.outcome h with ⟨_ | a, h'⟩
  · rfl
  · simp only [agree h a h' given]

@[simp] theorem outcome_newStr (text : String) (h : Heap)
    : (newStr text).outcome h = (.ok (.str (h.allocate 1).1 text), h.allocated 1) :=
  rfl

@[simp] theorem outcome_newTuple (items : List Value) (h : Heap)
    : (newTuple items).outcome h = (.ok (.tuple (h.allocate 1).1 items), h.allocated 1) :=
  rfl

/-- An attribute that a record has is read, and the heap stays as it is. -/
theorem outcome_getAttr_of_some {id : RecordId} {name : String} {value : Value}
    (found : h.getAttr? id name = some value)
    : (getAttr (.record id) name).outcome h = (.ok value, h) := by
  unfold getAttr
  rw [outcome_bind_ok (outcome_ask _)]
  dsimp only
  rw [found]
  rfl

/-- Reading an attribute that a record does not have fails. -/
theorem outcome_getAttr_of_none {id : RecordId} {name : String}
    (absent : h.getAttr? id name = none)
    : (getAttr (.record id) name).outcome h
      = (.error (.error (.noAttribute (h.typeName (.record id)) name)), h) := by
  unfold getAttr
  rw [outcome_bind_ok (outcome_ask _)]
  dsimp only
  rw [absent]
  rfl

-----------------------------------------------------------------------------------------
-- Fields that are read
-----------------------------------------------------------------------------------------

variable {id : RecordId} {fields : List String}

/-- Fields that are set are read in order. -/
theorem outcome_mapM_getAttr {values : List Value}
    (set : fields.map (h.getAttr? id) = values.map some)
    : (fields.mapM (getAttr (.record id))).outcome h = (.ok values, h) := by
  induction fields generalizing values with
  | nil =>
      obtain rfl := List.map_eq_nil_iff.mp set.symm
      rfl
  | cons field rest ih =>
      cases values with
      | nil => cases set
      | cons value more =>
          obtain ⟨first, others⟩ := List.cons.inj set
          rw [List.mapM_cons, outcome_bind_ok (outcome_getAttr_of_some first),
            outcome_bind_ok (ih others)]
          rfl

theorem exists_values (set : ∀ name ∈ fields, (h.getAttr? id name).isSome)
    : ∃ values : List Value, fields.map (h.getAttr? id) = values.map some := by
  refine ⟨fields.map fun name => (h.getAttr? id name).getD .none, ?_⟩
  rw [List.map_map]
  refine List.map_congr_left ?_
  intro name member
  obtain ⟨value, found⟩ := Option.isSome_iff_exists.mp (set name member)
  simp [found]

/-- The first field that is missing is what reading fails with. -/
theorem outcome_mapM_getAttr_of_missing {before after : List String} {field : String}
    (set : ∀ name ∈ before, (h.getAttr? id name).isSome)
    (missing : h.getAttr? id field = none)
    : ((before ++ field :: after).mapM (getAttr (.record id))).outcome h
      = (.error (.error (.noAttribute (h.typeName (.record id)) field)), h) := by
  induction before with
  | nil =>
      rw [List.nil_append, List.mapM_cons]
      exact outcome_bind_error (outcome_getAttr_of_none missing) _
  | cons name rest ih =>
      obtain ⟨first, others⟩ := List.forall_mem_cons.mp set
      obtain ⟨value, found⟩ := Option.isSome_iff_exists.mp first
      rw [List.cons_append, List.mapM_cons,
        outcome_bind_ok (outcome_getAttr_of_some found)]
      exact outcome_bind_error (ih others) _

end Eval

end RecordSynth
