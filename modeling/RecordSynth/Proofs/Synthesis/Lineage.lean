import RecordSynth.Proofs.Synthesis.History

/-! Lines of ancestors. A line is decided by the parents of the types in it, and the order of a
type's fields by the line and by what is declared along it. So the fields of an ancestor come first
among the fields of a type, in the order that they have in the ancestor.
-/

namespace RecordSynth

namespace TypeTable

variable {t t' : TypeTable}

/-- An ancestor is in the table, and its line ends the line of the type, by recursion along that.
-/
theorem line_of_mem_ancestry {id ancestor : TypeId} (member : ancestor ∈ t.ancestry id)
    : (∃ ty, t.get? ancestor = some ty) ∧ t.ancestry ancestor <:+ t.ancestry id := by
  cases isType : t.get? id with
  | none =>
      rw [ancestry_of_get?_eq_none isType] at member
      cases member
  | some ty =>
      have line := ancestry_of_get?_eq_some isType
      rw [line] at member
      rcases List.mem_cons.mp member with rfl | further
      · exact ⟨⟨ty, isType⟩, List.suffix_refl _⟩
      · cases isParent : ty.parent with
        | none =>
            rw [isParent] at further
            cases further
        | some parent =>
            rw [isParent, Option.elim_some] at further line
            obtain ⟨inTable, ending⟩ := line_of_mem_ancestry further
            rw [line]
            exact ⟨inTable, ending.trans (List.suffix_cons id _)⟩
termination_by id.index
decreasing_by exact t.parent_lt _ _ _ isType isParent

/-- A parent is in the table, since it was made before. -/
theorem exists_parent {id parent : TypeId} {ty : RecordType} (isType : t.get? id = some ty)
    (isParent : ty.parent = some parent)
    : ∃ above, t.get? parent = some above := by
  obtain ⟨inTable, -⟩ := Array.getElem?_eq_some_iff.mp isType
  have before := t.parent_lt _ _ _ isType isParent
  exact ⟨_, Array.getElem?_eq_getElem (Nat.lt_trans before inTable)⟩

/-- Types with the same parents have the same lines, by recursion along the line. -/
theorem ancestry_congr
    (same : ∀ id ty, t.get? id = some ty → ∃ ty', t'.get? id = some ty' ∧ ty'.parent = ty.parent)
    {id : TypeId} {ty : RecordType} (isType : t.get? id = some ty)
    : t'.ancestry id = t.ancestry id := by
  obtain ⟨ty', isType', sameParent⟩ := same id ty isType
  rw [ancestry_of_get?_eq_some isType, ancestry_of_get?_eq_some isType', sameParent]
  cases isParent : ty.parent with
  | none => rfl
  | some parent =>
      obtain ⟨above, isAbove⟩ := exists_parent isType isParent
      rw [Option.elim_some, Option.elim_some, ancestry_congr same isAbove]
termination_by id.index
decreasing_by exact t.parent_lt _ _ _ isType isParent

/-- The names of the fields are those that the line declares, each where it comes first. -/
theorem keys_fieldOrder (t : TypeTable) (id : TypeId)
    : (t.fieldOrder id).keys
      = enterAll [] ((t.ancestry id).reverse.flatMap fun a => (t.declared a).map Field.name) := by
  have along (line : List TypeId) (fields : Fields)
      : (line.foldl (fun fields a => (t.declared a).foldl Roster.insert fields) fields).keys
        = enterAll fields.keys (line.flatMap fun a => (t.declared a).map Field.name) := by
    induction line generalizing fields with
    | nil => rfl
    | cons a rest ih =>
        rw [List.foldl_cons, ih, Roster.keys_foldl_insert, List.flatMap_cons, enterAll_append]
  exact along _ _

/-- The fields of an ancestor come first, in the same order. -/
theorem prefix_keys_fieldOrder {id ancestor : TypeId} (member : ancestor ∈ t.ancestry id)
    : (t.fieldOrder ancestor).keys <+: (t.fieldOrder id).keys := by
  obtain ⟨-, younger, line⟩ := line_of_mem_ancestry member
  rw [keys_fieldOrder, keys_fieldOrder, ← line, List.reverse_append, List.flatMap_append,
    enterAll_append]
  exact prefix_enterAll _ _

theorem keys_fieldOrder_congr {id : TypeId} (line : t'.ancestry id = t.ancestry id)
    (declared : ∀ a ∈ t.ancestry id, t'.declared a = t.declared a)
    : (t'.fieldOrder id).keys = (t.fieldOrder id).keys := by
  rw [keys_fieldOrder, keys_fieldOrder, line]
  refine congrArg (enterAll []) (List.flatMap_congr fun a member => ?_)
  rw [declared a (List.mem_reverse.mp member)]

theorem get?_declareType_of_some {id : TypeId} {ty : RecordType} (isType : t.get? id = some ty)
    (name : String) (parent : Option TypeId) (fields : List Field)
    (methods : List (Behavior × Method))
    : (t.declareType name parent fields methods).2.get? id = some ty := by
  obtain ⟨inTable, isEntry⟩ := Array.getElem?_eq_some_iff.mp isType
  unfold declareType add get?
  dsimp only
  rw [Array.getElem?_push, if_neg (Nat.ne_of_lt inTable)]
  exact isType

end TypeTable

end RecordSynth
