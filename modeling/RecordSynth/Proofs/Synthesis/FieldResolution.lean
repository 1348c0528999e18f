import RecordSynth.Proofs.Synthesis.Lineage
import RecordSynth.Proofs.Synthesis.UserMethods

/-! The order of a type's fields, in the course of any history. It extends the parent's order by
what only the type itself declares, so that a redeclaration moves nothing. Each field is the one
that was last given to the youngest type in the line that was given one of the name.
-/

namespace RecordSynth

namespace Edit

/-- The fields that an edit of `count` types gives a type, in order. -/
def given (id : TypeId) (count : Nat) : Edit → List Field
  | .declareType _ _ fields _ => if id.index = count then fields else []
  | .declareField other field => if other = id ∧ id.index < count then [field] else []
  | _ => []

/-- The fields that edits give a type, in order. -/
def givenBy (id : TypeId) (count : Nat) : List Edit → List Field
  | [] => []
  | edit :: rest => edit.given id count ++ givenBy id (edit.countAfter count) rest

end Edit

-----------------------------------------------------------------------------------------
-- Entries by their keys
-----------------------------------------------------------------------------------------

namespace Roster

variable {α κ : Type} [DecidableEq κ] [Hashable κ] {key : α → κ}

/-- The entry with a key. -/
def lookup? (r : Roster key) (k : κ) : Option α :=
  r.toList.find? (key · = k)

/-- An entry is found by its key, because no other entry has the key. -/
theorem lookup?_eq_some_iff {r : Roster key} {k : κ} {a : α}
    : r.lookup? k = some a ↔ a ∈ r.toList ∧ key a = k := by
  constructor
  · intro found
    exact ⟨List.mem_of_find?_eq_some found, by simpa using List.find?_some found⟩
  · rintro ⟨member, rfl⟩
    obtain ⟨b, found⟩ := Option.isSome_iff_exists.mp
      (List.find?_isSome (p := (key · = key a)).mpr ⟨a, member, decide_eq_true rfl⟩)
    have same : key b = key a := by simpa using List.find?_some found
    have distinct := List.inj_on_of_nodup_map r.nodup_keys
    rw [lookup?, found, distinct (List.mem_of_find?_eq_some found) member same]

/-- Since there is at most one entry with a key, the last one is the entry. -/
theorem getLast?_filter_toList (r : Roster key) (k : κ)
    : (r.toList.filter (key · = k)).getLast? = r.lookup? k := by
  cases isLast : (r.toList.filter (key · = k)).getLast? with
  | none =>
      have none := List.getLast?_eq_none_iff.mp isLast
      rw [lookup?, ← List.head?_filter, none, List.head?_nil]
  | some a =>
      obtain ⟨member, isKey⟩ := List.mem_filter.mp (List.mem_of_getLast? isLast)
      exact (lookup?_eq_some_iff.mpr ⟨member, of_decide_eq_true isKey⟩).symm

theorem mem_insert {r : Roster key} {a b : α}
    : b ∈ (r.insert a).toList ↔ b = a ∨ b ∈ r.toList ∧ key b ≠ key a := by
  by_cases present : key a ∈ r.keys
  · rw [toList_insert_of_mem present, List.mem_map]
    constructor
    · rintro ⟨c, member, rfl⟩
      by_cases same : key c = key a
      · simp [same]
      · simp [same, member]
    · rintro (rfl | ⟨member, other⟩)
      · obtain ⟨c, member, same⟩ := List.mem_map.mp present
        exact ⟨c, member, by simp [same]⟩
      · exact ⟨b, member, by simp [other]⟩
  · have other : b ∈ r.toList → key b ≠ key a :=
      fun member same => present (same ▸ List.mem_map_of_mem member)
    rw [toList_insert_of_not_mem present, List.mem_append, List.mem_singleton]
    tauto

theorem lookup?_insert (r : Roster key) (a : α) (k : κ)
    : (r.insert a).lookup? k = if key a = k then some a else r.lookup? k := by
  refine Option.ext fun b => ?_
  rw [lookup?_eq_some_iff, mem_insert]
  split
  · next same =>
    subst same
    rw [Option.some.injEq]
    constructor
    · rintro ⟨rfl | ⟨-, other⟩, same⟩
      · rfl
      · exact absurd same other
    · rintro rfl
      exact ⟨Or.inl rfl, rfl⟩
  · next other =>
    rw [lookup?_eq_some_iff]
    constructor
    · rintro ⟨rfl | ⟨member, -⟩, same⟩
      · exact absurd same other
      · exact ⟨member, same⟩
    · rintro ⟨member, rfl⟩
      exact ⟨Or.inr ⟨member, Ne.symm other⟩, rfl⟩

/-- Of the entries with a key the last one stays, by induction on the entries. -/
theorem lookup?_foldl_insert (r : Roster key) (entries : List α) (k : κ)
    : (entries.foldl insert r).lookup? k
      = (entries.filter (key · = k)).getLast?.or (r.lookup? k) := by
  induction entries generalizing r with
  | nil => rfl
  | cons a rest ih =>
      rw [List.foldl_cons, ih, lookup?_insert]
      by_cases same : key a = k
      · simp [same, List.getLast?_cons]
      · simp [same]

end Roster

theorem RecordType.declared_attachUser (ty : RecordType) (methods : List (Behavior × Method))
    : (ty.attachUser methods).declared = ty.declared := by
  induction methods generalizing ty with
  | nil => rfl
  | cons entry rest ih => exact ih (ty.attach entry.1 entry.2)

-----------------------------------------------------------------------------------------
-- The fields along a line
-----------------------------------------------------------------------------------------

namespace TypeTable

variable {t : TypeTable}

/-- The fields that a type itself declares, with their places. -/
def own (t : TypeTable) (id : TypeId) : Fields :=
  (t.get? id).elim .empty RecordType.declared

theorem own_of_get? {id : TypeId} {ty : RecordType} (isType : t.get? id = some ty)
    : t.own id = ty.declared := by
  rw [own, isType, Option.elim_some]

theorem declared_eq (t : TypeTable) (id : TypeId) : t.declared id = (t.own id).toList := by
  unfold declared own
  cases t.get? id with
  | none => rfl
  | some ty => rfl

/-- The fields of a type are those of its parent, into which its own are entered. -/
theorem fieldOrder_of_get? {id : TypeId} {ty : RecordType} (isType : t.get? id = some ty)
    : t.fieldOrder id
      = ty.declared.toList.foldl Roster.insert (ty.parent.elim .empty t.fieldOrder) := by
  rw [fieldOrder, ancestry_of_get?_eq_some isType, List.reverse_cons, List.foldl_append,
    List.foldl_cons, List.foldl_nil, declared_eq, own_of_get? isType]
  cases ty.parent with
  | none => rfl
  | some parent => rfl

theorem keys_fieldOrder_of_get? {id : TypeId} {ty : RecordType} (isType : t.get? id = some ty)
    : (t.fieldOrder id).keys
      = enterAll (ty.parent.elim [] fun parent => (t.fieldOrder parent).keys)
          ty.declared.keys := by
  rw [fieldOrder_of_get? isType, Roster.keys_foldl_insert]
  cases ty.parent with
  | none => rfl
  | some parent => rfl

/-- A field is the one of the youngest type that declares its name, by recursion along the line.
-/
theorem lookup?_fieldOrder (t : TypeTable) (id : TypeId) (name : String)
    : (t.fieldOrder id).lookup? name
      = (t.ancestry id).findSome? fun ancestor => (t.own ancestor).lookup? name := by
  cases isType : t.get? id with
  | none =>
      rw [fieldOrder, ancestry_of_get?_eq_none isType]
      rfl
  | some ty =>
      have above : (ty.parent.elim .empty t.fieldOrder : Fields).lookup? name
          = (ty.parent.elim [] t.ancestry).findSome? fun ancestor =>
              (t.own ancestor).lookup? name := by
        cases isParent : ty.parent with
        | none => rfl
        | some parent => exact lookup?_fieldOrder t parent name
      rw [fieldOrder_of_get? isType, Roster.lookup?_foldl_insert, Roster.getLast?_filter_toList,
        above, ancestry_of_get?_eq_some isType, List.findSome?_cons, own_of_get? isType]
      cases ty.declared.lookup? name with
      | none => rfl
      | some field => rfl
termination_by id.index
decreasing_by exact t.parent_lt _ _ _ isType isParent

/-- A name that is entered in the end anyway can be entered once more. -/
theorem enterAll_keys_insert {table : List String} {fields : Fields} {field : Field}
    (present : field.name ∈ enterAll table fields.keys)
    : enterAll table (fields.insert field).keys = enterAll table fields.keys := by
  rw [Roster.keys_insert]
  split
  · rfl
  · rw [enterAll_append, enterAll_cons, if_pos present, enterAll_nil]

/-- A name that a type has gets no other place in any type when it is declared again on the type, by
recursion along the line of the other one.
-/
theorem keys_fieldOrder_declareField {id : TypeId} {field : Field}
    (present : field.name ∈ (t.fieldOrder id).keys) (other : TypeId)
    : ((t.declareField id field).fieldOrder other).keys = (t.fieldOrder other).keys := by
  have isType' := t.get?_declareField id other field
  cases isType : t.get? other with
  | none =>
      rw [isType, Option.map_none, ite_self] at isType'
      rw [fieldOrder, fieldOrder, ancestry_of_get?_eq_none isType,
        ancestry_of_get?_eq_none isType']
      rfl
  | some ty =>
      have above
          : (ty.parent.elim [] fun parent => ((t.declareField id field).fieldOrder parent).keys)
            = ty.parent.elim [] fun parent => (t.fieldOrder parent).keys := by
        cases isParent : ty.parent with
        | none => rfl
        | some parent => exact keys_fieldOrder_declareField present parent
      have order := keys_fieldOrder_of_get? isType
      rw [isType] at isType'
      by_cases same : id = other
      · subst same
        rw [if_pos rfl] at isType'
        rw [keys_fieldOrder_of_get? isType', order, RecordType.parent_declare, above]
        exact enterAll_keys_insert (order ▸ present)
      · rw [if_neg same] at isType'
        rw [keys_fieldOrder_of_get? isType', order, above]
termination_by other.index
decreasing_by exact t.parent_lt _ _ _ isType isParent

-----------------------------------------------------------------------------------------
-- What edits make of the fields
-----------------------------------------------------------------------------------------

variable (t) (id : TypeId)

/-- Changing a type leaves what types themselves declare, if the change leaves it. -/
theorem own_modify (other : TypeId) (change : RecordType → RecordType)
    (keeps : ∀ ty, (change ty).parent = ty.parent)
    (left : ∀ ty, (change ty).declared = ty.declared)
    : (t.modify other change keeps).own id = t.own id := by
  unfold own
  rw [get?_modify]
  split
  · cases t.get? id with
    | none => rfl
    | some ty => exact left ty
  · rfl

theorem own_declareType (name : String) (parent : Option TypeId) (fields : List Field)
    (methods : List (Behavior × Method))
    : (t.declareType name parent fields methods).2.own id
      = ((Edit.declareType name parent fields methods).given id t.entries.size).foldl
          Roster.insert (t.own id) := by
  unfold own Edit.given declareType add get?
  dsimp only
  rw [Array.getElem?_push]
  by_cases isNew : id.index = t.entries.size
  · rw [if_pos isNew, if_pos isNew, Array.getElem?_eq_none (Nat.le_of_eq isNew.symm)]
    exact RecordType.declared_attachUser _ methods
  · rw [if_neg isNew, if_neg isNew]
    rfl

theorem own_declareField (other : TypeId) (field : Field)
    : (t.declareField other field).own id
      = ((Edit.declareField other field).given id t.entries.size).foldl Roster.insert
          (t.own id) := by
  unfold own Edit.given
  dsimp only
  rw [get?_declareField]
  by_cases same : other = id
  swap
  · rw [if_neg same, if_neg (mt And.left same)]
    rfl
  cases isType : t.get? id with
  | none =>
      have absent : ¬id.index < t.entries.size :=
        Nat.not_lt.mpr (Array.getElem?_eq_none_iff.mp isType)
      rw [if_pos same, if_neg (fun both => absent both.2)]
      rfl
  | some ty =>
      obtain ⟨inTable, -⟩ := Array.getElem?_eq_some_iff.mp isType
      rw [if_pos same, if_pos ⟨same, inTable⟩]
      rfl

theorem own_equip (store : TemplateStore) (other : TypeId) (selection : Selection)
    : ((Workshop.mk t store).after (.equip other selection)).types.own id = t.own id := by
  obtain ⟨requests, ⟨error, isResult⟩ | ⟨methods, isResult, -, -⟩⟩ :=
    Synthesis.equip_outcome ⟨t, store⟩ selection other
  · rw [Workshop.after, isResult]
  · rw [Workshop.after, isResult]
    refine (own_modify _ id other (·.setMatchArgs (t.fieldOrder other).toList) (fun _ => rfl)
      fun _ => rfl).trans ?_
    exact t.own_modify id other (·.attachAll methods) (fun ty => ty.parent_attachAll methods)
      fun ty => Workshop.declared_attachAll ty methods

/-- After an edit the fields that it gives a type are entered into the type's own ones. -/
theorem own_after (store : TemplateStore) (edit : Edit)
    : ((Workshop.mk t store).after edit).types.own id
      = (edit.given id t.entries.size).foldl Roster.insert (t.own id) := by
  cases edit with
  | declareType name parent fields methods =>
      exact t.own_declareType id name parent fields methods
  | declareField other field => exact t.own_declareField id other field
  | attach other b method =>
      exact t.own_modify id other (·.attach b method) (fun _ => rfl) fun _ => rfl
  | equip other selection => exact t.own_equip id store other selection

/-- After edits the fields that they give a type are entered into its own ones, by induction on the
edits.
-/
theorem own_replay (history : List (TemplateStore × Edit))
    : (t.replay history).own id
      = (Edit.givenBy id t.entries.size (history.map Prod.snd)).foldl Roster.insert
          (t.own id) := by
  induction history generalizing t with
  | nil => rfl
  | cons entry rest ih =>
      refine (ih ((Workshop.mk t entry.1).after entry.2).types).trans ?_
      rw [own_after, size_after, List.map_cons, Edit.givenBy, List.foldl_append]

end TypeTable

-----------------------------------------------------------------------------------------
-- How fields are resolved
-----------------------------------------------------------------------------------------

/-- Let types be made, get fields and methods, and be equipped. The fields of a type have distinct
names: first those of its parent, in the parent's order, and then those of the names given to the
type itself that the parent does not have, as they were first given. A field is the one that was
last given to the youngest type in the line that was given one of the name. So the order of an
ancestor comes first, and giving a type a field of a name that it has moves nothing anywhere.
-/
theorem fieldOrder_replay {history : List (TemplateStore × Edit)} {id : TypeId} {ty : RecordType}
    (isType : (TypeTable.empty.replay history).get? id = some ty)
    : let t := TypeTable.empty.replay history
      let given (a : TypeId) := Edit.givenBy a 0 (history.map Prod.snd)
      let names (a : TypeId) := (t.fieldOrder a).keys
      let own := enterAll [] ((given id).map Field.name)
      (names id).Nodup
      ∧ names id
        = (match ty.parent with
          | none => own
          | some parent => names parent ++ own.filter (· ∉ names parent))
      ∧ (∀ field, field ∈ (t.fieldOrder id).toList
        ↔ (t.ancestry id).findSome? (fun a => ((given a).filter (·.name = field.name)).getLast?)
          = some field)
      ∧ (∀ ancestor ∈ t.ancestry id, names ancestor <+: names id)
      ∧ ∀ other field, field.name ∈ names other →
        ((t.declareField other field).fieldOrder id).keys = names id := by
  intro t given names own
  have declared (a : TypeId) : t.own a = (given a).foldl Roster.insert .empty :=
    TypeTable.empty.own_replay a history
  have isOwn : ty.declared.keys = own := by
    rw [← TypeTable.own_of_get? isType, declared, Roster.keys_foldl_insert, Roster.keys_empty]
  refine ⟨Roster.nodup_keys _, ?_, fun field => ?_, ?_, ?_⟩
  · have order := TypeTable.keys_fieldOrder_of_get? isType
    rw [isOwn] at order
    have distinct : own.Nodup := isOwn ▸ ty.declared.nodup_keys
    refine order.trans ((enterAll_eq_append_filter _ distinct).trans ?_)
    cases ty.parent with
    | none => simp
    | some parent => rfl
  · have youngest := t.lookup?_fieldOrder id field.name
    have last (a : TypeId)
        : (t.own a).lookup? field.name
          = ((given a).filter (·.name = field.name)).getLast? := by
      rw [declared, Roster.lookup?_foldl_insert]
      exact Option.or_none
    rw [funext last] at youngest
    rw [← youngest, Roster.lookup?_eq_some_iff]
    exact (and_iff_left rfl).symm
  · exact fun ancestor member => TypeTable.prefix_keys_fieldOrder member
  · exact fun other field present => TypeTable.keys_fieldOrder_declareField present id

/-- A type whose fields get other hints after another type, which descends from it, has declared one
of them again.
-/
def annotated : List (TemplateStore × Edit) :=
  [.declareType "A" none [⟨"x", "int"⟩, ⟨"y", "int"⟩] [],
    .declareType "B" (some ⟨0⟩) [⟨"z", "int"⟩, ⟨"x", "float"⟩] [],
    .declareField ⟨0⟩ ⟨"x", "str"⟩,
    .declareField ⟨0⟩ ⟨"y", "str"⟩].map (.empty Template.standard 0, ·)

/-- Witness: the field that is declared again has the hint of the younger type, in its old place. -/
theorem fieldOrder_replay_annotated
    : ∃ ty,
        (TypeTable.empty.replay annotated).get? ⟨1⟩ = some ty
        ∧ ((TypeTable.empty.replay annotated).fieldOrder ⟨1⟩).keys = ["x", "y", "z"]
        ∧ ⟨"x", "float"⟩ ∈ ((TypeTable.empty.replay annotated).fieldOrder ⟨1⟩).toList
        ∧ ⟨"y", "str"⟩ ∈ ((TypeTable.empty.replay annotated).fieldOrder ⟨1⟩).toList := by
  let t := TypeTable.empty.replay annotated
  obtain ⟨above, isAbove, root⟩ : ∃ ty, t.get? ⟨0⟩ = some ty ∧ ty.parent = none := ⟨_, rfl, rfl⟩
  obtain ⟨ty, isType, isParent⟩ : ∃ ty, t.get? ⟨1⟩ = some ty ∧ ty.parent = some ⟨0⟩ :=
    ⟨_, rfl, rfl⟩
  have line : t.ancestry ⟨1⟩ = [⟨1⟩, ⟨0⟩] := by
    rw [TypeTable.ancestry_of_get?_eq_some isType, isParent, Option.elim_some,
      TypeTable.ancestry_of_get?_eq_some isAbove, root, Option.elim_none]
  obtain ⟨-, first, -⟩ := fieldOrder_replay isAbove
  obtain ⟨-, names, isField, -⟩ := fieldOrder_replay isType
  rw [root] at first
  rw [isParent] at names
  dsimp only at first names
  refine ⟨ty, isType, names.trans ?_, (isField _).mpr ?_, (isField _).mpr ?_⟩
  · simp only [first]
    decide
  · rw [line]
    decide
  · rw [line]
    decide

end RecordSynth
