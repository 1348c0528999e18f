import RecordSynth.Record.RecordType

/-! Tables of record types, and what depends on ancestry. A type is made after its parent, so the
line of ancestors ends. Behaviors are looked up along that line; only a type's own methods decide
what the type itself defines.
-/

namespace RecordSynth

/-- Record types by number. A parent has a smaller number than its children. -/
structure TypeTable where
  entries : Array RecordType
  parent_lt : ∀ (i : Nat) (ty : RecordType) (p : TypeId),
    entries[i]? = some ty → ty.parent = some p → p.index < i

namespace TypeTable

/-- The table without types. -/
def empty : TypeTable :=
  ⟨#[], by simp⟩

instance : Inhabited TypeTable :=
  ⟨empty⟩

/-- The type with a number. -/
def get? (t : TypeTable) (id : TypeId) : Option RecordType :=
  t.entries[id.index]?

theorem parent_lt_push {entries : Array RecordType}
    (parent_lt : ∀ (i : Nat) (ty : RecordType) (p : TypeId),
      entries[i]? = some ty → ty.parent = some p → p.index < i)
    {added : RecordType} (made : ∀ p, added.parent = some p → p.index < entries.size)
    (i : Nat) (ty : RecordType) (p : TypeId)
    (found : (entries.push added)[i]? = some ty) (isParent : ty.parent = some p)
    : p.index < i := by
  rw [Array.getElem?_push] at found
  split at found
  · next h =>
    cases found
    exact h ▸ made p isParent
  · exact parent_lt i ty p found isParent

theorem parent_lt_modify {entries : Array RecordType}
    (parent_lt : ∀ (i : Nat) (ty : RecordType) (p : TypeId),
      entries[i]? = some ty → ty.parent = some p → p.index < i)
    {f : RecordType → RecordType} (keeps : ∀ ty, (f ty).parent = ty.parent) (j i : Nat)
    (ty : RecordType) (p : TypeId) (found : (entries.modify j f)[i]? = some ty)
    (isParent : ty.parent = some p)
    : p.index < i := by
  rw [Array.getElem?_modify] at found
  split at found
  · cases old : entries[i]? with
    | none => rw [old] at found; cases found
    | some before =>
      rw [old] at found
      cases found
      exact parent_lt i before p old (keeps before ▸ isParent)
  · exact parent_lt i ty p found isParent

/-- Adds a type, whose parent has to be in the table. -/
def add (t : TypeTable) (ty : RecordType)
    (made : ∀ p, ty.parent = some p → p.index < t.entries.size) : TypeTable :=
  match t, made with
  | ⟨entries, parent_lt⟩, made => ⟨entries.push ty, parent_lt_push parent_lt made⟩

/-- Changes a type without changing its parent. -/
def modify (t : TypeTable) (id : TypeId) (f : RecordType → RecordType)
    (keeps : ∀ ty, (f ty).parent = ty.parent) : TypeTable :=
  match t with
  | ⟨entries, parent_lt⟩ => ⟨entries.modify id.index f, parent_lt_modify parent_lt keeps _⟩

@[simp] theorem get?_modify (t : TypeTable) (id : TypeId) (f : RecordType → RecordType)
    (keeps : ∀ ty, (f ty).parent = ty.parent) (other : TypeId)
    : (t.modify id f keeps).get? other =
      if id = other then (t.get? other).map f else t.get? other := by
  cases id
  cases other
  simp only [modify, get?, Array.getElem?_modify, TypeId.mk.injEq]

/-- Makes a type and gives its number. A parent that is not in the table is left out. -/
def declareType (t : TypeTable) (name : String) (parent : Option TypeId)
    (fields : List Field) (methods : List (Behavior × Method)) : TypeId × TypeTable :=
  let bare : RecordType :=
    ⟨name, parent.filter (·.index < t.entries.size), Roster.ofList fields, .all none, .none, none⟩
  (⟨t.entries.size⟩, t.add (bare.attachUser methods) fun p isParent => by
    rw [RecordType.parent_attachUser] at isParent
    exact of_decide_eq_true (Option.filter_eq_some_iff.1 isParent).2)

/-- Declares a field of a type. -/
def declareField (t : TypeTable) (id : TypeId) (field : Field) : TypeTable :=
  t.modify id (·.declare field) fun _ => rfl

/-- Installs a user's method on a type. -/
def attach (t : TypeTable) (id : TypeId) (b : Behavior) (method : Method) : TypeTable :=
  t.modify id (·.attach b method) fun _ => rfl

/-- Installs synthesized methods on a type. -/
def attachAll (t : TypeTable) (id : TypeId) (methods : List (Behavior × Method))
    : TypeTable :=
  t.modify id (·.attachAll methods) fun _ => RecordType.parent_attachAll _ _

/-- Records the field order of a type for matching. -/
def setMatchArgs (t : TypeTable) (id : TypeId) (fields : List Field) : TypeTable :=
  t.modify id (·.setMatchArgs fields) fun _ => rfl

/-- A type and its ancestors, the type itself first. -/
def ancestry (t : TypeTable) (id : TypeId) : List TypeId :=
  match _found : t.entries[id.index]? with
  | none => []
  | some ty =>
    match _isParent : ty.parent with
    | none => [id]
    | some parent => id :: t.ancestry parent
termination_by id.index
decreasing_by exact t.parent_lt _ _ _ _found _isParent

theorem ancestry_of_get?_eq_none {t : TypeTable} {id : TypeId} (absent : t.get? id = none)
    : t.ancestry id = [] := by
  rw [ancestry]
  split
  · rfl
  · next ty found => rw [get?, found] at absent; cases absent

theorem ancestry_of_get?_eq_some {t : TypeTable} {id : TypeId} {ty : RecordType}
    (found : t.get? id = some ty)
    : t.ancestry id = id :: (ty.parent.elim [] t.ancestry) := by
  rw [ancestry]
  split
  · next absent => rw [get?, absent] at found; cases found
  · next ty' found' =>
    have same : ty = ty' := Option.some.inj (found.symm.trans found')
    subst same
    split
    · next isRoot => rw [isRoot, Option.elim_none]
    · next parent isParent => rw [isParent, Option.elim_some]

/-- Whether a type is another one or descends from it. -/
def isSubtype (t : TypeTable) (a b : TypeId) : Bool :=
  (t.ancestry a).contains b

/-- The method for a behavior that is nearest along the ancestry of a type. -/
def lookup (t : TypeTable) (id : TypeId) (b : Behavior) : Option Method :=
  (t.ancestry id).findSome? fun ancestor => (t.get? ancestor).bind (·.ownMethod? b)

/-- The fields that a type itself declares. -/
def declared (t : TypeTable) (id : TypeId) : List Field :=
  match t.get? id with
  | none => []
  | some ty => ty.declared.toList

/-- All fields of a type, from the oldest ancestor down. A field keeps the place where it was
first declared and has the hint that was declared last.
-/
def fieldOrder (t : TypeTable) (id : TypeId) : Fields :=
  (t.ancestry id).reverse.foldl (fun fields ancestor =>
    (t.declared ancestor).foldl Roster.insert fields) .empty

/-- The name of a type. -/
def name (t : TypeTable) (id : TypeId) : String :=
  match t.get? id with
  | none => ""
  | some ty => ty.name

/-- The name of a type as a value. -/
def refName (t : TypeTable) : TypeRef → String
  | .builtin kind => kind.name
  | .record id => t.name id

/-- The recorded field order of a type, if it has one. -/
def matchArgs (t : TypeTable) (id : TypeId) : Option (List Field) :=
  (t.get? id).bind (·.matchArgs)

end TypeTable

end RecordSynth
