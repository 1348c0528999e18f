import RecordSynth.Proofs.Behavior.CanonicalForm
import RecordSynth.Proofs.Behavior.Hashing

/-! Equality of values without floats. On an acyclic heap, two values are equal exactly if they have
one canonical form, and the hash of a value is a hash of its form. So equality is an equivalence
that hashes respect, and it makes no difference whether items that have been made at once are asked
for equality or not.
-/

namespace RecordSynth

-----------------------------------------------------------------------------------------
-- Comparing items with other shortcuts
-----------------------------------------------------------------------------------------

namespace Protocol

variable {skips : Value → Value → Bool}

/-- Whether items are equal in pairs, where the pairs that `skips` names are taken as equal. -/
def itemsSkipping (skips : Value → Value → Bool) (p : Protocol)
    : List Value → List Value → Eval Bool
  | a :: as, b :: bs => do
    if skips a b then itemsSkipping skips p as bs
    else if ← p.equals a b then itemsSkipping skips p as bs
    else return false
  | _, _ => return true

/-- Equality with another shortcut for items. -/
def equalsSkipping (skips : Value → Value → Bool) (p : Protocol) : Value → Value → Eval Bool
  | .tuple _ as, .tuple _ bs =>
    if as.length = bs.length then itemsSkipping skips p as bs else return false
  | a, b => p.equalsLayer a b

/-- The levels with another shortcut for items. -/
def levelSkipping [Natives] (skips : Value → Value → Bool) : Nat → Protocol
  | 0 => exhausted
  | n + 1 => {
      display := fun value => (levelSkipping skips n).displayLayer value
      equals := fun left right => equalsSkipping skips (levelSkipping skips n) left right
      hash := fun value => (levelSkipping skips n).hashLayer value
      native := fun operation args => Natives.call operation (levelSkipping skips n) args }

theorem equalsSkipping_of_kind_ne {p : Protocol} {a b : Value}
    (apart : a.kind = .tuple → b.kind ≠ .tuple)
    : equalsSkipping skips p a b = p.equalsLayer a b := by
  cases a with
  | tuple x as =>
      cases b with
      | tuple y bs => exact absurd rfl (apart rfl)
      | _ => rfl
  | _ => rfl

theorem itemsSkipping_sharesAllocation (p : Protocol) (as bs : List Value)
    : itemsSkipping Value.sharesAllocation p as bs = p.equalItems as bs := by
  induction as generalizing bs with
  | nil => rfl
  | cons a as ih =>
      cases bs with
      | nil => rfl
      | cons b bs => simp only [itemsSkipping, equalItems, ih]

theorem equalsSkipping_sharesAllocation (p : Protocol) (a b : Value)
    : equalsSkipping Value.sharesAllocation p a b = p.equalsLayer a b := by
  cases a with
  | tuple x as =>
      cases b with
      | tuple y bs => rw [equalsLayer_tuples, equalsSkipping, itemsSkipping_sharesAllocation]
      | _ => rfl
  | _ => rfl

/-- The levels skip the items that have been made at once, by induction on them. -/
theorem levelSkipping_sharesAllocation [Natives] (n : Nat)
    : levelSkipping Value.sharesAllocation n = level n := by
  induction n with
  | zero => rfl
  | succ n ih => simp only [levelSkipping, ih, equalsSkipping_sharesAllocation, level]

end Protocol

-----------------------------------------------------------------------------------------
-- Steady answers
-----------------------------------------------------------------------------------------

/-- With enough levels, the evaluation gives the value, whatever else has been made, and no record
is changed by that.
-/
def Steady [Natives] {α : Type} (skips : Value → Value → Bool) (h : Heap) (x : Protocol → Eval α)
    (a : α)
    : Prop :=
  ∃ n, ∀ m, n ≤ m → (x (.levelSkipping skips m)).Gives h a

/-- The answer to a question is steady, and it is whether the condition holds. -/
def Decides [Natives] (skips : Value → Value → Bool) (h : Heap) (x : Protocol → Eval Bool)
    (φ : Prop)
    : Prop :=
  ∃ r, (r = true ↔ φ) ∧ Steady skips h x r

section Answers

variable [Natives] {α β : Type} {skips : Value → Value → Bool} {h : Heap} {x y : Protocol → Eval α}
  {a : α}

theorem Decides.congr {x : Protocol → Eval Bool} {φ ψ : Prop} (decides : Decides skips h x φ)
    (same : φ ↔ ψ)
    : Decides skips h x ψ := by
  obtain ⟨r, isAnswer, asked⟩ := decides
  exact ⟨r, isAnswer.trans same, asked⟩

theorem Steady.of_gives {x : Eval α} (gives : x.Gives h a) : Steady skips h (fun _ => x) a :=
  ⟨0, fun _ _ => gives⟩

theorem Steady.bind {f : Protocol → α → Eval β} {b : β} (head : Steady skips h x a)
    (rest : Steady skips h (fun p => f p a) b)
    : Steady skips h (fun p => x p >>= f p) b := by
  obtain ⟨n₁, first⟩ := head
  obtain ⟨n₂, second⟩ := rest
  refine ⟨max n₁ n₂, ?_⟩
  intro m le
  exact (first m (Nat.le_trans (Nat.le_max_left n₁ n₂) le)).bind
    (second m (Nat.le_trans (Nat.le_max_right n₁ n₂) le))

theorem Steady.congr (steady : Steady skips h y a)
    (agree : ∀ p h₁, h.SameRecords h₁ → (x p).outcome h₁ = (y p).outcome h₁)
    : Steady skips h x a := by
  obtain ⟨n, gives⟩ := steady
  exact ⟨n, fun m le => (gives m le).congr (agree _)⟩

/-- What is asked of one more level is steady if it is for the levels themselves. -/
theorem Steady.layer (steady : Steady skips h y a)
    (layer : ∀ n, x (.levelSkipping skips (n + 1)) = y (.levelSkipping skips n))
    : Steady skips h x a := by
  obtain ⟨n, gives⟩ := steady
  refine ⟨n + 1, ?_⟩
  intro m le
  obtain ⟨m, rfl⟩ := Nat.exists_eq_add_of_le' (Nat.le_trans (Nat.le_add_left 1 n) le)
  rw [layer]
  exact gives m (Nat.le_of_succ_le_succ le)

/-- A steady answer is what the evaluation settles to. -/
theorem Steady.settles (steady : Steady Value.sharesAllocation h x a) {h₁ : Heap}
    (same : h.SameRecords h₁)
    : ∃ h₂, h.SameRecords h₂ ∧ Settles x h₁ (.ok a) h₂ := by
  obtain ⟨n, gives⟩ := steady
  obtain ⟨h₂, after, given⟩ := gives n (Nat.le_refl n) h₁ same
  rw [Protocol.levelSkipping_sharesAllocation] at given
  exact ⟨h₂, after, n, given⟩

end Answers

-----------------------------------------------------------------------------------------
-- Steps of equality
-----------------------------------------------------------------------------------------

section Steps

variable [Natives] {skips : Value → Value → Bool} {h : Heap} {a b : Value}

/-- If the first value is concerned, it decides. -/
theorem steady_equals_of_compare {r : Bool} (apart : a.kind = .tuple → b.kind ≠ .tuple)
    (compared : Steady skips h (fun p => p.compare a b) (.ofBool r))
    : Steady skips h (fun p => p.equals a b) r := by
  have decides : Steady skips h (fun p => p.equalsLayer a b) r := by
    refine compared.bind ?_
    cases r with
    | true => exact .of_gives (Eval.gives_pure h true)
    | false => exact .of_gives (Eval.gives_pure h false)
  exact decides.layer fun n => Protocol.equalsSkipping_of_kind_ne apart

/-- If neither value is concerned, they are equal if they are identical. -/
theorem steady_equals_of_unconcerned (apart : a.kind = .tuple → b.kind ≠ .tuple)
    (left : Steady skips h (fun p => p.compare a b) .notApplicable)
    (right : Steady skips h (fun p => p.compare b a) .notApplicable)
    : Steady skips h (fun p => p.equals a b) (a.isIdentical b) := by
  have decides : Steady skips h (fun p => p.equalsLayer a b) (a.isIdentical b) :=
    left.bind (right.bind (.of_gives (Eval.gives_pure h _)))
  exact decides.layer fun n => Protocol.equalsSkipping_of_kind_ne apart

/-- Items are equal if their forms are, by induction on them. -/
theorem decides_items {form : Value → CanonicalForm} {as bs : List Value}
    (lengths : as.length = bs.length)
    (pairs : ∀ a ∈ as, ∀ b ∈ bs,
      (skips a b = true → form a = form b)
      ∧ Decides skips h (fun p => p.equals a b) (form a = form b))
    : Decides skips h (fun p => p.itemsSkipping skips as bs) (as.map form = bs.map form) := by
  induction as generalizing bs with
  | nil =>
      obtain rfl := List.length_eq_zero_iff.mp lengths.symm
      exact ⟨true, by simp, .of_gives (Eval.gives_pure h true)⟩
  | cons a as ih =>
      cases bs with
      | nil => cases lengths
      | cons b bs =>
          obtain ⟨skipped, r, isAnswer, asked⟩ := pairs a List.mem_cons_self b List.mem_cons_self
          obtain ⟨rest, isRest, restAsked⟩ := ih (Nat.succ.inj lengths) fun a inRest b inRest' =>
            pairs a (List.mem_cons_of_mem _ inRest) b (List.mem_cons_of_mem _ inRest')
          rw [List.map_cons, List.map_cons, List.cons.injEq]
          cases skip : skips a b with
          | true =>
              refine ⟨rest, ?_, ?_⟩
              · rw [isRest, and_iff_right (skipped skip)]
              · simpa only [Protocol.itemsSkipping, skip, if_true] using restAsked
          | false =>
              refine ⟨r && rest, ?_, ?_⟩
              · rw [Bool.and_eq_true, isAnswer, isRest]
              · simp only [Protocol.itemsSkipping, skip, Bool.false_eq_true, if_false]
                refine asked.bind ?_
                cases r with
                | true => exact restAsked
                | false => exact .of_gives (Eval.gives_pure h false)

end Steps

-----------------------------------------------------------------------------------------
-- Heaps with records to compare and to hash
-----------------------------------------------------------------------------------------

namespace Heap

/-- The records of the heap follow the schema: a record is compared and hashed by the fields that
the schema has for its type, all of which are set, or its type finds neither behavior.
-/
structure Follows (h : Heap) (schema : Schema) : Prop where
  bare
    : ∀ id type, h.typeOf? id = some type → schema type = none →
        h.types.lookup type .equality = none ∧ h.types.lookup type .hashing = none
  finds
    : ∀ id type fields, h.typeOf? id = some type → schema type = some fields →
        h.types.Finds type .equality fields ∧ h.types.Finds type .hashing fields
  set
    : ∀ id type fields, h.typeOf? id = some type → schema type = some fields →
        ∀ name ∈ fields, (h.getAttr? id name).isSome

/-- The record is compared and hashed by fields with these values. -/
structure HasFields (h : Heap) (id : RecordId) (type : TypeId) (fields : List String)
    (values : List Value) : Prop where
  isType : h.typeOf? id = some type
  set : fields.map (h.getAttr? id) = values.map some
  equality : h.types.Finds type .equality fields
  hashing : h.types.Finds type .hashing fields

variable {h : Heap} {schema : Schema}

theorem methodOf?_of_typeOf? {id : RecordId} {type : TypeId} (isType : h.typeOf? id = some type)
    (behavior : Behavior)
    : h.methodOf? id behavior = h.types.lookup type behavior := by
  rw [methodOf?, isType, Option.bind_some]

/-- A record has neither behavior, or it is compared and hashed by fields. -/
theorem Follows.cases (follows : h.Follows schema) (id : RecordId)
    : (h.comparedBy? schema id = none
        ∧ h.methodOf? id .equality = none ∧ h.methodOf? id .hashing = none)
      ∨ ∃ type fields values,
        h.comparedBy? schema id = some (type, fields) ∧ h.HasFields id type fields values := by
  unfold comparedBy?
  cases isType : h.typeOf? id with
  | none => exact Or.inl ⟨rfl, by rw [methodOf?, isType]; rfl, by rw [methodOf?, isType]; rfl⟩
  | some type =>
      rw [Option.bind_some, methodOf?_of_typeOf? isType, methodOf?_of_typeOf? isType]
      cases hasFields : schema type with
      | none => exact Or.inl ⟨rfl, follows.bare id type isType hasFields⟩
      | some fields =>
          obtain ⟨values, set⟩ := Eval.exists_values (follows.set id type fields isType hasFields)
          obtain ⟨equality, hashing⟩ := follows.finds id type fields isType hasFields
          exact Or.inr ⟨type, fields, values, rfl, isType, set, equality, hashing⟩

theorem HasFields.inside {id : RecordId} {type : TypeId} {fields : List String}
    {values : List Value} (record : h.HasFields id type fields values) {v : Value}
    (member : v ∈ values)
    : h.Inside v (.record id) := by
  have read : some v ∈ fields.map (h.getAttr? id) := by
    rw [record.set]
    exact List.mem_map_of_mem member
  obtain ⟨name, -, found⟩ := List.mem_map.mp read
  exact .attr found

theorem Follows.notUserEqual (follows : h.Follows schema) (id : RecordId)
    : NotUserEqual h id := by
  intro method found
  rcases follows.cases id with ⟨-, bare, -⟩ | ⟨type, fields, values, -, record⟩
  · rw [bare] at found
    cases found
  · obtain ⟨method', found', synthesized⟩ := record.equality
    rw [methodOf?_of_typeOf? record.isType, found'] at found
    cases found
    exact ⟨fields, synthesized⟩

/-- Values of a heap that have no floats, also deep inside. -/
structure FloatFree (h : Heap) (values : Value → Prop) : Prop where
  closed : ∀ u v, h.Inside u v → values v → values u
  noFloat : ∀ x, ¬ values (.float x)
  /-- An address stands for one text or tuple, so what has been made at once is the same. -/
  coherent : ∀ u v, values u → values v → u.sharesAllocation v = true → u = v

end Heap

-----------------------------------------------------------------------------------------
-- Equality tells canonical forms apart
-----------------------------------------------------------------------------------------

theorem exists_int {v : Value} (isNumber : v.kind = .number) (noFloat : ∀ x, v ≠ .float x)
    : ∃ n, Numeric.ofValue? v = some (.int n) := by
  cases v with
  | bool | int => exact ⟨_, rfl⟩
  | float x => exact absurd rfl (noFloat x)
  | _ => cases isNumber

section Equality

variable [Natives] {skips : Value → Value → Bool} {h : Heap} {schema : Schema} {acyclic : h.Acyclic}
  {a b : Value}

/-- Values of different kinds are different, as their forms are. -/
theorem decides_of_kind_ne (follows : h.Follows schema) (kinds : a.kind ≠ b.kind)
    : Decides skips h (fun p => p.equals a b)
        (h.canonical acyclic schema a = h.canonical acyclic schema b) := by
  have unconcerned {a b : Value} (kinds : a.kind ≠ b.kind)
      : Steady skips h (fun p => p.compare a b) .notApplicable := by
    refine (Steady.of_gives (Eval.gives_pure h _)).congr ?_
    intro p h₁ same
    have notUser (id : RecordId) : NotUserEqual h₁ id :=
      same.notUserEqual (follows.notUserEqual id)
    exact Protocol.outcome_compare_of_kind_ne notUser kinds p
  have notIdentical : a.isIdentical b = false := by
    cases a <;> cases b <;> first | rfl | exact absurd rfl kinds
  refine ⟨false, ?_, ?_⟩
  · refine iff_of_false nofun ?_
    intro same
    have sameKind := congrArg CanonicalForm.kind same
    rw [Heap.kind_canonical, Heap.kind_canonical] at sameKind
    exact kinds sameKind
  · rw [← notIdentical]
    refine steady_equals_of_unconcerned ?_ (unconcerned kinds) (unconcerned (Ne.symm kinds))
    rintro isTuple isTuple'
    exact kinds (isTuple.trans isTuple'.symm)

/-- Records of different types are different. -/
theorem steady_equals_of_otherType (follows : h.Follows schema) {id other : RecordId}
    (different : h.typeOf? id ≠ h.typeOf? other)
    : Steady skips h (fun p => p.equals (.record id) (.record other)) false := by
  have unconcerned {id other : RecordId} (different : h.typeOf? id ≠ h.typeOf? other)
      : Steady skips h (fun p => p.compare (.record id) (.record other)) .notApplicable := by
    refine (Steady.of_gives (Eval.gives_pure h _)).congr ?_
    intro p h₁ same
    refine outcome_compare_of_otherType (same.notUserEqual (follows.notUserEqual id)) ?_ p
    rw [same.typeRef, same.typeRef]
    exact fun sameType => different (Protocol.typeOf?_of_typeRef sameType)
  have notIdentical : (Value.record id).isIdentical (.record other) = false := by
    refine beq_false_of_ne ?_
    rintro rfl
    exact different rfl
  rw [← notIdentical]
  exact steady_equals_of_unconcerned nofun (unconcerned different) (unconcerned (Ne.symm different))

/-- Records without behaviors are equal to themselves only. -/
theorem decides_bare {id other : RecordId} (bare : h.methodOf? id .equality = none)
    (bareOther : h.methodOf? other .equality = none)
    : Decides skips h (fun p => p.equals (.record id) (.record other)) (id = other) := by
  have compared {id other : RecordId} (bare : h.methodOf? id .equality = none)
      : Steady skips h (fun p => p.compare (.record id) (.record other))
          (if (Value.record id).isIdentical (.record other) then .equal else .notApplicable) := by
    refine (Steady.of_gives (Eval.gives_pure h _)).congr ?_
    intro p h₁ same
    rw [← same.methodOf?] at bare
    exact Protocol.outcome_compare_of_bare bare p _
  refine ⟨(Value.record id).isIdentical (.record other), beq_iff_eq, ?_⟩
  cases identical : (Value.record id).isIdentical (.record other) with
  | true =>
      have concerned := @compared id other bare
      rw [identical] at concerned
      exact steady_equals_of_compare nofun concerned
  | false =>
      have left := @compared id other bare
      have right := @compared other id bareOther
      rw [Value.isIdentical_comm] at right
      rw [identical] at left right
      rw [← identical]
      exact steady_equals_of_unconcerned nofun left right

/-- Records that are compared by the same fields of one type are equal if their values are. -/
theorem decides_fields {id other : RecordId} {type : TypeId} {fields : List String}
    {as bs : List Value} {φ : Prop} (record : h.HasFields id type fields as)
    (otherRecord : h.HasFields other type fields bs)
    (items : Decides skips h (fun p => p.itemsSkipping skips as bs) φ)
    : Decides skips h (fun p => p.equals (.record id) (.record other)) φ := by
  obtain ⟨r, isAnswer, n, asked⟩ := items
  obtain ⟨method, found, synthesized⟩ := record.equality
  rw [← Heap.methodOf?_of_typeOf? record.isType] at found
  have lengths := length_eq_of_set record.set otherRecord.set
  have sameType : h.typeRef (.record id) = h.typeRef (.record other) := by
    simp only [Heap.typeRef, record.isType, otherRecord.isType]
  have noTuple : (Value.record id).kind = .tuple → (Value.record other).kind ≠ .tuple := by
    intro isTuple
    cases isTuple
  refine ⟨r, isAnswer, steady_equals_of_compare noTuple ⟨n + 1, ?_⟩⟩
  intro m le h₁ same
  obtain ⟨m, rfl⟩ := Nat.exists_eq_add_of_le' (Nat.le_trans (Nat.le_add_left 1 n) le)
  obtain ⟨h₂, after, given⟩ :=
    asked m (Nat.le_of_succ_le_succ le) _ (same.trans (.allocated h₁ 2))
  refine ⟨h₂, after, ?_⟩
  rw [Protocol.outcome_compare_of_sameRecords synthesized found sameType record.set
    otherRecord.set same]
  refine Eval.outcome_bind_ok ?_ _
  rw [← given]
  exact congrArg (Eval.outcome · _) (if_pos lengths)

/-- If comparing gives an answer at once, it decides. -/
theorem decides_of_compare {r : Bool} {φ : Prop} (apart : a.kind = .tuple → b.kind ≠ .tuple)
    (compared : ∀ p : Protocol, p.compare a b = return .ofBool r) (isAnswer : r = true ↔ φ)
    : Decides skips h (fun p => p.equals a b) φ := by
  refine ⟨r, isAnswer, steady_equals_of_compare apart ?_⟩
  refine (Steady.of_gives (Eval.gives_pure h _)).congr ?_
  intro p h₁ _
  rw [compared]

/-- Tuples are equal if they have as many items and the forms of these are the same. -/
theorem decides_tuples (x y : Address) {as bs : List Value}
    (items : as.length = bs.length → Decides skips h (fun p => p.itemsSkipping skips as bs)
      (as.map (h.canonical acyclic schema) = bs.map (h.canonical acyclic schema)))
    : Decides skips h (fun p => p.equals (.tuple x as) (.tuple y bs))
        (h.canonical acyclic schema (.tuple x as) = h.canonical acyclic schema (.tuple y bs)) := by
  rw [Heap.canonical_tuple, Heap.canonical_tuple, CanonicalForm.tuple.injEq]
  by_cases lengths : as.length = bs.length
  · obtain ⟨r, isAnswer, asked⟩ := items lengths
    exact ⟨r, isAnswer, asked.layer fun n => if_pos lengths⟩
  · refine ⟨false, iff_of_false nofun ?_, ?_⟩
    · intro same
      have sameLengths := congrArg List.length same
      rw [List.length_map, List.length_map] at sameLengths
      exact lengths sameLengths
    · exact (Steady.of_gives (Eval.gives_pure h false)).layer fun n => if_neg lengths

/-- Records are equal if neither is compared by fields and they are the same, or if both are, and
their types and the forms of their fields are the same.
-/
theorem decides_records (follows : h.Follows schema) {id other : RecordId}
    (items : ∀ type fields as bs,
      h.HasFields id type fields as → h.HasFields other type fields bs →
      Decides skips h (fun p => p.itemsSkipping skips as bs)
        (as.map (h.canonical acyclic schema) = bs.map (h.canonical acyclic schema)))
    : Decides skips h (fun p => p.equals (.record id) (.record other))
        (h.canonical acyclic schema (.record id) = h.canonical acyclic schema (.record other)) := by
  rcases follows.cases id with ⟨bare, noEquality, -⟩ | ⟨type, fields, as, compared, record⟩
  · rw [Heap.canonical_itself bare]
    rcases follows.cases other
      with ⟨bareOther, noEqualityOther, -⟩ | ⟨type, fields, bs, comparedOther, record⟩
    · rw [Heap.canonical_itself bareOther, CanonicalForm.itself.injEq]
      exact decides_bare noEquality noEqualityOther
    · rw [Heap.canonical_record comparedOther record.set]
      refine ⟨false, iff_of_false nofun nofun, steady_equals_of_otherType follows ?_⟩
      intro sameType
      rw [Heap.comparedBy?, sameType, ← Heap.comparedBy?, comparedOther] at bare
      cases bare
  · rw [Heap.canonical_record compared record.set]
    rcases follows.cases other
      with ⟨bareOther, -, -⟩ | ⟨type', fields', bs, comparedOther, otherRecord⟩
    · rw [Heap.canonical_itself bareOther]
      refine ⟨false, iff_of_false nofun nofun, steady_equals_of_otherType follows ?_⟩
      intro sameType
      rw [Heap.comparedBy?, ← sameType, ← Heap.comparedBy?, compared] at bareOther
      cases bareOther
    · rw [Heap.canonical_record comparedOther otherRecord.set, CanonicalForm.record.injEq]
      by_cases sameType : h.typeOf? id = h.typeOf? other
      · rw [Heap.comparedBy?, sameType, ← Heap.comparedBy?, comparedOther] at compared
        cases compared
        refine (decides_fields record otherRecord (items _ _ _ _ record otherRecord)).congr ?_
        exact (and_iff_right rfl).symm
      · refine ⟨false, iff_of_false nofun ?_, steady_equals_of_otherType follows sameType⟩
        rintro ⟨rfl, -⟩
        exact sameType (record.isType.trans otherRecord.isType.symm)

/-- Integers and truth values are equal if they count as the same integer. -/
theorem decides_ints {m n : Int64} (isInt : Numeric.ofValue? a = some (.int m))
    (isInt' : Numeric.ofValue? b = some (.int n))
    : Decides skips h (fun p => p.equals a b)
        (h.canonical acyclic schema a = h.canonical acyclic schema b) := by
  have number : a.kind = .number := by
    cases a with
    | bool | int => rfl
    | _ => cases isInt
  have apart : a.kind = .tuple → b.kind ≠ .tuple := by
    rw [number]
    nofun
  have noRecord : a.kind ≠ .record := by
    rw [number]
    nofun
  rw [Heap.canonical_int isInt, Heap.canonical_int isInt', CanonicalForm.int.injEq]
  refine decides_of_compare apart ?_ beq_iff_eq
  intro p
  rw [Protocol.compare_of_kind_ne_record noRecord, Protocol.compareBuiltin_numbers p isInt isInt']
  rfl

/-- Values without floats are equal exactly if they have one canonical form, by induction on what is
inside them.
-/
theorem decides_equals (follows : h.Follows schema) {values : Value → Prop}
    (floatFree : h.FloatFree values)
    (sound : ∀ u v, skips u v = true → u.sharesAllocation v = true)
    (a : Value) (isValue : values a) (b : Value) (isValue' : values b)
    : Decides skips h (fun p => p.equals a b)
        (h.canonical acyclic schema a = h.canonical acyclic schema b) := by
  induction a using acyclic.wellFounded.induction generalizing b with | _ a ih
  by_cases kinds : a.kind = b.kind
  · have items {as bs : List Value} (insideA : ∀ u ∈ as, h.Inside u a)
        (insideB : ∀ v ∈ bs, h.Inside v b) (lengths : as.length = bs.length)
        : Decides skips h (fun p => p.itemsSkipping skips as bs)
            (as.map (h.canonical acyclic schema) = bs.map (h.canonical acyclic schema)) := by
      refine decides_items lengths fun u inA v inB => ?_
      have isU := floatFree.closed u a (insideA u inA) isValue
      have isV := floatFree.closed v b (insideB v inB) isValue'
      refine ⟨?_, ih u (insideA u inA) isU v isV⟩
      intro skipped
      rw [floatFree.coherent u v isU isV (sound u v skipped)]
    cases a with
    | none =>
        cases b with
        | none => exact decides_of_compare nofun (fun p => rfl) (iff_of_true rfl rfl)
        | _ => cases kinds
    | notApplicable =>
        cases b with
        | notApplicable => exact decides_of_compare nofun (fun p => rfl) (iff_of_true rfl rfl)
        | _ => cases kinds
    | bool | int =>
        obtain ⟨n, isInt⟩ := exists_int kinds.symm fun x isFloat =>
          floatFree.noFloat x (isFloat ▸ isValue')
        exact decides_ints rfl isInt
    | float x => exact absurd isValue (floatFree.noFloat x)
    | str x s =>
        cases b with
        | str y t =>
            refine decides_of_compare nofun (fun p => p.compareBuiltin_texts x y s t) ?_
            rw [Heap.canonical_str, Heap.canonical_str, beq_iff_eq, CanonicalForm.text.injEq]
        | _ => cases kinds
    | type ref =>
        cases b with
        | type other =>
            refine decides_of_compare nofun (fun p => p.compareBuiltin_types ref other) ?_
            rw [Heap.canonical_type, Heap.canonical_type, beq_iff_eq, CanonicalForm.type.injEq]
        | _ => cases kinds
    | tuple x as =>
        cases b with
        | tuple y bs =>
            refine decides_tuples x y ?_
            exact items (fun u => .item x) (fun v => .item y)
        | _ => cases kinds
    | record id =>
        cases b with
        | record other =>
            refine decides_records follows ?_
            intro type fields as bs record otherRecord
            exact items (fun u => record.inside) (fun v => otherRecord.inside)
              (length_eq_of_set record.set otherRecord.set)
        | _ => cases kinds
  · exact decides_of_kind_ne follows kinds

end Equality

-----------------------------------------------------------------------------------------
-- Hashes are those of canonical forms
-----------------------------------------------------------------------------------------

namespace CanonicalForm

open Protocol

mutual

/-- The hash of the values with the form. A record has the hash of the tuple of its fields. -/
def hash : CanonicalForm → UInt64
  | none => noneHash
  | notApplicable => ~~~noneHash
  | int n => hashWord n.toUInt64
  | float x => hashWord (floatWord x)
  | text s => (WordHash.initial.addText s).finish
  | type ref => hashWord (typeWord ref)
  | itself id => hashWord (recordWord id)
  | tuple items => (hashAll (WordHash.initial.add (UInt64.ofNat items.length)) items).finish
  | record _ fields => (hashAll (WordHash.initial.add (UInt64.ofNat fields.length)) fields).finish

/-- Adds the hashes of forms to a hash. -/
def hashAll (h : WordHash) : List CanonicalForm → WordHash
  | [] => h
  | form :: rest => hashAll (h.add form.hash) rest

end

end CanonicalForm

section Hashing

variable [Natives] {skips : Value → Value → Bool} {h : Heap} {schema : Schema} {acyclic : h.Acyclic}

/-- Values are hashed one after the other, by induction on them. -/
theorem steady_hashAll {form : Value → CanonicalForm} {values : List Value}
    (hashed : ∀ v ∈ values, Steady skips h (fun p => p.hash v) (form v).hash) (start : WordHash)
    : Steady skips h (fun p => p.hashAll start values)
        (CanonicalForm.hashAll start (values.map form)) := by
  induction values generalizing start with
  | nil => exact .of_gives (Eval.gives_pure h start)
  | cons v rest ih =>
      obtain ⟨first, others⟩ := List.forall_mem_cons.mp hashed
      exact first.bind (ih others _)

/-- A tuple is hashed by the number and the hashes of its items. -/
theorem steady_hash_tuple {form : Value → CanonicalForm} {values : List Value}
    (hashed : ∀ v ∈ values, Steady skips h (fun p => p.hash v) (form v).hash) (address : Address)
    : Steady skips h (fun p => p.hashLayer (.tuple address values))
        (CanonicalForm.tuple (values.map form)).hash := by
  refine (steady_hashAll hashed _).bind ?_
  rw [CanonicalForm.hash, List.length_map]
  exact .of_gives (Eval.gives_pure h _)

/-- A record with fields is hashed as the tuple of their values. -/
theorem steady_hash_record {id : RecordId} {type : TypeId} {fields : List String}
    {values : List Value} (record : h.HasFields id type fields values) {word : UInt64}
    (hashed : Steady skips h (fun p => p.hashLayer (.tuple default values)) word)
    : Steady skips h (fun p => p.hashLayer (.record id)) word := by
  obtain ⟨n, asked⟩ := hashed
  obtain ⟨method, found, synthesized⟩ := record.hashing
  refine ⟨n + 1, ?_⟩
  intro m le h₁ same
  obtain ⟨m, rfl⟩ := Nat.exists_eq_add_of_le' (Nat.le_trans (Nat.le_add_left 1 n) le)
  obtain ⟨h₂, after, given⟩ :=
    asked m (Nat.le_of_succ_le_succ le) _ (same.trans (.allocated h₁ 1))
  have set := record.set
  rw [← same.getAttr?_eq] at set
  rw [← Heap.methodOf?_of_typeOf? record.isType, ← same.methodOf?] at found
  refine ⟨h₂, after, ?_⟩
  rw [Protocol.outcome_hashLayer_of_set synthesized found set]
  exact given

/-- The hash of a value is that of its canonical form, by induction on what is inside it. -/
theorem steady_hash (follows : h.Follows schema) (v : Value)
    : Steady skips h (fun p => p.hash v) (h.canonical acyclic schema v).hash := by
  induction v using acyclic.wellFounded.induction with | _ v ih
  have layer (steady : Steady skips h (fun p => p.hashLayer v) (h.canonical acyclic schema v).hash)
      : Steady skips h (fun p => p.hash v) (h.canonical acyclic schema v).hash :=
    steady.layer fun n => rfl
  refine layer ?_
  cases v with
  | tuple address items =>
      rw [Heap.canonical_tuple]
      exact steady_hash_tuple (fun u member => ih u (.item address member)) address
  | record id =>
      rcases follows.cases id with ⟨bare, -, noHashing⟩ | ⟨type, fields, values, compared, record⟩
      · rw [Heap.canonical_itself bare]
        refine (Steady.of_gives (Eval.gives_pure h _)).congr ?_
        intro p h₁ same
        rw [← same.methodOf?] at noHashing
        exact Protocol.outcome_hashLayer_of_bare noHashing p
      · rw [Heap.canonical_record compared record.set]
        refine steady_hash_record record ?_
        exact steady_hash_tuple (fun u member => ih u (record.inside member)) default
  | bool b =>
      rw [Heap.canonical_eq]
      cases b <;> exact .of_gives (Eval.gives_pure h _)
  | none | notApplicable | int n | float x | str x s | type ref =>
      rw [Heap.canonical_eq]
      exact .of_gives (Eval.gives_pure h _)

end Hashing

-----------------------------------------------------------------------------------------
-- Equality is an equivalence that hashes respect
-----------------------------------------------------------------------------------------

/-- Whatever else has been made, the value has this hash, and no record is changed by hashing it. -/
def HasHash [Natives] (h : Heap) (v : Value) (word : UInt64) : Prop :=
  ∀ h₁, h.SameRecords h₁ → ∃ h₂, h.SameRecords h₂ ∧ Hashes h₁ v (.ok word) h₂

section Laws

variable [Natives] [MonotoneNatives] {h : Heap} {schema : Schema}

/-- The answer to whether values are equal is one answer. -/
theorem Tells.eq_of_equates {a b : Value} {r r' : Bool} (tells : Tells h a b (.ok r)) {h' : Heap}
    (equates : Equates h a b (.ok r') h')
    : r = r' := by
  obtain ⟨h₂, -, told⟩ := tells h (.refl h)
  have monotone : Monotone fun p => p.equals a b := fun _ _ refines => refines.equals a b
  obtain ⟨n, given⟩ := told.eventually monotone
  obtain ⟨m, given'⟩ := equates.eventually monotone
  have same := (given _ (Nat.le_max_left n m)).symm.trans (given' _ (Nat.le_max_right n m))
  cases same
  rfl

/-- Take an acyclic heap whose types find neither equality nor hashing or both, synthesized for the
same fields, all of which are set. Over values without floats, equality is reflexive and transitive,
and equal values have one hash. It always gives an answer, and the answer is the same with fewer or
no items of tuples taken as equal because they have been made at once.
-/
theorem equality_laws (acyclic : h.Acyclic) (follows : h.Follows schema) {values : Value → Prop}
    (floatFree : h.FloatFree values)
    : (∀ a, values a → Tells h a a (.ok true))
      ∧ (∀ a b c h₁ h₂,
        values a → values b → values c →
        Equates h a b (.ok true) h₁ → Equates h b c (.ok true) h₂ → Tells h a c (.ok true))
      ∧ (∀ a b h₁,
        values a → values b → Equates h a b (.ok true) h₁ →
        ∃ word, HasHash h a word ∧ HasHash h b word)
      ∧ ∀ a b,
        values a → values b →
        ∃ r, Tells h a b (.ok r)
          ∧ ∀ skips : Value → Value → Bool,
            (∀ u v, skips u v = true → u.sharesAllocation v = true) →
            Steady skips h (fun p => p.equals a b) r := by
  have answered {a b : Value} (isA : values a) (isB : values b)
      : ∃ r, (r = true ↔ h.canonical acyclic schema a = h.canonical acyclic schema b)
          ∧ Tells h a b (.ok r) := by
    obtain ⟨r, isAnswer, asked⟩ :=
      decides_equals follows floatFree (fun _ _ shares => shares) a isA b isB
    exact ⟨r, isAnswer, fun h₁ same => asked.settles same⟩
  have told {a b : Value} (isA : values a) (isB : values b)
      (same : h.canonical acyclic schema a = h.canonical acyclic schema b)
      : Tells h a b (.ok true) := by
    obtain ⟨r, isAnswer, tells⟩ := answered isA isB
    exact isAnswer.mpr same ▸ tells
  have sameForm {a b : Value} {h₁ : Heap} (isA : values a) (isB : values b)
      (equal : Equates h a b (.ok true) h₁)
      : h.canonical acyclic schema a = h.canonical acyclic schema b := by
    obtain ⟨r, isAnswer, tells⟩ := answered isA isB
    exact isAnswer.mp (tells.eq_of_equates equal)
  have hashed (a : Value) : HasHash h a (h.canonical acyclic schema a).hash :=
    fun h₁ same => (steady_hash follows a).settles same
  refine ⟨?_, ?_, ?_, ?_⟩
  · intro a isA
    exact told isA isA rfl
  · intro a b c h₁ h₂ isA isB isC first second
    exact told isA isC ((sameForm isA isB first).trans (sameForm isB isC second))
  · intro a b h₁ isA isB equal
    exact ⟨_, hashed a, sameForm isA isB equal ▸ hashed b⟩
  · intro a b isA isB
    obtain ⟨r, isAnswer, tells⟩ := answered isA isB
    refine ⟨r, tells, ?_⟩
    intro skips sound
    obtain ⟨r', isAnswer', asked⟩ :=
      @decides_equals _ skips h schema acyclic follows values floatFree sound a isA b isB
    rwa [Bool.eq_iff_iff.mpr (isAnswer.trans isAnswer'.symm)]

end Laws

section EqualRecords

open Natives

/-- Two records of a type that is compared and hashed by its fields, which have equal values. -/
def equalRecords : Heap where
  types := equippedTypes ["self", "_0"]
  records :=
    #[⟨⟨0⟩, (∅ : Std.HashMap String Value).insert "self" .none |>.insert "_0" (.int 1)⟩,
      ⟨⟨0⟩, (∅ : Std.HashMap String Value).insert "self" .none |>.insert "_0" (.bool true)⟩]
  nextOffset := 0

/-- The values on that heap. -/
def OfEqualRecords (v : Value) : Prop :=
  v = .record ⟨0⟩ ∨ v = .record ⟨1⟩ ∨ v = .none ∨ v = .int 1 ∨ v = .bool true

theorem getAttr?_equalRecords {id : RecordId} {name : String} {v : Value}
    (found : equalRecords.getAttr? id name = some v)
    : v = .none ∨ v = .int 1 ∨ v = .bool true := by
  obtain ⟨record, isRecord, isAttr⟩ := Option.bind_eq_some_iff.mp found
  have member := Array.mem_of_getElem? isRecord
  simp only [equalRecords, List.mem_toArray, List.mem_cons, List.not_mem_nil, or_false] at member
  rcases member with rfl | rfl
  · simp only [Std.HashMap.getElem?_insert] at isAttr
    grind
  · simp only [Std.HashMap.getElem?_insert] at isAttr
    grind

theorem acyclic_equalRecords : equalRecords.Acyclic := by
  have wellFounded : WellFounded equalRecords.Inside := by
    refine ⟨fun v => Heap.acc_of_records (fun _ => True) (fun _ _ _ _ => trivial) ?_ v trivial⟩
    intro id _
    refine Acc.intro _ ?_
    rintro v ⟨⟩
    next found =>
    rcases getAttr?_equalRecords found with rfl | rfl | rfl <;> exact Acc.intro _ nofun
  exact fun v cycle => wellFounded.transGen.asymmetric v v cycle cycle

theorem fields_equalRecords
    : ["self", "_0"].map (equalRecords.getAttr? ⟨0⟩) = [.none, .int 1].map some
      ∧ ["self", "_0"].map (equalRecords.getAttr? ⟨1⟩) = [.none, .bool true].map some := by
  constructor <;> simp [equalRecords, Heap.getAttr?, Std.HashMap.getElem_insert]

theorem follows_equalRecords : equalRecords.Follows fun _ => some ["self", "_0"] := by
  have isOne {id : RecordId} {type : TypeId} (isType : equalRecords.typeOf? id = some type)
      : type = ⟨0⟩ ∧ (id = ⟨0⟩ ∨ id = ⟨1⟩) := by
    rcases id with ⟨_ | _ | i⟩
    · cases isType
      exact ⟨rfl, Or.inl rfl⟩
    · cases isType
      exact ⟨rfl, Or.inr rfl⟩
    · simp [equalRecords, Heap.typeOf?] at isType
  refine ⟨?_, ?_, ?_⟩
  · intro id type _ hasNone
    cases hasNone
  · rintro id type _ isType ⟨⟩
    obtain ⟨rfl, -⟩ := isOne isType
    obtain ⟨equality, isEquality, found, -⟩ :=
      synthesizedFor_equippedTypes (by decide : ["self", "_0"].Nodup) (by decide) .equality
    obtain ⟨hashing, isHashing, found', -⟩ :=
      synthesizedFor_equippedTypes (by decide : ["self", "_0"].Nodup) (by decide) .hashing
    exact ⟨⟨equality, found, isEquality⟩, ⟨hashing, found', isHashing⟩⟩
  · rintro id type _ isType ⟨⟩ name member
    obtain ⟨first, second⟩ := fields_equalRecords
    simp only [List.map_cons, List.map_nil, List.cons.injEq, and_true] at first second
    simp only [List.mem_cons, List.not_mem_nil, or_false] at member
    obtain ⟨-, rfl | rfl⟩ := isOne isType <;> rcases member with rfl | rfl <;>
      simp [first, second]

theorem floatFree_equalRecords : equalRecords.FloatFree OfEqualRecords := by
  refine ⟨?_, ?_, ?_⟩
  · intro u v inside isValue
    cases inside with
    | attr found => exact Or.inr (Or.inr (getAttr?_equalRecords found))
    | item address member => rcases isValue with ⟨⟨⟩⟩ | ⟨⟨⟩⟩ | ⟨⟨⟩⟩ | ⟨⟨⟩⟩ | ⟨⟨⟩⟩
  · rintro x (⟨⟨⟩⟩ | ⟨⟨⟩⟩ | ⟨⟨⟩⟩ | ⟨⟨⟩⟩ | ⟨⟨⟩⟩)
  · rintro u v (rfl | rfl | rfl | rfl | rfl) (rfl | rfl | rfl | rfl | rfl) shares <;>
      first | rfl | cases shares

/-- Witness: both records are equal to themselves and to one another, and have one hash. -/
theorem equality_laws_equalRecords
    : Tells equalRecords (.record ⟨0⟩) (.record ⟨0⟩) (.ok true)
      ∧ ∃ word,
        HasHash equalRecords (.record ⟨0⟩) word ∧ HasHash equalRecords (.record ⟨1⟩) word := by
  obtain ⟨reflexive, -, hashes, -⟩ :=
    equality_laws acyclic_equalRecords follows_equalRecords floatFree_equalRecords
  obtain ⟨method, synthesized, own, -⟩ :=
    synthesizedFor_equippedTypes (by decide : ["self", "_0"].Nodup) (by decide) .equality
  have found : equalRecords.methodOf? ⟨0⟩ .equality = some method := own
  have byFields : ComparesFields equalRecords ⟨0⟩ ⟨1⟩ ["self", "_0"] :=
    comparesFields synthesized found rfl
  have none : AreEqual equalRecords .none .none :=
    Or.inr fun h₁ same => ⟨h₁, same, 1, rfl⟩
  have one : AreEqual equalRecords (.int 1) (.bool true) :=
    Or.inr fun h₁ same => ⟨h₁, same, 1, rfl⟩
  obtain ⟨h', -, compares⟩ := byFields.equal _ _ fields_equalRecords.1 fields_equalRecords.2
    (.cons none (.cons one .nil))
  have equates : Equates equalRecords (.record ⟨0⟩) (.record ⟨1⟩) (.ok true) h' :=
    equates_of_compares compares
  exact ⟨reflexive _ (Or.inl rfl), hashes _ _ h' (Or.inl rfl) (Or.inr (Or.inl rfl)) equates⟩

end EqualRecords

end RecordSynth
