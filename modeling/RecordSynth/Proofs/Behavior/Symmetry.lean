import RecordSynth.Proofs.Behavior.Equality

/-! Symmetry of equality. Where users have not defined equality, what a value says of another is
what the other says of it, so neither the side that is asked first nor the order in which fields
are read makes a difference to an answer.
-/

namespace RecordSynth

-----------------------------------------------------------------------------------------
-- Evaluations with the same answers
-----------------------------------------------------------------------------------------

namespace Eval

variable {α β : Type} {h : Heap}

/-- Whatever else has been made, the evaluation gives the value, and no record is changed by that.
-/
def Gives (h : Heap) (x : Eval α) (a : α) : Prop :=
  ∀ h₁, h.SameRecords h₁ → ∃ h₂, h.SameRecords h₂ ∧ x.outcome h₁ = (.ok a, h₂)

/-- What the first evaluation gives, the second one gives too, and no record is changed. -/
def Mirrors (h : Heap) (x y : Eval α) : Prop :=
  ∀ h₁ a h₂, h.SameRecords h₁ → x.outcome h₁ = (.ok a, h₂) → h.SameRecords h₂ ∧ y.Gives h a

theorem Gives.bind {x : Eval α} {f : α → Eval β} {a : α} {b : β} (head : x.Gives h a)
    (rest : (f a).Gives h b)
    : (x >>= f).Gives h b := by
  intro h₁ same
  obtain ⟨h₂, between, first⟩ := head h₁ same
  obtain ⟨h₃, after, second⟩ := rest h₂ between
  exact ⟨h₃, after, by rw [outcome_bind_ok first, second]⟩

theorem Gives.congr {x y : Eval α} {a : α} (gives : y.Gives h a)
    (agree : ∀ h₁, h.SameRecords h₁ → x.outcome h₁ = y.outcome h₁)
    : x.Gives h a := by
  intro h₁ same
  rw [agree h₁ same]
  exact gives h₁ same

theorem gives_pure (h : Heap) (a : α) : (pure a : Eval α).Gives h a :=
  fun h₁ same => ⟨h₁, same, rfl⟩

theorem mirrors_pure (h : Heap) (a : α) : (pure a : Eval α).Mirrors h (pure a) := by
  rintro h₁ _ _ same ⟨⟩
  exact ⟨same, gives_pure h a⟩

theorem mirrors_allocate (h : Heap) (count : Nat)
    : (change (·.allocated count)).Mirrors h (change (·.allocated count)) := by
  rintro h₁ _ _ same ⟨⟩
  exact ⟨same.trans (.allocated h₁ count),
    fun h₃ sameThere => ⟨_, sameThere.trans (.allocated h₃ count), rfl⟩⟩

theorem Mirrors.bind {x y : Eval α} {f g : α → Eval β} (head : x.Mirrors h y)
    (rest : ∀ a, (f a).Mirrors h (g a))
    : (x >>= f).Mirrors h (y >>= g) := by
  intro h₁ b h₂ same given
  obtain ⟨a, between, first, second⟩ := outcome_bind_eq_ok_iff.mp given
  obtain ⟨sameBetween, headGives⟩ := head h₁ a between same first
  obtain ⟨sameAfter, restGives⟩ := rest a between b h₂ sameBetween second
  exact ⟨sameAfter, headGives.bind restGives⟩

/-- Evaluations have the same answers if their outcomes are those of such evaluations, on the heaps
with these records.
-/
theorem Mirrors.congr {x x' y y' : Eval α} (mirrors : x'.Mirrors h y')
    (left : ∀ h₁, h.SameRecords h₁ → x.outcome h₁ = x'.outcome h₁)
    (right : ∀ h₁, h.SameRecords h₁ → y.outcome h₁ = y'.outcome h₁)
    : x.Mirrors h y := by
  intro h₁ a h₂ same given
  rw [left h₁ same] at given
  obtain ⟨sameAfter, gives⟩ := mirrors h₁ a h₂ same given
  exact ⟨sameAfter, gives.congr right⟩

theorem mirrors_of_outcomes {x y : Eval α} {a : α}
    (left : ∀ h₁, h.SameRecords h₁ → x.outcome h₁ = (.ok a, h₁))
    (right : ∀ h₁, h.SameRecords h₁ → y.outcome h₁ = (.ok a, h₁))
    : x.Mirrors h y :=
  (mirrors_pure h a).congr left right

/-- Fields that are read without failing are set. -/
theorem map_getAttr?_of_outcome {id : RecordId} {fields : List String} {values : List Value}
    {h' : Heap} (given : (fields.mapM (getAttr (.record id))).outcome h = (.ok values, h'))
    : fields.map (h.getAttr? id) = values.map some := by
  have set : ∀ name ∈ fields, (h.getAttr? id name).isSome := by
    induction fields generalizing values h' with
    | nil => exact nofun
    | cons field rest ih =>
        rw [List.mapM_cons] at given
        cases found : h.getAttr? id field with
        | none =>
            rw [outcome_bind_error (outcome_getAttr_of_none found)] at given
            cases given
        | some value =>
            rw [outcome_bind_ok (outcome_getAttr_of_some found)] at given
            obtain ⟨more, h₁, others, -⟩ := outcome_bind_eq_ok_iff.mp given
            exact List.forall_mem_cons.mpr ⟨by rw [found, Option.isSome_some], ih others⟩
  obtain ⟨read, isRead⟩ := exists_values set
  rw [outcome_mapM_getAttr isRead] at given
  cases given
  exact isRead

end Eval

theorem Heap.SameRecords.getAttr?_eq {h h₁ : Heap} (same : h.SameRecords h₁) (id : RecordId)
    : h₁.getAttr? id = h.getAttr? id :=
  funext (same.getAttr? id)

theorem Heap.SameRecords.notUserEqual {h h₁ : Heap} {id : RecordId} (same : h.SameRecords h₁)
    (notUser : NotUserEqual h id)
    : NotUserEqual h₁ id := by
  intro method found
  rw [same.methodOf?] at found
  exact notUser method found

-----------------------------------------------------------------------------------------
-- Kinds of values
-----------------------------------------------------------------------------------------

/-- The kinds of values that are concerned with one another when they are compared. -/
inductive Value.Kind where
  | none
  | number
  | text
  | tuple
  | record
  | type
  | notApplicable
  deriving DecidableEq

/-- The kind of a value. Truth values, integers and floats are numbers. -/
def Value.kind : Value → Kind
  | .none => .none
  | .bool _ | .int _ | .float _ => .number
  | .str _ _ => .text
  | .tuple _ _ => .tuple
  | .record _ => .record
  | .type _ => .type
  | .notApplicable => .notApplicable

theorem Value.exists_number {a : Value} (isNumber : a.kind = .number)
    : ∃ x, Numeric.ofValue? a = some x := by
  cases a with
  | bool | int | float => exact ⟨_, rfl⟩
  | _ => cases isNumber

theorem Value.exists_record {a : Value} (isRecord : a.kind = .record) : ∃ id, a = .record id := by
  cases a with
  | record id => exact ⟨id, rfl⟩
  | _ => cases isRecord

namespace Protocol

variable {a b : Value}

theorem compare_of_kind_ne_record {p : Protocol} (noRecord : a.kind ≠ .record)
    : p.compare a b = p.compareBuiltin a b := by
  cases a with
  | record id => exact absurd rfl noRecord
  | _ => rfl

theorem compareBuiltin_numbers (p : Protocol) {x y : Numeric}
    (numberA : Numeric.ofValue? a = some x) (numberB : Numeric.ofValue? b = some y)
    : p.compareBuiltin a b = return .ofBool (x.equals y) := by
  unfold compareBuiltin
  rw [numberA, numberB]

theorem compareBuiltin_texts (p : Protocol) (x y : Address) (s t : String)
    : p.compareBuiltin (.str x s) (.str y t) = return .ofBool (s == t) :=
  rfl

theorem compareBuiltin_types (p : Protocol) (s t : TypeRef)
    : p.compareBuiltin (.type s) (.type t) = return .ofBool (s == t) :=
  rfl

theorem compareBuiltin_tuples (p : Protocol) (x y : Address) (as bs : List Value)
    : p.compareBuiltin (.tuple x as) (.tuple y bs)
      = if as.length = bs.length then p.equalItems as bs >>= fun equal => return .ofBool equal
        else return .notEqual :=
  rfl

/-- Values of different kinds are not concerned with one another. -/
theorem compareBuiltin_of_kind_ne (p : Protocol) (differ : a.kind ≠ b.kind)
    : p.compareBuiltin a b = return .notApplicable := by
  cases a <;> cases b <;> first | rfl | exact absurd rfl differ

end Protocol

section Answers

variable [Natives] {h h' : Heap} {a b : Value}

/-- If the first value is concerned, it decides. -/
theorem equates_of_compares {equal : Bool} (compares : Compares h a b (.ok (.ofBool equal)) h')
    : Equates h a b (.ok equal) h' := by
  obtain ⟨n, given⟩ := compares
  refine ⟨n + 1, ?_⟩
  change ((Protocol.level n).equalsLayer a b).outcome h = _
  rw [Protocol.equalsLayer, Eval.outcome_bind_ok given]
  cases equal <;> rfl

end Answers

-----------------------------------------------------------------------------------------
-- Symmetric parts of equality
-----------------------------------------------------------------------------------------

theorem Value.isIdentical_comm (a b : Value) : a.isIdentical b = b.isIdentical a := by
  cases a <;> cases b <;> simp [isIdentical, Bool.beq_comm]

theorem Value.sharesAllocation_comm (a b : Value)
    : a.sharesAllocation b = b.sharesAllocation a := by
  cases a <;> cases b <;> simp [sharesAllocation, Bool.beq_comm]

theorem Binary64.equals_comm (x y : Binary64) : x.equals y = y.equals x := by
  simp only [equals, Bool.and_comm (!x.isNaN), Bool.and_comm x.isZero, Bool.beq_comm (a := x)]

theorem Numeric.equals_comm (x y : Numeric) : x.equals y = y.equals x := by
  cases x <;> cases y <;> simp [equals, Binary64.equals_comm, Bool.beq_comm]

namespace Protocol

variable {h : Heap} {p : Protocol}

/-- What equality of two values is, it is with the sides swapped; and it does not depend on when
the tuples that it compares have been made.
-/
structure Symmetric (h : Heap) (p : Protocol) : Prop where
  swaps : ∀ a b, (p.equals a b).Mirrors h (p.equals b a)
  tuples
    : ∀ x y x' y' as bs,
        p.equals (.tuple x as) (.tuple y bs) = p.equals (.tuple x' as) (.tuple y' bs)

/-- Items are compared with the same answer from both sides, by induction on them. -/
theorem Symmetric.equalItems (symmetric : p.Symmetric h) (as bs : List Value)
    : (p.equalItems as bs).Mirrors h (p.equalItems bs as) := by
  induction as generalizing bs with
  | nil =>
      cases bs with
      | nil => exact Eval.mirrors_pure h true
      | cons b bs => exact Eval.mirrors_pure h true
  | cons a as ih =>
      cases bs with
      | nil => exact Eval.mirrors_pure h true
      | cons b bs =>
          rw [Protocol.equalItems, Protocol.equalItems, b.sharesAllocation_comm a]
          split
          · exact ih bs
          · refine (symmetric.swaps a b).bind ?_
            intro equal
            split
            · exact ih bs
            · exact Eval.mirrors_pure h false

theorem Symmetric.compareBuiltin (symmetric : p.Symmetric h) (a b : Value)
    : (p.compareBuiltin a b).Mirrors h (p.compareBuiltin b a) := by
  by_cases kinds : a.kind = b.kind
  · cases a with
    | bool | int | float =>
        obtain ⟨y, number⟩ := Value.exists_number kinds.symm
        rw [compareBuiltin_numbers p rfl number, compareBuiltin_numbers p number rfl,
          y.equals_comm]
        exact Eval.mirrors_pure h _
    | str x s =>
        cases b with
        | str y t =>
            have swapped : (s == t) = (t == s) := Bool.beq_comm
            rw [compareBuiltin_texts, compareBuiltin_texts, swapped]
            exact Eval.mirrors_pure h _
        | _ => cases kinds
    | tuple x as =>
        cases b with
        | tuple y bs =>
            rw [compareBuiltin_tuples, compareBuiltin_tuples]
            by_cases lengths : as.length = bs.length
            · rw [if_pos lengths, if_pos lengths.symm]
              exact (symmetric.equalItems as bs).bind fun _ => Eval.mirrors_pure h _
            · rw [if_neg lengths, if_neg (Ne.symm lengths)]
              exact Eval.mirrors_pure h _
        | _ => cases kinds
    | record id =>
        cases b with
        | record other => exact Eval.mirrors_pure h _
        | _ => cases kinds
    | type ref =>
        cases b with
        | type other =>
            have swapped : (ref == other) = (other == ref) := Bool.beq_comm
            rw [compareBuiltin_types, compareBuiltin_types, swapped]
            exact Eval.mirrors_pure h _
        | _ => cases kinds
    | none =>
        cases b with
        | none => exact Eval.mirrors_pure h _
        | _ => cases kinds
    | notApplicable =>
        cases b with
        | notApplicable => exact Eval.mirrors_pure h _
        | _ => cases kinds
  · rw [compareBuiltin_of_kind_ne p kinds, compareBuiltin_of_kind_ne p (Ne.symm kinds)]
    exact Eval.mirrors_pure h _

-----------------------------------------------------------------------------------------
-- Records from both sides
-----------------------------------------------------------------------------------------

variable {id other : RecordId} {method : Method} {fields : List String}

/-- Without an equality behavior, a record is equal to itself and not concerned with others. -/
theorem outcome_compare_of_bare (bare : h.methodOf? id .equality = none) (p : Protocol)
    (right : Value)
    : (p.compare (.record id) right).outcome h
      = (.ok (if (Value.record id).isIdentical right then .equal else .notApplicable), h) := by
  rw [Protocol.compare, Eval.outcome_bind_ok (Eval.outcome_ask_of_eq bare)]
  rfl

/-- A value is not concerned with one of another kind. -/
theorem outcome_compare_of_kind_ne {left right : Value} (notUser : ∀ id, NotUserEqual h id)
    (differ : left.kind ≠ right.kind) (p : Protocol)
    : (p.compare left right).outcome h = (.ok .notApplicable, h) := by
  by_cases record : left.kind = .record
  · obtain ⟨id, rfl⟩ := Value.exists_record record
    cases found : h.methodOf? id .equality with
    | some method =>
        refine outcome_compare_of_otherType (notUser id) ?_ p
        intro same
        obtain ⟨other, rfl⟩ := isRecord_of_sameType found same
        exact differ rfl
    | none =>
        have apart : (Value.record id).isIdentical right = false := by
          cases right with
          | record other => exact absurd rfl differ
          | _ => rfl
        rw [outcome_compare_of_bare found, apart]
        rfl
  · rw [compare_of_kind_ne_record record, compareBuiltin_of_kind_ne p differ]
    rfl

/-- If comparing two records of one type does not fail, all fields are set on both. -/
theorem set_of_compare (synthesized : method.SynthesizedFor .equality fields)
    (found : h.methodOf? id .equality = some method)
    (sameType : h.typeRef (.record id) = h.typeRef (.record other)) {comparison : Comparison}
    {h' : Heap} (given : (p.compare (.record id) (.record other)).outcome h = (.ok comparison, h'))
    : ∃ as bs : List Value,
        fields.map (h.getAttr? id) = as.map some
        ∧ fields.map (h.getAttr? other) = bs.map some := by
  rw [outcome_compare synthesized found p (.record other), if_pos sameType, bind_assoc] at given
  obtain ⟨as, h₁, readA, given⟩ := Eval.outcome_bind_eq_ok_iff.mp given
  have setA := Eval.map_getAttr?_of_outcome readA
  rw [Eval.outcome_mapM_getAttr setA] at readA
  cases readA
  rw [Eval.outcome_bind_ok (Eval.outcome_newTuple as h), bind_assoc] at given
  obtain ⟨bs, h₁, readB, -⟩ := Eval.outcome_bind_eq_ok_iff.mp given
  have setB := Eval.map_getAttr?_of_outcome readB
  exact ⟨as, bs, setA, setB⟩

/-- What else has been made does not matter to the comparison of two records of one type. -/
theorem outcome_compare_of_sameRecords (synthesized : method.SynthesizedFor .equality fields)
    (found : h.methodOf? id .equality = some method)
    (sameType : h.typeRef (.record id) = h.typeRef (.record other)) {as bs : List Value}
    (setA : fields.map (h.getAttr? id) = as.map some)
    (setB : fields.map (h.getAttr? other) = bs.map some) {h₁ : Heap} (same : h.SameRecords h₁)
    (p : Protocol)
    : (p.compare (.record id) (.record other)).outcome h₁
      = (p.equals (.tuple (h₁.allocate 1).1 as) (.tuple ((h₁.allocated 1).allocate 1).1 bs)
          >>= fun equal => return Comparison.ofBool equal).outcome (h₁.allocated 2) := by
  rw [← same.getAttr?_eq] at setA setB
  rw [← same.methodOf?] at found
  rw [← same.typeRef, ← same.typeRef (.record other)] at sameType
  exact outcome_compare_of_set synthesized found sameType setA setB p

/-- Comparing two records of one type gives the same answer from both sides: for an answer, all
fields have to be set on both, and then their tuples are compared.
-/
theorem Symmetric.compare_synthesized (symmetric : p.Symmetric h)
    (synthesized : method.SynthesizedFor .equality fields)
    (found : h.methodOf? id .equality = some method)
    (foundOther : h.methodOf? other .equality = some method)
    (sameType : h.typeRef (.record id) = h.typeRef (.record other))
    : (p.compare (.record id) (.record other)).Mirrors h
        (p.compare (.record other) (.record id)) := by
  have compared {id other : RecordId} {as bs : List Value}
      (found : h.methodOf? id .equality = some method)
      (sameType : h.typeRef (.record id) = h.typeRef (.record other))
      (setA : fields.map (h.getAttr? id) = as.map some)
      (setB : fields.map (h.getAttr? other) = bs.map some) (x y : Address) (h₁ : Heap)
      (same : h.SameRecords h₁)
      : (p.compare (.record id) (.record other)).outcome h₁
        = (Eval.change (·.allocated 2) >>= fun _ =>
            p.equals (.tuple x as) (.tuple y bs) >>= fun equal =>
              return Comparison.ofBool equal).outcome h₁ := by
    rw [outcome_compare_of_sameRecords synthesized found sameType setA setB same p,
      symmetric.tuples _ _ x y]
    rfl
  intro h₁ comparison h₂ same given
  have foundThere : h₁.methodOf? id .equality = some method := by
    rw [same.methodOf?, found]
  have sameThere : h₁.typeRef (.record id) = h₁.typeRef (.record other) := by
    rw [same.typeRef, same.typeRef, sameType]
  obtain ⟨as, bs, setA, setB⟩ := set_of_compare synthesized foundThere sameThere given
  rw [same.getAttr?_eq] at setA setB
  have mirrors := (Eval.mirrors_allocate h 2).bind fun _ =>
    (symmetric.swaps (.tuple default as) (.tuple default bs)).bind fun equal =>
      Eval.mirrors_pure h (Comparison.ofBool equal)
  exact mirrors.congr (compared found sameType setA setB _ _)
    (compared foundOther sameType.symm setB setA _ _) h₁ comparison h₂ same given

/-- Records of one type are of it, or both are of none. -/
theorem typeOf?_of_typeRef (sameType : h.typeRef (.record id) = h.typeRef (.record other))
    : h.typeOf? other = h.typeOf? id := by
  cases isType : h.typeOf? id <;> cases isOther : h.typeOf? other <;>
    simp_all [Heap.typeRef]

/-- What a record says of another, the other says of it. -/
theorem Symmetric.compare_records (symmetric : p.Symmetric h)
    (notUser : ∀ id, NotUserEqual h id) (id other : RecordId)
    : (p.compare (.record id) (.record other)).Mirrors h
        (p.compare (.record other) (.record id)) := by
  by_cases sameType : h.typeRef (.record id) = h.typeRef (.record other)
  · have sameMethod : h.methodOf? other .equality = h.methodOf? id .equality := by
      simp only [Heap.methodOf?, typeOf?_of_typeRef sameType]
    cases found : h.methodOf? id .equality with
    | some method =>
        obtain ⟨fields, synthesized⟩ := notUser id method found
        exact symmetric.compare_synthesized synthesized found (sameMethod.trans found) sameType
    | none =>
        refine Eval.mirrors_of_outcomes
          (a := if (Value.record id).isIdentical (.record other) then .equal else .notApplicable)
          (fun h₁ same => ?_) (fun h₁ same => ?_)
        · rw [← same.methodOf?] at found
          exact outcome_compare_of_bare found p _
        · rw [← sameMethod, ← same.methodOf?] at found
          rw [Value.isIdentical_comm]
          exact outcome_compare_of_bare found p _
  · refine Eval.mirrors_of_outcomes (a := .notApplicable) (fun h₁ same => ?_) (fun h₁ same => ?_)
    · rw [← same.typeRef, ← same.typeRef (.record other)] at sameType
      exact outcome_compare_of_otherType (same.notUserEqual (notUser id)) (Ne.symm sameType) p
    · rw [← same.typeRef, ← same.typeRef (.record other)] at sameType
      exact outcome_compare_of_otherType (same.notUserEqual (notUser other)) sameType p

/-- What a value says of another, the other says of it. -/
theorem Symmetric.compare (symmetric : p.Symmetric h) (notUser : ∀ id, NotUserEqual h id)
    (a b : Value)
    : (p.compare a b).Mirrors h (p.compare b a) := by
  by_cases kinds : a.kind = b.kind
  · by_cases records : a.kind = .record
    · obtain ⟨id, rfl⟩ := Value.exists_record records
      obtain ⟨other, rfl⟩ := Value.exists_record (kinds ▸ records)
      exact symmetric.compare_records notUser id other
    · rw [compare_of_kind_ne_record records, compare_of_kind_ne_record (kinds ▸ records)]
      exact symmetric.compareBuiltin a b
  · refine Eval.mirrors_of_outcomes (a := .notApplicable) (fun h₁ same => ?_) (fun h₁ same => ?_)
    · exact outcome_compare_of_kind_ne (fun id => same.notUserEqual (notUser id)) kinds p
    · exact outcome_compare_of_kind_ne (fun id => same.notUserEqual (notUser id)) (Ne.symm kinds) p

/-- Whether two values are equal does not depend on the side from which it is asked. -/
theorem Symmetric.equalsLayer (symmetric : p.Symmetric h) (notUser : ∀ id, NotUserEqual h id)
    (a b : Value)
    : (p.equalsLayer a b).Mirrors h (p.equalsLayer b a) := by
  refine (symmetric.compare notUser a b).bind ?_
  intro comparison
  cases comparison with
  | equal => exact Eval.mirrors_pure h true
  | notEqual => exact Eval.mirrors_pure h false
  | notApplicable =>
      refine (symmetric.compare notUser b a).bind ?_
      intro reflected
      cases reflected with
      | equal => exact Eval.mirrors_pure h true
      | notEqual => exact Eval.mirrors_pure h false
      | notApplicable =>
          rw [b.isIdentical_comm a]
          exact Eval.mirrors_pure h _

/-- Tuples are equal if they are of one length and their items are equal. -/
theorem equalsLayer_tuples (p : Protocol) (x y : Address) (as bs : List Value)
    : p.equalsLayer (.tuple x as) (.tuple y bs)
      = if as.length = bs.length then p.equalItems as bs else return false := by
  split
  · next lengths => exact equalsLayer_tuple p x y lengths
  · next lengths =>
    have noRecord : (Value.tuple x as).kind ≠ .record := by simp [Value.kind]
    rw [Protocol.equalsLayer, compare_of_kind_ne_record noRecord, compareBuiltin_tuples,
      if_neg lengths]
    rfl

/-- Every level compares with the same answer from both sides, by induction on the levels. -/
theorem symmetric_level [Natives] (notUser : ∀ id, NotUserEqual h id) (n : Nat)
    : (level n).Symmetric h := by
  induction n with
  | zero => exact ⟨fun _ _ _ _ _ _ => nofun, fun _ _ _ _ _ _ => rfl⟩
  | succ n ih =>
      refine ⟨ih.equalsLayer notUser, ?_⟩
      intro x y x' y' as bs
      exact (equalsLayer_tuples _ x y as bs).trans (equalsLayer_tuples _ x' y' as bs).symm

end Protocol

/-- Equality is symmetric where users have not defined it: if it is told whether a value is equal to
another, then no record is changed by that, and from the other side, now or later, the same is told.
-/
theorem equates_symm [Natives] {h h' : Heap} {a b : Value} {r : Bool}
    (notUser : ∀ id, NotUserEqual h id) (equates : Equates h a b (.ok r) h')
    : h.SameRecords h' ∧ Tells h b a (.ok r) := by
  obtain ⟨n, given⟩ := equates
  obtain ⟨same, gives⟩ := (Protocol.symmetric_level notUser n).swaps a b h r h' (.refl h) given
  refine ⟨same, ?_⟩
  intro h₁ sameThere
  obtain ⟨h₂, after, isResult⟩ := gives h₁ sameThere
  exact ⟨h₂, after, n, isResult⟩

section ComparedRecords

open Natives

/-- Users have not defined equality of the compared records. -/
theorem notUserEqual_comparedRecords (id : RecordId) : NotUserEqual comparedRecords id := by
  obtain ⟨method, synthesized, own, inherited⟩ :=
    synthesizedFor_equippedTypes (by decide : ["self", "_0"].Nodup) (by decide) .equality
  intro method' found
  obtain ⟨type, isType, isMethod⟩ := Option.bind_eq_some_iff.mp found
  have few : type = ⟨0⟩ ∨ type = ⟨1⟩ := by
    obtain ⟨record, isRecord, rfl⟩ := Option.map_eq_some_iff.mp isType
    have member := Array.mem_of_getElem? isRecord
    simp only [comparedRecords, List.mem_toArray, List.mem_cons, List.not_mem_nil] at member
    rcases member with rfl | rfl | rfl | ⟨⟨⟩⟩
    · exact Or.inl rfl
    · exact Or.inl rfl
    · exact Or.inr rfl
  refine ⟨["self", "_0"], ?_⟩
  rcases few with rfl | rfl
  · cases own.symm.trans isMethod
    exact synthesized
  · cases inherited.symm.trans isMethod
    exact synthesized

/-- The first two of the compared records are told to be different. -/
theorem equates_comparedRecords
    : ∃ h', Equates comparedRecords (.record ⟨0⟩) (.record ⟨1⟩) (.ok false) h' := by
  obtain ⟨method, synthesized, own, -⟩ :=
    synthesizedFor_equippedTypes (by decide : ["self", "_0"].Nodup) (by decide) .equality
  have found : comparedRecords.methodOf? ⟨0⟩ .equality = some method := own
  have fieldsA : ["self", "_0"].map (comparedRecords.getAttr? ⟨0⟩)
      = [.none, .int 1].map some := by
    simp [comparedRecords, Heap.getAttr?, Std.HashMap.getElem_insert]
  have fieldsB : ["self", "_0"].map (comparedRecords.getAttr? ⟨1⟩)
      = [.none, .int 2].map some := by
    simp [comparedRecords, Heap.getAttr?, Std.HashMap.getElem_insert]
  have none : AreEqual comparedRecords .none .none :=
    Or.inr fun h₁ same => ⟨h₁, same, 1, rfl⟩
  have differ : Tells comparedRecords (.int 1) (.int 2) (.ok false) :=
    fun h₁ same => ⟨h₁, same, 1, rfl⟩
  have byFields : ComparesFields comparedRecords ⟨0⟩ ⟨1⟩ ["self", "_0"] :=
    comparesFields synthesized found rfl
  obtain ⟨h', -, compares⟩ := byFields.decided [.none] [.none]
    (.int 1) (.int 2) [] [] (.ok false) fieldsA fieldsB (.cons none .nil) rfl (by simp) differ
  exact ⟨h', equates_of_compares compares⟩

/-- Witness: records that differ in a field, and tuples of what is no number. -/
theorem equates_symm_comparedRecords
    : Tells comparedRecords (.record ⟨1⟩) (.record ⟨0⟩) (.ok false)
      ∧ Tells comparedRecords (.tuple ⟨1, 1⟩ [.float ⟨0x7ff8000000000000⟩])
          (.tuple ⟨1, 0⟩ [.float ⟨0x7ff8000000000000⟩]) (.ok false) := by
  obtain ⟨h', equates⟩ := equates_comparedRecords
  have noNumbers : Equates comparedRecords (.tuple ⟨1, 0⟩ [.float ⟨0x7ff8000000000000⟩])
      (.tuple ⟨1, 1⟩ [.float ⟨0x7ff8000000000000⟩]) (.ok false) comparedRecords := ⟨2, rfl⟩
  exact ⟨(equates_symm notUserEqual_comparedRecords equates).2,
    (equates_symm notUserEqual_comparedRecords noNumbers).2⟩

end ComparedRecords

end RecordSynth
