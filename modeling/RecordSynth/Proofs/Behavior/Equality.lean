import RecordSynth.Proofs.Eval.Levels
import RecordSynth.Proofs.Synthesis.Installation
import RecordSynth.Proofs.Template.Evaluation

/-! Synthesized equality. It compares records of one type field by field, and says of any other
value that it is not concerned, before it reads a field.
-/

namespace RecordSynth

-----------------------------------------------------------------------------------------
-- What the template compares
-----------------------------------------------------------------------------------------

namespace Template

open Source

/-- Equality compares the types first, and only if they are the same the tuples of the fields. -/
theorem evaluate_equality (fields : List String) (p : Protocol) (pool : String → Address)
    (left right : Value)
    : (tree .equality fields).evaluate p pool #[left, right]
      = (do
          let mine ← Eval.ask (·.typeRef left)
          let theirs ← Eval.ask (·.typeRef right)
          if mine = theirs then
            let a ← fields.mapM (Eval.getAttr left) >>= Eval.newTuple
            let b ← fields.mapM (Eval.getAttr right) >>= Eval.newTuple
            return .bool (← p.equals a b)
          else return .notApplicable) := by
  have self : ((tree .equality fields).scope p pool #[left, right]).bindings.lookup "self"
      = some left := rfl
  have other : ((tree .equality fields).scope p pool #[left, right]).bindings.lookup "other"
      = some right := rfl
  have typeOf {name : String} {value : Value}
      (bound : ((tree .equality fields).scope p pool #[left, right]).bindings.lookup name
        = some value)
      : (callTo "type" [named name]).evaluate ((tree .equality fields).scope p pool #[left, right])
        = Eval.ask (·.typeRef value) >>= fun ref => return .type ref := by
    refine (evaluate_builtin .type (named name)).trans ?_
    rw [evaluate_named bound, pure_bind]
    rfl
  have finish (yielded : List Value) (value : Value)
      : ((tree .equality fields).scope p pool #[left, right]).finish yielded value
        = return value := rfl
  have body : (tree .equality fields).body = body .equality fields := rfl
  unfold Definition.evaluate
  simp only [body, Template.body, Stmt.executeAll, Stmt.execute, Expr.evaluate, finish,
    typeOf self, typeOf other, evaluate_tupleOf self, evaluate_tupleOf other, bind_assoc,
    pure_bind, Scope.holds]
  refine bind_congr ?_
  intro mine
  refine bind_congr ?_
  intro theirs
  by_cases same : mine = theirs
  · simp only [same, decide_true, Value.isTruthy, if_true, bind_assoc, pure_bind]
    rfl
  · simp [same, identityOf, Value.isTruthy]
    rfl

end Template

-----------------------------------------------------------------------------------------
-- Records that are compared
-----------------------------------------------------------------------------------------

section Records

variable {h : Heap} {method : Method} {fields : List String} {id other : RecordId}

/-- A record with synthesized equality is compared as the template says. -/
theorem Protocol.outcome_compare (synthesized : method.SynthesizedFor .equality fields)
    (found : h.methodOf? id .equality = some method) (p : Protocol) (right : Value)
    : (p.compare (.record id) right).outcome h
      = if h.typeRef (.record id) = h.typeRef right then
          (do
            let a ← fields.mapM (Eval.getAttr (.record id)) >>= Eval.newTuple
            let b ← fields.mapM (Eval.getAttr right) >>= Eval.newTuple
            return Comparison.ofBool (← p.equals a b) : Eval Comparison).outcome h
        else (.ok .notApplicable, h) := by
  obtain ⟨pool, called⟩ :=
    synthesized.call_eq nofun p (by rfl : (#[Value.record id, right]).size = 2)
  rw [Protocol.compare, Eval.outcome_bind_ok (Eval.outcome_ask_of_eq found)]
  dsimp only
  rw [called, Template.evaluate_equality, bind_assoc,
    Eval.outcome_bind_ok (Eval.outcome_ask_of_eq rfl), bind_assoc,
    Eval.outcome_bind_ok (Eval.outcome_ask_of_eq rfl)]
  split
  · simp only [bind_assoc, pure_bind]
    rfl
  · rfl

theorem outcome_tuple {values : List Value} (set : fields.map (h.getAttr? id) = values.map some)
    : (fields.mapM (Eval.getAttr (.record id)) >>= Eval.newTuple).outcome h
      = (.ok (.tuple (h.allocate 1).1 values), h.allocated 1) := by
  rw [Eval.outcome_bind_ok (Eval.outcome_mapM_getAttr set), Eval.outcome_newTuple]

/-- Set fields of two records of one type are made into tuples, and these are compared. -/
theorem outcome_compare_of_set (synthesized : method.SynthesizedFor .equality fields)
    (found : h.methodOf? id .equality = some method)
    (same : h.typeRef (.record id) = h.typeRef (.record other)) {as bs : List Value}
    (setA : fields.map (h.getAttr? id) = as.map some)
    (setB : fields.map (h.getAttr? other) = bs.map some) (p : Protocol)
    : (p.compare (.record id) (.record other)).outcome h
      = (p.equals (.tuple (h.allocate 1).1 as) (.tuple ((h.allocated 1).allocate 1).1 bs)
          >>= fun equal => return Comparison.ofBool equal).outcome (h.allocated 2) := by
  have setB' : fields.map ((h.allocated 1).getAttr? other) = bs.map some := setB
  rw [Protocol.outcome_compare synthesized found p (.record other), if_pos same,
    Eval.outcome_bind_ok (outcome_tuple setA), Eval.outcome_bind_ok (outcome_tuple setB'),
    Heap.allocated_allocated]

theorem length_eq_of_set {as bs : List Value} (setA : fields.map (h.getAttr? id) = as.map some)
    (setB : fields.map (h.getAttr? other) = bs.map some)
    : as.length = bs.length := by
  have lengthA := congrArg List.length setA
  have lengthB := congrArg List.length setB
  simp only [List.length_map] at lengthA lengthB
  omega

/-- The equality behavior of a record, if it has one, has been synthesized. -/
def NotUserEqual (h : Heap) (id : RecordId) : Prop :=
  ∀ method, h.methodOf? id .equality = some method →
    ∃ fields, method.SynthesizedFor .equality fields

theorem isIdentical_of_otherType {right : Value}
    (different : h.typeRef right ≠ h.typeRef (.record id))
    : (Value.record id).isIdentical right = false := by
  cases right with
  | record other =>
      refine beq_false_of_ne ?_
      rintro rfl
      exact different rfl
  | _ => rfl

/-- A record is not concerned with a value of another type. -/
theorem outcome_compare_of_otherType {right : Value} (notUser : NotUserEqual h id)
    (different : h.typeRef right ≠ h.typeRef (.record id)) (p : Protocol)
    : (p.compare (.record id) right).outcome h = (.ok .notApplicable, h) := by
  cases found : h.methodOf? id .equality with
  | some method =>
      obtain ⟨fields, synthesized⟩ := notUser method found
      rw [Protocol.outcome_compare synthesized found p right, if_neg (Ne.symm different)]
  | none =>
      rw [Protocol.compare, Eval.outcome_bind_ok (Eval.outcome_ask_of_eq found)]
      dsimp only
      rw [isIdentical_of_otherType different]
      rfl

/-- A value of a record's type is a record. -/
theorem isRecord_of_sameType {behavior : Behavior} {right : Value}
    (found : h.methodOf? id behavior = some method)
    (same : h.typeRef right = h.typeRef (.record id))
    : ∃ other, right = .record other := by
  obtain ⟨type, isType, -⟩ := Option.bind_eq_some_iff.mp found
  have ref : h.typeRef (.record id) = .record type := by
    simp only [Heap.typeRef, isType]
  rw [ref] at same
  cases right with
  | record other => exact ⟨other, rfl⟩
  | _ => cases same

end Records

-----------------------------------------------------------------------------------------
-- Items that are compared
-----------------------------------------------------------------------------------------

namespace Protocol

/-- Tuples of one length are equal as their items are. -/
theorem equalsLayer_tuple (p : Protocol) (x y : Address) {as bs : List Value}
    (length : as.length = bs.length)
    : p.equalsLayer (.tuple x as) (.tuple y bs) = p.equalItems as bs := by
  have compared : p.compare (.tuple x as) (.tuple y bs)
      = p.equalItems as bs >>= fun equal => return .ofBool equal := by
    unfold compare compareBuiltin
    simp [Numeric.ofValue?, length]
  rw [equalsLayer, compared, bind_assoc]
  simp only [pure_bind]
  refine Eq.trans (bind_congr ?_) (bind_pure _)
  intro equal
  cases equal <;> rfl

theorem monotone_equalItems (as bs : List Value) : Monotone fun p => p.equalItems as bs :=
  fun _ _ refines => refines_equalItems refines as bs

end Protocol

section Comparisons

variable [Natives]

/-- The comparison of the first value with the second gives the outcome, or fails. -/
def Compares (h : Heap) (left right : Value) (result : Except EvalError Comparison) (h' : Heap)
    : Prop :=
  Settles (fun p => p.compare left right) h result h'

/-- The values are equal or not, or it fails to tell whether they are. -/
def Equates (h : Heap) (left right : Value) (result : Except EvalError Bool) (h' : Heap) : Prop :=
  Settles (fun p => p.equals left right) h result h'

/-- Items are compared in pairs, up to the first pair that is not equal or fails. Items that have
been made at once are equal without a question.
-/
inductive ItemsEqual
    : Heap → List Value → List Value → Except EvalError Bool → Heap → Prop
  | done (h : Heap) : ItemsEqual h [] [] (.ok true) h
  | shared {h h' : Heap} {a b : Value} {as bs : List Value} {result : Except EvalError Bool}
    (same : a.sharesAllocation b = true) (rest : ItemsEqual h as bs result h')
    : ItemsEqual h (a :: as) (b :: bs) result h'
  | equal {h h₁ h' : Heap} {a b : Value} {as bs : List Value} {result : Except EvalError Bool}
    (apart : a.sharesAllocation b = false) (equal : Equates h a b (.ok true) h₁)
    (rest : ItemsEqual h₁ as bs result h')
    : ItemsEqual h (a :: as) (b :: bs) result h'
  | different {h h' : Heap} {a b : Value} (apart : a.sharesAllocation b = false)
    (different : Equates h a b (.ok false) h') (as bs : List Value)
    : ItemsEqual h (a :: as) (b :: bs) (.ok false) h'
  | fails {h h' : Heap} {a b : Value} {e : EvalError} (apart : a.sharesAllocation b = false)
    (failed : Equates h a b (.error e) h') (as bs : List Value)
    : ItemsEqual h (a :: as) (b :: bs) (.error e) h'

/-- Comparing items settles as the rules say, by induction on the items. -/
theorem Protocol.settles_equalItems_iff [MonotoneNatives] {h h' : Heap} {as bs : List Value} 
    {result : Except EvalError Bool} (length : as.length = bs.length)
    : Settles (fun p => p.equalItems as bs) h result h' ↔ ItemsEqual h as bs result h' := by
  induction as generalizing h bs with
  | nil =>
      obtain rfl := List.length_eq_zero_iff.mp length.symm
      refine settles_pure.trans ⟨?_, ?_⟩
      · rintro ⟨rfl, rfl⟩
        exact .done _
      · rintro ⟨⟩
        exact ⟨rfl, rfl⟩
  | cons a as ih =>
      cases bs with
      | nil => cases length
      | cons b bs =>
          have tail {h : Heap} := @ih h bs (Nat.succ.inj length)
          cases shares : a.sharesAllocation b with
          | true =>
              simp only [equalItems, shares, if_true, tail]
              refine ⟨.shared shares, ?_⟩
              intro equal
              cases equal with
              | shared _ rest => exact rest
              | equal apart | different apart | fails apart =>
                  rw [shares] at apart
                  cases apart
          | false =>
              simp only [equalItems, shares, Bool.false_eq_true, if_false]
              refine (settles_bind (fun _ _ refines => refines.equals a b) ?_).trans ?_
              · intro equal
                cases equal with
                | true => exact monotone_equalItems as bs
                | false => exact monotone_const _
              · constructor
                · rintro (⟨equal, h₁, equates, rest⟩ | ⟨e, rfl, failed⟩)
                  · cases equal with
                    | true => exact .equal shares equates (tail.mp rest)
                    | false =>
                        obtain ⟨rfl, rfl⟩ := settles_pure.mp rest
                        exact .different shares equates as bs
                  · exact .fails shares failed as bs
                · intro equal
                  cases equal with
                  | shared same =>
                      rw [shares] at same
                      cases same
                  | equal _ equates rest => exact Or.inl ⟨true, _, equates, tail.mpr rest⟩
                  | different _ equates =>
                      exact Or.inl ⟨false, _, equates, settles_pure.mpr ⟨rfl, rfl⟩⟩
                  | fails _ failed => exact Or.inr ⟨_, rfl, failed⟩

-----------------------------------------------------------------------------------------
-- Comparisons that change no record
-----------------------------------------------------------------------------------------

/-- Whatever else has been made, equality of the values has this result, and no record is changed
by that.
-/
def Tells (h : Heap) (a b : Value) (result : Except EvalError Bool) : Prop :=
  ∀ h₁, h.SameRecords h₁ → ∃ h₂, h.SameRecords h₂ ∧ Equates h₁ a b result h₂

/-- The values have been made at once, or are equal. -/
def AreEqual (h : Heap) (a b : Value) : Prop :=
  a.sharesAllocation b = true ∨ Tells h a b (.ok true)

section Telling

variable {h h₁ : Heap} {as bs : List Value}

/-- What is behind equal items decides, by induction on the items. -/
theorem itemsEqual_behind {as' bs' : List Value} (equal : List.Forall₂ (AreEqual h) as as')
    (same : h.SameRecords h₁)
    : ∃ h₂,
        h.SameRecords h₂
        ∧ ∀ result h',
          ItemsEqual h₂ bs bs' result h' → ItemsEqual h₁ (as ++ bs) (as' ++ bs') result h' := by
  induction equal generalizing h₁ with
  | nil => exact ⟨h₁, same, fun _ _ rest => rest⟩
  | @cons a b _ _ first _ ih =>
      cases shares : a.sharesAllocation b with
      | true =>
          obtain ⟨h₂, after, behind⟩ := ih same
          exact ⟨h₂, after, fun _ _ rest => .shared shares (behind _ _ rest)⟩
      | false =>
          rcases first with shared | tells
          · rw [shares] at shared
            cases shared
          · obtain ⟨h₂, between, equates⟩ := tells h₁ same
            obtain ⟨h₃, after, behind⟩ := ih between
            exact ⟨h₃, after, fun _ _ rest => .equal shares equates (behind _ _ rest)⟩

end Telling

-----------------------------------------------------------------------------------------
-- Records of one type
-----------------------------------------------------------------------------------------

/-- The comparison of two records of one type by their fields. -/
structure ComparesFields (h : Heap) (id other : RecordId) (fields : List String) : Prop where
  /-- With all fields set on both, the records compare as the pairs of values in order do. -/
  byItems
    : ∀ as bs,
        fields.map (h.getAttr? id) = as.map some →
        fields.map (h.getAttr? other) = bs.map some →
        ∀ result h',
          Compares h (.record id) (.record other) result h'
          ↔ ∃ equal, ItemsEqual (h.allocated 2) as bs equal h' ∧ result = equal.map .ofBool
  /-- They are equal if all pairs are. -/
  equal
    : ∀ as bs,
        fields.map (h.getAttr? id) = as.map some →
        fields.map (h.getAttr? other) = bs.map some →
        List.Forall₂ (AreEqual h) as bs →
        ∃ h', h.SameRecords h' ∧ Compares h (.record id) (.record other) (.ok .equal) h'
  /-- Otherwise, the first pair that is not equal decides: it is different, or fails to tell. -/
  decided
    : ∀ as bs a b as' bs' result,
        fields.map (h.getAttr? id) = (as ++ a :: as').map some →
        fields.map (h.getAttr? other) = (bs ++ b :: bs').map some →
        List.Forall₂ (AreEqual h) as bs →
        a.sharesAllocation b = false →
        result ≠ .ok true →
        Tells h a b result →
        ∃ h',
          h.SameRecords h'
          ∧ Compares h (.record id) (.record other) (result.map .ofBool) h'
  /-- The first field that is missing on the first record is what comparing fails with. -/
  missing
    : ∀ before field after,
        fields = before ++ field :: after →
        (∀ name ∈ before, (h.getAttr? id name).isSome) →
        h.getAttr? id field = none →
        ∀ p : Protocol,
          (p.compare (.record id) (.record other)).outcome h
            = (.error (.error (.noAttribute (h.typeName (.record id)) field)), h)
  /-- If the first record has all fields, the first that is missing on the second one is. -/
  missingOther
    : ∀ before field after,
        fields = before ++ field :: after →
        (∀ name ∈ fields, (h.getAttr? id name).isSome) →
        (∀ name ∈ before, (h.getAttr? other name).isSome) →
        h.getAttr? other field = none →
        ∀ p : Protocol,
          (p.compare (.record id) (.record other)).outcome h
            = (.error (.error (.noAttribute (h.typeName (.record other)) field)), h.allocated 1)

section Comparing

variable {h h' : Heap} {method : Method} {fields : List String} {id other : RecordId}

/-- Set fields of two records of one type are compared as items. -/
theorem compares_iff [MonotoneNatives] (synthesized : method.SynthesizedFor .equality fields)
    (found : h.methodOf? id .equality = some method)
    (same : h.typeRef (.record id) = h.typeRef (.record other)) {as bs : List Value}
    (setA : fields.map (h.getAttr? id) = as.map some)
    (setB : fields.map (h.getAttr? other) = bs.map some)
    {result : Except EvalError Comparison}
    : Compares h (.record id) (.record other) result h'
      ↔ ∃ equal, ItemsEqual (h.allocated 2) as bs equal h' ∧ result = equal.map .ofBool := by
  have lengths := length_eq_of_set setA setB
  have items (equal : Except EvalError Bool)
      : Settles (fun p => p.equals (.tuple (h.allocate 1).1 as)
          (.tuple ((h.allocated 1).allocate 1).1 bs)) (h.allocated 2) equal h'
        ↔ ItemsEqual (h.allocated 2) as bs equal h' :=
    (settles_layer rfl fun p => p.equalsLayer_tuple _ _ lengths).trans
      (Protocol.settles_equalItems_iff lengths)
  simp only [← items, ← settles_map]
  exact exists_congr fun n => by
    rw [outcome_compare_of_set synthesized found same setA setB]

/-- Two records of one type that finds synthesized equality are compared by their fields. -/
theorem comparesFields [MonotoneNatives] (synthesized : method.SynthesizedFor .equality fields)
    (found : h.methodOf? id .equality = some method)
    (same : h.typeRef (.record id) = h.typeRef (.record other))
    : ComparesFields h id other fields := by
  have made : h.SameRecords (h.allocated 2) := .allocated h 2
  refine ⟨?_, ?_, ?_, ?_, ?_⟩
  · intro as bs setA setB result h'
    exact compares_iff synthesized found same setA setB
  · intro as bs setA setB equal
    obtain ⟨h', after, behind⟩ := itemsEqual_behind equal made
    have items := behind _ _ (.done h')
    rw [List.append_nil, List.append_nil] at items
    exact ⟨h', after, (compares_iff synthesized found same setA setB).mpr ⟨_, items, rfl⟩⟩
  · intro as bs a b as' bs' result setA setB equal apart undecided tells
    obtain ⟨h₁, between, behind⟩ := itemsEqual_behind equal made
    obtain ⟨h', after, equates⟩ := tells h₁ between
    have items : ItemsEqual h₁ (a :: as') (b :: bs') result h' := by
      cases result with
      | error e => exact .fails apart equates as' bs'
      | ok equal =>
          cases equal with
          | true => exact absurd rfl undecided
          | false => exact .different apart equates as' bs'
    exact ⟨h', after,
      (compares_iff synthesized found same setA setB).mpr ⟨_, behind _ _ items, rfl⟩⟩
  · rintro before field after rfl set missing p
    rw [Protocol.outcome_compare synthesized found p (.record other), if_pos same, bind_assoc]
    exact Eval.outcome_bind_error (Eval.outcome_mapM_getAttr_of_missing set missing) _
  · rintro before field after split setA set missing p
    obtain ⟨values, setA⟩ := Eval.exists_values setA
    rw [Protocol.outcome_compare synthesized found p (.record other), if_pos same,
      Eval.outcome_bind_ok (outcome_tuple setA), bind_assoc, split]
    exact Eval.outcome_bind_error
      (@Eval.outcome_mapM_getAttr_of_missing (h.allocated 1) other before after field set missing) _

-----------------------------------------------------------------------------------------
-- Records of different types
-----------------------------------------------------------------------------------------

/-- Records of different types are never equal: neither is concerned, and they are not identical. -/
theorem equates_iff_of_otherType (notUser : NotUserEqual h id) (notUserOther : NotUserEqual h other)
    (different : h.typeRef (.record other) ≠ h.typeRef (.record id))
    {result : Except EvalError Bool}
    : Equates h (.record id) (.record other) result h' ↔ result = .ok false ∧ h' = h := by
  have layers : Equates h (.record id) (.record other) result h'
      ↔ Settles (fun p => p.equalsLayer (.record id) (.record other)) h result h' :=
    settles_layer rfl fun _ => rfl
  have apart (p : Protocol)
      : (p.equalsLayer (.record id) (.record other)).outcome h
        = (pure false : Eval Bool).outcome h := by
    rw [Protocol.equalsLayer,
      Eval.outcome_bind_ok (outcome_compare_of_otherType notUser different p)]
    dsimp only
    rw [Eval.outcome_bind_ok (outcome_compare_of_otherType notUserOther (Ne.symm different) p)]
    dsimp only
    rw [isIdentical_of_otherType different]
  rw [layers, ← settles_pure]
  exact exists_congr fun n => by rw [apart]

/-- The comparison of a record whose type finds synthesized equality with any value. A value of
another type is not concerned, and no attribute is read, so none has to be set. A value of the same
type is a record, which is compared by its fields. Records of different types that users have not
defined equality for are not concerned with one another and never equal.
-/
theorem compare_of_synthesized [MonotoneNatives]
    (synthesized : method.SynthesizedFor .equality fields)
    (found : h.methodOf? id .equality = some method) (right : Value)
    : (h.typeRef right ≠ h.typeRef (.record id) →
        ∀ p : Protocol, (p.compare (.record id) right).outcome h = (.ok .notApplicable, h))
      ∧ (h.typeRef right = h.typeRef (.record id) →
        ∃ other, right = .record other ∧ ComparesFields h id other fields)
      ∧ ∀ other,
        right = .record other →
        h.typeRef right ≠ h.typeRef (.record id) →
        NotUserEqual h other →
        (∀ p : Protocol,
          (p.compare (.record other) (.record id)).outcome h = (.ok .notApplicable, h))
        ∧ ∀ result h',
          (Equates h (.record id) (.record other) result h' ↔ result = .ok false ∧ h' = h)
          ∧ (Equates h (.record other) (.record id) result h' ↔ result = .ok false ∧ h' = h) := by
  have notUser : NotUserEqual h id := by
    intro method' found'
    cases found.symm.trans found'
    exact ⟨fields, synthesized⟩
  refine ⟨outcome_compare_of_otherType notUser, ?_, ?_⟩
  · intro same
    obtain ⟨other, rfl⟩ := isRecord_of_sameType found same
    exact ⟨other, rfl, comparesFields synthesized found same.symm⟩
  · rintro other rfl different notUserOther
    refine ⟨outcome_compare_of_otherType notUserOther (Ne.symm different), ?_⟩
    intro result h'
    exact ⟨equates_iff_of_otherType notUser notUserOther different,
      equates_iff_of_otherType notUserOther notUser (Ne.symm different)⟩

end Comparing

end Comparisons

section ThreeRecords

open Natives

/-- Two records of one type that differ in a field, and one of a type that descends from it. -/
def comparedRecords : Heap where
  types := equippedTypes ["self", "_0"]
  records :=
    #[⟨⟨0⟩, (∅ : Std.HashMap String Value).insert "self" .none |>.insert "_0" (.int 1)⟩,
      ⟨⟨0⟩, (∅ : Std.HashMap String Value).insert "self" .none |>.insert "_0" (.int 2)⟩,
      ⟨⟨1⟩, ∅⟩]
  nextOffset := 0

/-- Witness: records that are equal up to their last field, and one of another type without fields.
-/
theorem compare_of_synthesized_three_records
    : (∃ h', Compares comparedRecords (.record ⟨0⟩) (.record ⟨0⟩) (.ok .equal) h')
      ∧ (∃ h', Compares comparedRecords (.record ⟨0⟩) (.record ⟨1⟩) (.ok .notEqual) h')
      ∧ Equates comparedRecords (.record ⟨0⟩) (.record ⟨2⟩) (.ok false) comparedRecords
      ∧ Equates comparedRecords (.record ⟨2⟩) (.record ⟨0⟩) (.ok false) comparedRecords := by
  obtain ⟨method, synthesized, own, inherited⟩ :=
    synthesizedFor_equippedTypes (by decide : ["self", "_0"].Nodup) (by decide) .equality
  have found : comparedRecords.methodOf? ⟨0⟩ .equality = some method := own
  have foundOther : comparedRecords.methodOf? ⟨2⟩ .equality = some method := inherited
  obtain ⟨-, itself, -⟩ := compare_of_synthesized synthesized found (.record ⟨0⟩)
  obtain ⟨-, sameType, -⟩ := compare_of_synthesized synthesized found (.record ⟨1⟩)
  obtain ⟨-, -, otherType⟩ := compare_of_synthesized synthesized found (.record ⟨2⟩)
  have fieldsA : ["self", "_0"].map (comparedRecords.getAttr? ⟨0⟩)
      = [.none, .int 1].map some := by
    simp [comparedRecords, Heap.getAttr?, Std.HashMap.getElem_insert]
  have fieldsB : ["self", "_0"].map (comparedRecords.getAttr? ⟨1⟩)
      = [.none, .int 2].map some := by
    simp [comparedRecords, Heap.getAttr?, Std.HashMap.getElem_insert]
  have none : AreEqual comparedRecords .none .none :=
    Or.inr fun h₁ same => ⟨h₁, same, 1, rfl⟩
  have one : AreEqual comparedRecords (.int 1) (.int 1) :=
    Or.inr fun h₁ same => ⟨h₁, same, 1, rfl⟩
  have differ : Tells comparedRecords (.int 1) (.int 2) (.ok false) :=
    fun h₁ same => ⟨h₁, same, 1, rfl⟩
  refine ⟨?_, ?_, ?_⟩
  · obtain ⟨_, ⟨⟩, compares⟩ := itself rfl
    obtain ⟨h', -, equal⟩ := compares.equal _ _ fieldsA fieldsA (.cons none (.cons one .nil))
    exact ⟨h', equal⟩
  · obtain ⟨_, ⟨⟩, compares⟩ := sameType rfl
    obtain ⟨h', -, decided⟩ := compares.decided [.none] [.none] (.int 1) (.int 2) [] [] (.ok false)
      fieldsA fieldsB (.cons none .nil) rfl (by simp) differ
    exact ⟨h', decided⟩
  · have different : comparedRecords.typeRef (.record ⟨2⟩)
        ≠ comparedRecords.typeRef (.record ⟨0⟩) := by
      simp [comparedRecords, Heap.typeRef, Heap.typeOf?]
    have notUser : NotUserEqual comparedRecords ⟨2⟩ := by
      intro method' found'
      cases foundOther.symm.trans found'
      exact ⟨_, synthesized⟩
    obtain ⟨-, apart⟩ := otherType ⟨2⟩ rfl different notUser
    exact ⟨(apart _ _).1.mpr ⟨rfl, rfl⟩, (apart _ _).2.mpr ⟨rfl, rfl⟩⟩

end ThreeRecords

end RecordSynth
