import RecordSynth.Proofs.Behavior.Symmetry
import RecordSynth.Proofs.Number.Conversion

/-! Hashes, and hashes of equal numbers. Equality takes an integer for the nearest float, hashing
takes a float for the integer that it counts as. So an integer and a float that are equal have one
hash exactly if the integer comes back when it is converted to a float. Integers of up to 53 bits
do; longer ones may not. A record with synthesized hashing has the hash of the tuple of its fields.
-/

namespace RecordSynth

/-- Hashing the value gives the hash, or fails. -/
def Hashes [Natives] (h : Heap) (value : Value) (result : Except EvalError UInt64) (h' : Heap)
    : Prop :=
  Settles (fun p => p.hash value) h result h'

-----------------------------------------------------------------------------------------
-- Hashes of words
-----------------------------------------------------------------------------------------

/-- The rotation at the end of a hash is undone by rotating back. -/
theorem WordHash.rotate_finish (h : WordHash)
    : h.finish >>> 26 ||| h.finish <<< 38 = h.state := by
  refine UInt64.toBitVec_inj.mp ?_
  ext i inWord
  simp only [finish]
  simp
  grind

/-- The multiplier of a hash is odd, so it has an inverse. -/
theorem WordHash.multiplier_mul_inverse : multiplier * 0x781494a55daaed0d = 1 := by
  decide

/-- No two words have the same hash. -/
theorem Protocol.hashWord_inj {u v : UInt64} : hashWord u = hashWord v ↔ u = v := by
  refine ⟨?_, congrArg hashWord⟩
  intro same
  have states : (WordHash.initial.add u).state = (WordHash.initial.add v).state := by
    rw [← WordHash.rotate_finish (WordHash.initial.add u),
      ← WordHash.rotate_finish (WordHash.initial.add v)]
    unfold hashWord at same
    rw [same]
  have factors := congrArg (· * 0x781494a55daaed0d) states
  simpa [WordHash.add, WordHash.initial, UInt64.mul_assoc, WordHash.multiplier_mul_inverse]
    using factors

-----------------------------------------------------------------------------------------
-- Hashes of numbers
-----------------------------------------------------------------------------------------

namespace Numeric

/-- The word that stands for a number in hashes. -/
def word : Numeric → UInt64
  | int n => n.toUInt64
  | float x => Protocol.floatWord x

/-- An integer that is compared with a float comes back when it is converted to a float. -/
def ComesBack : Numeric → Numeric → Prop
  | int n, float _ => (Binary64.ofInt64 n).toInt64? = some n
  | float _, int n => (Binary64.ofInt64 n).toInt64? = some n
  | _, _ => True

instance (x y : Numeric) : Decidable (x.ComesBack y) :=
  match x, y with
  | int n, float _ => inferInstanceAs (Decidable ((Binary64.ofInt64 n).toInt64? = some n))
  | float _, int n => inferInstanceAs (Decidable ((Binary64.ofInt64 n).toInt64? = some n))
  | int _, int _ => inferInstanceAs (Decidable True)
  | float _, float _ => inferInstanceAs (Decidable True)

/-- Equal floats have one word, also zeros of different signs. -/
theorem floatWord_congr {x y : Binary64} (equal : x.equals y = true)
    : Protocol.floatWord x = Protocol.floatWord y := by
  unfold Protocol.floatWord
  rw [Binary64.toInt64?_congr equal]
  cases counts : y.toInt64? with
  | some n => rfl
  | none =>
      simp only [Binary64.equals, Bool.and_eq_true, Bool.or_eq_true, beq_iff_eq] at equal
      rcases equal.2 with rfl | ⟨-, zero⟩
      · rfl
      · rw [Binary64.toInt64?_of_isZero zero] at counts
        cases counts

/-- The float nearest to an integer has the word of the integer if that comes back. -/
theorem floatWord_ofInt64 (n : Int64)
    : Protocol.floatWord (Binary64.ofInt64 n) = n.toUInt64
      ↔ (Binary64.ofInt64 n).toInt64? = some n := by
  have injective {m n : Int64} (same : m.toUInt64 = n.toUInt64) : m = n := by
    cases m
    cases n
    simpa using same
  rw [Protocol.floatWord, Binary64.toInt64?_ofInt64, Option.some_inj]
  exact ⟨injective, congrArg Int64.toUInt64⟩

/-- Equal numbers have one word exactly if an integer among them that is compared with a float comes
back.
-/
theorem word_eq_iff {x y : Numeric} (equal : x.equals y = true)
    : x.word = y.word ↔ x.ComesBack y := by
  cases x with
  | int m =>
      cases y with
      | int n =>
          obtain rfl : m = n := beq_iff_eq.mp equal
          exact iff_true_intro rfl
      | float y =>
          rw [word, word, ← floatWord_congr equal, eq_comm]
          exact floatWord_ofInt64 m
  | float x =>
      cases y with
      | int n =>
          rw [word, word, ← floatWord_congr equal]
          exact floatWord_ofInt64 n
      | float y => exact iff_true_intro (floatWord_congr equal)

/-- Integers of up to 53 bits, and the power of two behind these, come back. -/
theorem comesBack_of_le {x y : Numeric}
    (small : ∀ n, x = .int n ∨ y = .int n → n.toInt.natAbs ≤ 9007199254740992)
    : x.ComesBack y := by
  cases x with
  | int m =>
      cases y with
      | int n => trivial
      | float y => exact Binary64.toInt64?_ofInt64_of_le (small m (.inl rfl))
  | float x =>
      cases y with
      | int n => exact Binary64.toInt64?_ofInt64_of_le (small n (.inr rfl))
      | float y => trivial

end Numeric

section Numbers

variable [Natives] {h h' : Heap} {a b : Value} {x y : Numeric}

theorem hashes_number_iff (number : Numeric.ofValue? a = some x)
    {result : Except EvalError UInt64}
    : Hashes h a result h' ↔ result = .ok (Protocol.hashWord x.word) ∧ h' = h := by
  rw [← settles_pure]
  refine settles_layer rfl ?_
  intro p
  cases a with
  | bool b =>
      cases number
      cases b <;> rfl
  | int n | float x =>
      cases number
      rfl
  | _ => cases number

theorem equates_numbers_iff (numberA : Numeric.ofValue? a = some x)
    (numberB : Numeric.ofValue? b = some y) {result : Except EvalError Bool}
    : Equates h a b result h' ↔ result = .ok (x.equals y) ∧ h' = h := by
  rw [← settles_pure]
  refine settles_layer rfl ?_
  intro p
  have noRecord : a.kind ≠ .record := by
    cases a with
    | record id => cases numberA
    | _ => nofun
  change p.equalsLayer a b = _
  rw [Protocol.equalsLayer, Protocol.compare_of_kind_ne_record noRecord,
    Protocol.compareBuiltin_numbers p numberA numberB, pure_bind]
  cases x.equals y <;> rfl

/-- Numbers that are equal are hashed, and the hashes are the same exactly if an integer among them
that is compared with a float comes back from its conversion. So they are the same if the integers
have up to 53 bits.
-/
theorem hashes_of_equal_numbers (numberA : Numeric.ofValue? a = some x)
    (numberB : Numeric.ofValue? b = some y) (equal : Equates h a b (.ok true) h')
    : ∃ u v,
        (∀ result h₁, Hashes h a result h₁ ↔ result = .ok u ∧ h₁ = h)
        ∧ (∀ result h₁, Hashes h b result h₁ ↔ result = .ok v ∧ h₁ = h)
        ∧ (u = v ↔ x.ComesBack y)
        ∧ ((∀ n, x = .int n ∨ y = .int n → n.toInt.natAbs ≤ 9007199254740992) → u = v) := by
  obtain ⟨isEqual, -⟩ := (equates_numbers_iff numberA numberB).mp equal
  have words := Numeric.word_eq_iff (Except.ok.inj isEqual).symm
  have same : Protocol.hashWord x.word = Protocol.hashWord y.word ↔ x.ComesBack y :=
    Protocol.hashWord_inj.trans words
  refine ⟨Protocol.hashWord x.word, Protocol.hashWord y.word, ?_, ?_, same, ?_⟩
  · exact fun _ _ => hashes_number_iff numberA
  · exact fun _ _ => hashes_number_iff numberB
  · exact fun small => same.mpr (Numeric.comesBack_of_le small)

end Numbers

section FixedNumbers

open Natives

/-- Witness: the truth value and the float that are one, and the greatest integer, which is rounded
to the power of two behind it but comes back.
-/
theorem hashes_of_equal_numbers_greatest
    : (∃ w,
        Hashes .empty (.bool true) (.ok w) .empty
        ∧ Hashes .empty (.float ⟨0x3ff0000000000000⟩) (.ok w) .empty)
      ∧ ∃ w,
        Hashes .empty (.int 9223372036854775807) (.ok w) .empty
        ∧ Hashes .empty (.float ⟨0x43e0000000000000⟩) (.ok w) .empty := by
  refine ⟨?_, ?_⟩
  · have equal : Equates .empty (.bool true) (.float ⟨0x3ff0000000000000⟩) (.ok true) .empty :=
      ⟨1, rfl⟩
    obtain ⟨u, v, hashA, hashB, -, small⟩ := hashes_of_equal_numbers rfl rfl equal
    have same : u = v := by
      refine small ?_
      rintro n (⟨⟨⟩⟩ | ⟨⟨⟩⟩)
      decide
    exact ⟨u, (hashA _ _).mpr ⟨rfl, rfl⟩, (hashB _ _).mpr ⟨congrArg _ same, rfl⟩⟩
  · have equal : Equates .empty (.int 9223372036854775807) (.float ⟨0x43e0000000000000⟩) (.ok true)
        .empty :=
      ⟨1, rfl⟩
    obtain ⟨u, v, hashA, hashB, same, -⟩ := hashes_of_equal_numbers rfl rfl equal
    have comesBack : u = v := same.mpr (by decide)
    exact ⟨u, (hashA _ _).mpr ⟨rfl, rfl⟩, (hashB _ _).mpr ⟨congrArg _ comesBack, rfl⟩⟩

/-- Counterexample: the integer behind two to the power 53 is equal to the float that is this power,
and is hashed differently.
-/
theorem not_hashes_of_equal_numbers
    : ¬ ∀ (h h' : Heap) (a b : Value),
        a.kind = .number → b.kind = .number → Equates h a b (.ok true) h' →
        ∃ w h₁ h₂, Hashes h a (.ok w) h₁ ∧ Hashes h b (.ok w) h₂ := by
  intro same
  have equal : Equates .empty (.int 9007199254740993) (.float ⟨0x4340000000000000⟩) (.ok true)
      .empty :=
    ⟨1, rfl⟩
  obtain ⟨w, h₁, h₂, hashA, hashB⟩ := same _ _ _ _ rfl rfl equal
  obtain ⟨isHashA, -⟩ := (hashes_number_iff rfl).mp hashA
  obtain ⟨isHashB, -⟩ := (hashes_number_iff rfl).mp hashB
  have words := Protocol.hashWord_inj.mp (Except.ok.inj (isHashA.symm.trans isHashB))
  exact absurd words (by decide)

end FixedNumbers

-----------------------------------------------------------------------------------------
-- Hashes of records
-----------------------------------------------------------------------------------------

namespace Template

open Source

/-- Hashing hashes the tuple of the fields. -/
theorem evaluate_hashing (fields : List String) (p : Protocol) (pool : String → Address)
    (record : Value)
    : (tree .hashing fields).evaluate p pool #[record]
      = fields.mapM (Eval.getAttr record) >>= Eval.newTuple >>= fun tuple => do
          return .int (← p.hash tuple).toInt64 := by
  have self : ((tree .hashing fields).scope p pool #[record]).bindings.lookup "self"
      = some record := rfl
  have hashed := @evaluate_builtin ((tree .hashing fields).scope p pool #[record]) .hash
    (tupleOf "self" fields)
  rw [evaluate_tupleOf self] at hashed
  exact (evaluate_of_giveBack rfl rfl p pool #[record]).trans hashed

end Template

namespace Protocol

variable {h : Heap} {method : Method} {fields : List String} {id : RecordId}

/-- A record with synthesized hashing has the hash of the tuple of its fields. -/
theorem outcome_hashLayer (synthesized : method.SynthesizedFor .hashing fields)
    (found : h.methodOf? id .hashing = some method) (p : Protocol)
    : (p.hashLayer (.record id)).outcome h
      = (fields.mapM (Eval.getAttr (.record id)) >>= Eval.newTuple >>= p.hash).outcome h := by
  obtain ⟨pool, called⟩ :=
    synthesized.call_eq nofun p (by rfl : (#[Value.record id]).size = 1)
  rw [hashLayer, Eval.outcome_bind_ok (Eval.outcome_ask_of_eq found)]
  dsimp only
  rw [called, Template.evaluate_hashing, bind_assoc]
  simp only [bind_assoc, pure_bind, UInt64.toUInt64_toInt64, bind_pure]

/-- Set fields are made into a tuple, and this is hashed. -/
theorem outcome_hashLayer_of_set (synthesized : method.SynthesizedFor .hashing fields)
    (found : h.methodOf? id .hashing = some method) {values : List Value}
    (set : fields.map (h.getAttr? id) = values.map some) (p : Protocol)
    : (p.hashLayer (.record id)).outcome h
      = (p.hash (.tuple (h.allocate 1).1 values)).outcome (h.allocated 1) := by
  rw [outcome_hashLayer synthesized found, Eval.outcome_bind_ok (outcome_tuple set)]

/-- Without a hashing behavior, a record has a hash of its own. -/
theorem outcome_hashLayer_of_bare (bare : h.methodOf? id .hashing = none) (p : Protocol)
    : (p.hashLayer (.record id)).outcome h = (.ok (hashWord (recordWord id)), h) := by
  rw [hashLayer, Eval.outcome_bind_ok (Eval.outcome_ask_of_eq bare)]
  rfl

end Protocol

section Records

variable [Natives] {h h' : Heap} {result : Except EvalError UInt64}

theorem hashes_iff (value : Value)
    : Hashes h value result h' ↔ Settles (fun p => p.hashLayer value) h result h' :=
  settles_layer rfl fun _ => rfl

/-- Where a tuple has been made does not matter to its hash. -/
theorem hashes_tuple_iff (address other : Address) (values : List Value)
    : Hashes h (.tuple address values) result h' ↔ Hashes h (.tuple other values) result h' :=
  (hashes_iff (.tuple address values)).trans (hashes_iff (.tuple other values)).symm

/-- A record with synthesized hashing has the hash of a tuple of the values of its fields that has
just been made.
-/
theorem hashes_record_iff {method : Method} {fields : List String} {id : RecordId}
    (synthesized : method.SynthesizedFor .hashing fields)
    (found : h.methodOf? id .hashing = some method) {values : List Value}
    (set : fields.map (h.getAttr? id) = values.map some) (address : Address)
    : Hashes h (.record id) result h'
      ↔ Hashes (h.allocated 1) (.tuple address values) result h' := by
  rw [hashes_iff, hashes_tuple_iff address (h.allocate 1).1]
  exact exists_congr fun n => by
    rw [Protocol.outcome_hashLayer_of_set synthesized found set]

end Records

end RecordSynth
