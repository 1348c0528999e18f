import RecordSynth.Eval.Record
import RecordSynth.Proofs.Behavior.CanonicalForm

/-! Quiet evaluations. They change no type and no record, whether they give a value or stop; what
they make is new. Each operation on values is quiet if it is quiet on what is inside these, and if
the calls that it makes are.
-/

namespace RecordSynth

-----------------------------------------------------------------------------------------
-- Evaluations that change no record
-----------------------------------------------------------------------------------------

namespace Eval

variable {α β : Type} {h h₁ h₂ : Heap} {limited : Prop} {v : Value} {name : String}

/-- On every heap with the types and records of `h`, the evaluation leaves these as they are. It
runs out of levels only if it is limited.
-/
def Quiet (h : Heap) (limited : Prop) (x : Eval α) : Prop :=
  ∀ h₁, h.SameRecords h₁ →
    h.SameRecords (x.outcome h₁).2 ∧ ((x.outcome h₁).1 = .error .exhausted → limited)

/-- The evaluation gives the value on some heap with the types and records of `h`. -/
def MayGive (h : Heap) (x : Eval α) (a : α) : Prop :=
  ∃ h₁ h₂, h.SameRecords h₁ ∧ x.outcome h₁ = (.ok a, h₂)

theorem quiet_pure (a : α) : (pure a : Eval α).Quiet h limited :=
  fun _ same => ⟨same, nofun⟩

theorem quiet_fail (e : EvalError) : (fail e : Eval α).Quiet h limited :=
  fun _ same => ⟨same, nofun⟩

theorem quiet_exhausted (isLimited : limited) : (throw .exhausted : Eval α).Quiet h limited :=
  fun _ same => ⟨same, fun _ => isLimited⟩

theorem quiet_ask (f : Heap → α) : (ask f).Quiet h limited :=
  fun _ same => ⟨same, nofun⟩

theorem quiet_newStr (text : String) : (newStr text).Quiet h limited :=
  fun h₁ same => ⟨same.trans (.allocated h₁ 1), nofun⟩

theorem quiet_newTuple (items : List Value) : (newTuple items).Quiet h limited :=
  fun h₁ same => ⟨same.trans (.allocated h₁ 1), nofun⟩

theorem quiet_allocated (count : Nat) : (change (·.allocated count)).Quiet h limited :=
  fun h₁ same => ⟨same.trans (.allocated h₁ count), nofun⟩

/-- Quiet evaluations one after the other are quiet. The second one may rely on what the first one
may give.
-/
theorem Quiet.bind {x : Eval α} {f : α → Eval β} (first : x.Quiet h limited)
    (second : ∀ a, x.MayGive h a → (f a).Quiet h limited)
    : (x >>= f).Quiet h limited := by
  intro h₁ same
  obtain ⟨kept, answered⟩ := first h₁ same
  rw [outcome_bind]
  rcases isResult : x.outcome h₁ with ⟨halt | a, h₂⟩
  · rw [isResult] at kept answered
    refine ⟨kept, ?_⟩
    rintro ⟨⟩
    exact answered rfl
  · rw [isResult] at kept
    exact second a ⟨h₁, h₂, same, isResult⟩ h₂ kept

/-- What is given after a quiet evaluation is given by what follows it. -/
theorem MayGive.of_bind {x : Eval α} {f : α → Eval β} {b : β} (first : x.Quiet h limited)
    (given : (x >>= f).MayGive h b)
    : ∃ a, x.MayGive h a ∧ (f a).MayGive h b := by
  obtain ⟨h₁, h₃, same, given⟩ := given
  obtain ⟨a, h₂, isFirst, isSecond⟩ := outcome_bind_eq_ok_iff.mp given
  have kept := (first h₁ same).1
  rw [isFirst] at kept
  exact ⟨a, ⟨h₁, h₂, same, isFirst⟩, h₂, h₃, kept, isSecond⟩

/-- What follows a function of types and records may rely on its value. -/
theorem Quiet.ask_bind {f : Heap → α} {g : α → Eval β}
    (steady : ∀ h₁, h.SameRecords h₁ → f h₁ = f h) (rest : (g (f h)).Quiet h limited)
    : (ask f >>= g).Quiet h limited := by
  refine (quiet_ask f).bind ?_
  rintro _ ⟨h₁, h₂, same, ⟨⟩⟩
  rwa [steady h₁ same]

theorem quiet_badReturn (behavior : Behavior) (receiver : Value) (expected : BuiltinType)
    (found : Value)
    : (badReturn behavior receiver expected found : Eval α).Quiet h limited := by
  refine (quiet_ask _).bind fun typeName _ => ?_
  exact (quiet_ask _).bind fun foundName _ => quiet_fail _

theorem quiet_getAttr (v : Value) (name : String) : (getAttr v name).Quiet h limited := by
  refine (quiet_ask _).bind ?_
  rintro (_ | value) -
  · exact (quiet_ask _).bind fun typeName _ => quiet_fail _
  · exact quiet_pure value

/-- An attribute that may be read is inside the value. -/
theorem inside_of_mayGive_getAttr {u : Value} (given : (getAttr v name).MayGive h u)
    : h.Inside u v := by
  obtain ⟨h₁, h₂, same, given⟩ := given
  cases v with
  | record id =>
      cases isAttr : h₁.getAttr? id name with
      | none =>
          rw [outcome_getAttr_of_none isAttr] at given
          cases given
      | some value =>
          rw [outcome_getAttr_of_some isAttr] at given
          cases given
          exact .attr ((same.getAttr? id name).symm.trans isAttr)
  | _ => cases given

end Eval

-----------------------------------------------------------------------------------------
-- Operations on values
-----------------------------------------------------------------------------------------

namespace Protocol

open Eval

variable {p : Protocol} {h : Heap} {limited : Prop} {v : Value}

theorem quiet_displayAll (done : List String) {items : List Value}
    (quiet : ∀ item ∈ items, (p.display item).Quiet h limited)
    : (p.displayAll done items).Quiet h limited := by
  induction items generalizing done with
  | nil => exact quiet_pure done.reverse
  | cons item rest ih =>
      obtain ⟨first, others⟩ := List.forall_mem_cons.mp quiet
      exact first.bind fun text _ => ih (text :: done) others

/-- Displaying is quiet if it is on what is inside, and the call of a display behavior is. -/
theorem quiet_displayLayer (inside : ∀ u, h.Inside u v → (p.display u).Quiet h limited)
    (called
      : ∀ id method, v = .record id → h.methodOf? id .display = some method →
          (method.call p #[v]).Quiet h limited)
    : (p.displayLayer v).Quiet h limited := by
  cases v with
  | bool b => cases b <;> exact quiet_pure _
  | tuple address items =>
      refine (quiet_displayAll [] ?_).bind fun texts _ => quiet_pure _
      exact fun item member => inside item (.item address member)
  | record id =>
      refine .ask_bind (fun h₁ same => same.methodOf? id .display) ?_
      cases found : h.methodOf? id .display with
      | none => exact (quiet_ask _).bind fun typeName _ => quiet_pure _
      | some method =>
          refine (called id method rfl found).bind fun result _ => ?_
          cases result with
          | str address text => exact quiet_pure text
          | _ => exact quiet_badReturn _ _ _ _
  | type ref => exact (quiet_ask _).bind fun typeName _ => quiet_pure _
  | _ => exact quiet_pure _

theorem quiet_equalItems {as bs : List Value}
    (quiet : ∀ a ∈ as, ∀ b ∈ bs, (p.equals a b).Quiet h limited)
    : (p.equalItems as bs).Quiet h limited := by
  induction as generalizing bs with
  | nil => exact quiet_pure true
  | cons a as ih =>
      cases bs with
      | nil => exact quiet_pure true
      | cons b bs =>
          have others := ih fun a member b member' =>
            quiet a (.tail _ member) b (.tail _ member')
          unfold equalItems
          split
          · exact others
          · refine (quiet a List.mem_cons_self b List.mem_cons_self).bind fun equal _ => ?_
            cases equal with
            | true => exact others
            | false => exact quiet_pure false

theorem quiet_compareBuiltin {left right : Value}
    (inside : ∀ u w, h.Inside u left → h.Inside w right → (p.equals u w).Quiet h limited)
    : (p.compareBuiltin left right).Quiet h limited := by
  unfold compareBuiltin
  split
  · exact quiet_pure _
  · split
    · exact quiet_pure _
    · split
      · refine (quiet_equalItems ?_).bind fun equal _ => quiet_pure _
        exact fun a member b member' => inside a b (.item _ member) (.item _ member')
      · exact quiet_pure _
    all_goals exact quiet_pure _

/-- Comparing is quiet if it is on what is inside, and the call of an equality behavior is. -/
theorem quiet_compare {left right : Value}
    (inside : ∀ u w, h.Inside u left → h.Inside w right → (p.equals u w).Quiet h limited)
    (called
      : ∀ id method, left = .record id → h.methodOf? id .equality = some method →
          (method.call p #[left, right]).Quiet h limited)
    : (p.compare left right).Quiet h limited := by
  cases left with
  | record id =>
      refine .ask_bind (fun h₁ same => same.methodOf? id .equality) ?_
      cases found : h.methodOf? id .equality with
      | none => exact quiet_pure _
      | some method => exact (called id method rfl found).bind fun result _ => quiet_pure _
  | _ => exact quiet_compareBuiltin inside

/-- Equality is quiet if both comparisons are. -/
theorem quiet_equalsLayer {left right : Value}
    (forward : (p.compare left right).Quiet h limited)
    (backward : (p.compare right left).Quiet h limited)
    : (p.equalsLayer left right).Quiet h limited := by
  refine forward.bind fun comparison _ => ?_
  cases comparison with
  | equal => exact quiet_pure true
  | notEqual => exact quiet_pure false
  | notApplicable =>
      refine backward.bind fun comparison _ => ?_
      cases comparison <;> exact quiet_pure _

theorem quiet_hashAll (state : WordHash) {items : List Value}
    (quiet : ∀ item ∈ items, (p.hash item).Quiet h limited)
    : (p.hashAll state items).Quiet h limited := by
  induction items generalizing state with
  | nil => exact quiet_pure state
  | cons item rest ih =>
      obtain ⟨first, others⟩ := List.forall_mem_cons.mp quiet
      exact first.bind fun word _ => ih (state.add word) others

/-- Hashing is quiet if it is on what is inside, and the call of a hashing behavior is. -/
theorem quiet_hashLayer (inside : ∀ u, h.Inside u v → (p.hash u).Quiet h limited)
    (called
      : ∀ id method, v = .record id → h.methodOf? id .hashing = some method →
          (method.call p #[v]).Quiet h limited)
    : (p.hashLayer v).Quiet h limited := by
  cases v with
  | tuple address items =>
      refine (quiet_hashAll _ ?_).bind fun state _ => quiet_pure _
      exact fun item member => inside item (.item address member)
  | record id =>
      refine .ask_bind (fun h₁ same => same.methodOf? id .hashing) ?_
      cases found : h.methodOf? id .hashing with
      | none => exact quiet_pure _
      | some method =>
          refine (called id method rfl found).bind fun result _ => ?_
          cases result with
          | int n => exact quiet_pure _
          | _ => exact quiet_badReturn _ _ _ _
  | _ => exact quiet_pure _

theorem quiet_newChars (done : List Value) (chars : List Char)
    : (newChars done chars).Quiet h limited := by
  induction chars generalizing done with
  | nil => exact quiet_pure done.reverse
  | cons c rest ih => exact (quiet_newStr c.toString).bind fun value _ => ih (value :: done)

/-- Going through a value is quiet if the call of an iteration behavior is. -/
theorem quiet_iterate
    (called
      : ∀ id method, v = .record id → h.methodOf? id .iteration = some method →
          (method.call p #[v]).Quiet h limited)
    : (p.iterate v).Quiet h limited := by
  cases v with
  | tuple address items => exact quiet_pure items
  | str address text => exact quiet_newChars [] text.toList
  | record id =>
      refine .ask_bind (fun h₁ same => same.methodOf? id .iteration) ?_
      cases found : h.methodOf? id .iteration with
      | none => exact (quiet_ask _).bind fun typeName _ => quiet_fail _
      | some method =>
          refine (called id method rfl found).bind fun result _ => ?_
          cases result with
          | tuple address items => exact quiet_pure items
          | _ => exact quiet_badReturn _ _ _ _
  | _ => exact (quiet_ask _).bind fun typeName _ => quiet_fail _

theorem quiet_attributes (v : Value) (done : List Value) (fields : List Field)
    : (attributes v done fields).Quiet h limited := by
  induction fields generalizing done with
  | nil => exact quiet_pure done.reverse
  | cons field rest ih =>
      exact (quiet_getAttr v field.name).bind fun value _ => ih (value :: done)

/-- Matching reads attributes, and calls nothing. -/
theorem quiet_matchPositional (v : Value) (type : TypeId) (count : Nat)
    : (matchPositional v type count).Quiet h limited := by
  cases v with
  | record id =>
      refine (quiet_ask _).bind fun isInstance _ => ?_
      split
      · refine (quiet_ask _).bind fun fields _ => ?_
        dsimp only
        split
        · exact (quiet_ask _).bind fun typeName _ => quiet_fail _
        · exact (quiet_attributes (.record id) [] _).bind fun values _ => quiet_pure _
      · exact quiet_pure none
  | _ => exact quiet_pure none

end Protocol

end RecordSynth
