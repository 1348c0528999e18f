import RecordSynth.Eval.Level
import RecordSynth.Proofs.Eval.Outcome

/-! More levels answer for more values and give the same answers. What an operation settles to
with as many levels as it takes is therefore one outcome, and the full protocol has it unless the
values are nested deeper than it goes.
-/

namespace RecordSynth

-----------------------------------------------------------------------------------------
-- Evaluations that know more
-----------------------------------------------------------------------------------------

namespace Eval

variable {α β : Type} {h h' : Heap}

/-- Where `x` is not exhausted, `y` has the same outcome. -/
def Refines (x y : Eval α) : Prop :=
  ∀ h, (x.outcome h).1 ≠ .error .exhausted → y.outcome h = x.outcome h

theorem Refines.refl (x : Eval α) : x.Refines x :=
  fun _ _ => rfl

theorem Refines.trans {x y z : Eval α} (first : x.Refines y) (second : y.Refines z)
    : x.Refines z := by
  intro h answered
  have same := first h answered
  rw [second h (same ▸ answered), same]

/-- An exhausted evaluation knows nothing. -/
theorem Refines.of_exhausted (y : Eval α) : (throw .exhausted : Eval α).Refines y :=
  fun _ answered => absurd rfl answered

theorem Refines.bind {x y : Eval α} {f g : α → Eval β} (head : x.Refines y)
    (rest : ∀ a, (f a).Refines (g a))
    : (x >>= f).Refines (y >>= g) := by
  intro h answered
  rw [outcome_bind] at answered
  rw [outcome_bind, outcome_bind]
  rcases given : x.outcome h with ⟨halt | a, h'⟩
  · rw [given] at answered
    have halted : (x.outcome h).1 ≠ .error .exhausted := by
      rw [given]
      rintro ⟨⟩
      exact answered rfl
    rw [head h halted, given]
  · rw [given] at answered
    have gave : (x.outcome h).1 ≠ .error .exhausted := by
      rw [given]
      exact nofun
    rw [head h gave, given]
    exact rest a h' answered

/-- The same evaluation may come before more that is known. -/
theorem Refines.after (x : Eval α) {f g : α → Eval β} (rest : ∀ a, (f a).Refines (g a))
    : (x >>= f).Refines (x >>= g) :=
  (Refines.refl x).bind rest

end Eval

-----------------------------------------------------------------------------------------
-- Protocols that know more
-----------------------------------------------------------------------------------------

/-- Where an operation of `p` is not exhausted, that of `q` has the same outcome. -/
structure Protocol.Refines (p q : Protocol) : Prop where
  display : ∀ value, (p.display value).Refines (q.display value)
  equals : ∀ left right, (p.equals left right).Refines (q.equals left right)
  hash : ∀ value, (p.hash value).Refines (q.hash value)
  native : ∀ operation args, (p.native operation args).Refines (q.native operation args)

/-- Evaluation over a protocol that knows more knows more. -/
def Monotone {α : Type} (x : Protocol → Eval α) : Prop :=
  ∀ ⦃p q : Protocol⦄, p.Refines q → (x p).Refines (x q)

section Operations

variable {p q : Protocol} (refines : p.Refines q)

include refines

namespace Machine

theorem refines_joinTexts (text : String) (values : List Value)
    : (joinTexts p text values).Refines (joinTexts q text values) := by
  induction values generalizing text with
  | nil => exact .refl _
  | cons value rest ih =>
      cases value with
      | str address part => exact ih (text ++ part)
      | _ => exact (refines.display _).bind (fun part => ih (text ++ part))

theorem refines_callBuiltin (function : Builtin) (arg : Value)
    : (callBuiltin p function arg).Refines (callBuiltin q function arg) := by
  cases function with
  | type => exact .refl _
  | typename => exact .refl _
  | repr => exact (refines.display arg).bind (fun _ => .refl _)
  | hash => exact (refines.hash arg).bind (fun _ => .refl _)

theorem refines_compare (op : Comparator) (left right : Value)
    : (compare p op left right).Refines (compare q op left right) := by
  cases op with
  | equal => exact refines.equals left right
  | notEqual => exact (refines.equals left right).bind (fun _ => .refl _)
  | same => exact .refl _

/-- Only three instructions ask the protocol. -/
theorem refines_step (a : Artifact) (args : Array Value) (frame : Frame) (instr : Instr)
    : (step p a args frame instr).Refines (step q a args frame instr) := by
  cases instr with
  | buildString count =>
      exact .after _ fun _ => .bind (refines_joinTexts refines "" _) (fun _ => .refl _)
  | callBuiltin function =>
      exact .after _ fun _ => .bind (refines_callBuiltin refines function _) (fun _ => .refl _)
  | compare op =>
      exact .after _ fun _ =>
        .after _ fun _ => .bind (refines_compare refines op _ _) (fun _ => .refl _)
  | _ => exact .refl _

/-- Runs of as many steps know more, by induction on the steps. -/
theorem refines_run (a : Artifact) (args : Array Value) (frame : Frame) (fuel : Nat)
    : (run p a args frame fuel).Refines (run q a args frame fuel) := by
  induction fuel generalizing frame with
  | zero => exact .refl _
  | succ fuel ih =>
      unfold run
      split
      · exact .refl _
      · next instr _ =>
        refine .bind (refines_step refines a args _ instr) ?_
        intro progress
        cases progress with
        | running frame => exact ih frame
        | done value => exact .refl _

theorem refines_call (a : Artifact) (args : Array Value)
    : (call p a args).Refines (call q a args) := by
  unfold call
  dsimp only
  split
  · exact refines_run refines a args _ _
  · exact .refl _

end Machine

theorem Method.refines_call (method : Method) (args : Array Value)
    : (method.call p args).Refines (method.call q args) := by
  cases method with
  | compiled artifact => exact Machine.refines_call refines artifact args
  | primitive operation => exact refines.native operation args

namespace Protocol

theorem refines_displayAll (done : List String) (values : List Value)
    : (p.displayAll done values).Refines (q.displayAll done values) := by
  induction values generalizing done with
  | nil => exact .refl _
  | cons value rest ih => exact (refines.display value).bind (fun text => ih (text :: done))

theorem refines_displayLayer (value : Value)
    : (p.displayLayer value).Refines (q.displayLayer value) := by
  cases value with
  | bool b => cases b <;> exact .refl _
  | tuple address items =>
      exact .bind (refines_displayAll refines [] items) (fun _ => .refl _)
  | record id =>
      refine .after _ ?_
      intro found
      cases found with
      | none => exact .refl _
      | some method => exact .bind (method.refines_call refines _) (fun _ => .refl _)
  | _ => exact .refl _

theorem refines_equalItems (left right : List Value)
    : (p.equalItems left right).Refines (q.equalItems left right) := by
  induction left generalizing right with
  | nil => exact .refl _
  | cons a as ih =>
      cases right with
      | nil => exact .refl _
      | cons b bs =>
          unfold equalItems
          split
          · exact ih bs
          · refine (refines.equals a b).bind ?_
            intro equal
            split
            · exact ih bs
            · exact .refl _

theorem refines_compareBuiltin (left right : Value)
    : (p.compareBuiltin left right).Refines (q.compareBuiltin left right) := by
  unfold compareBuiltin
  split
  · exact .refl _
  · split
    · exact .refl _
    · split
      · exact .bind (refines_equalItems refines _ _) (fun _ => .refl _)
      · exact .refl _
    all_goals exact .refl _

theorem refines_compare (left right : Value)
    : (p.compare left right).Refines (q.compare left right) := by
  cases left with
  | record id =>
      refine .after _ ?_
      intro found
      cases found with
      | none => exact .refl _
      | some method => exact .bind (method.refines_call refines _) (fun _ => .refl _)
  | _ => exact refines_compareBuiltin refines _ right

theorem refines_equalsLayer (left right : Value)
    : (p.equalsLayer left right).Refines (q.equalsLayer left right) := by
  refine (refines_compare refines left right).bind ?_
  intro comparison
  cases comparison with
  | equal => exact .refl _
  | notEqual => exact .refl _
  | notApplicable => exact .bind (refines_compare refines right left) (fun _ => .refl _)

theorem refines_hashAll (h : WordHash) (values : List Value)
    : (p.hashAll h values).Refines (q.hashAll h values) := by
  induction values generalizing h with
  | nil => exact .refl _
  | cons value rest ih => exact (refines.hash value).bind (fun word => ih (h.add word))

theorem refines_hashLayer (value : Value)
    : (p.hashLayer value).Refines (q.hashLayer value) := by
  cases value with
  | tuple address items => exact .bind (refines_hashAll refines _ items) (fun _ => .refl _)
  | record id =>
      refine .after _ ?_
      intro found
      cases found with
      | none => exact .refl _
      | some method => exact .bind (method.refines_call refines _) (fun _ => .refl _)
  | _ => exact .refl _

end Protocol

end Operations

-----------------------------------------------------------------------------------------
-- Native methods
-----------------------------------------------------------------------------------------

/-- The native methods go by what the operations of a protocol give. So they know more over a
protocol that knows more.
-/
class MonotoneNatives [Natives] : Prop where
  monotone_call : ∀ operation args, Monotone fun p => Natives.call operation p args

/-- Of the stock, only displaying and hashing ask the protocol. -/
theorem Primitive.monotone_stock (operation : Primitive) (args : Array Value)
    : Monotone fun p => operation.stock p args := by
  intro p q refines
  cases operation with
  | display index => exact .after _ fun _ => .bind (refines.display _) (fun _ => .refl _)
  | hash index => exact .after _ fun _ => .bind (refines.hash _) (fun _ => .refl _)
  | _ => exact .refl _

open Natives in
instance monotoneNatives_stock : MonotoneNatives where
  monotone_call := Primitive.monotone_stock

-----------------------------------------------------------------------------------------
-- Levels
-----------------------------------------------------------------------------------------

namespace Protocol

theorem Refines.refl (p : Protocol) : p.Refines p :=
  ⟨fun _ => .refl _, fun _ _ => .refl _, fun _ => .refl _, fun _ _ => .refl _⟩

theorem Refines.trans {p q r : Protocol} (first : p.Refines q) (second : q.Refines r)
    : p.Refines r :=
  ⟨fun value => (first.display value).trans (second.display value),
    fun left right => (first.equals left right).trans (second.equals left right),
    fun value => (first.hash value).trans (second.hash value),
    fun operation args => (first.native operation args).trans (second.native operation args)⟩

theorem exhausted_refines (q : Protocol) : exhausted.Refines q :=
  ⟨fun _ => .of_exhausted _, fun _ _ => .of_exhausted _, fun _ => .of_exhausted _,
    fun _ _ => .of_exhausted _⟩

variable [Natives] [MonotoneNatives]

/-- One more layer over a protocol that knows more knows more. -/
theorem Refines.layer {p q : Protocol} (refines : p.Refines q) : p.layer.Refines q.layer :=
  ⟨refines_displayLayer refines, refines_equalsLayer refines, refines_hashLayer refines,
    fun operation args => MonotoneNatives.monotone_call operation args refines⟩

/-- Another level knows more, by induction on the levels. -/
theorem level_refines_succ (n : Nat) : (level n).Refines (level (n + 1)) := by
  induction n with
  | zero => exact exhausted_refines _
  | succ n ih => exact ih.layer

theorem level_refines {m n : Nat} (le : m ≤ n) : (level m).Refines (level n) := by
  induction le with
  | refl => exact .refl _
  | step _ ih => exact ih.trans (level_refines_succ _)

end Protocol

-----------------------------------------------------------------------------------------
-- What evaluations settle to
-----------------------------------------------------------------------------------------

/-- With as many levels as it takes, the evaluation gives the value or the error, and leaves the
heap `h'`.
-/
def Settles [Natives] {α : Type} (x : Protocol → Eval α) (h : Heap) (result : Except EvalError α)
    (h' : Heap) : Prop :=
  ∃ n, (x (Protocol.level n)).outcome h = (result.mapError .error, h')

section Settling

variable {α β : Type} {x : Protocol → Eval α} {h h' : Heap} {result : Except EvalError α}

@[simp] theorem mapError_error (e : EvalError)
    : (Except.error e : Except EvalError α).mapError Halt.error = .error (.error e) :=
  rfl

@[simp] theorem mapError_ok (a : α)
    : (Except.ok a : Except EvalError α).mapError Halt.error = .ok a :=
  rfl

theorem mapError_ne_exhausted
    : (result.mapError Halt.error : Except Halt α) ≠ .error .exhausted := by
  cases result <;> simp

theorem mapError_injective : Function.Injective fun result : Except EvalError α =>
    (result.mapError Halt.error : Except Halt α) := by
  intro result result' same
  cases result with
  | error e =>
      cases result' with
      | error e' => exact congrArg Except.error (Halt.error.inj (Except.error.inj same))
      | ok b => cases same
  | ok a =>
      cases result' with
      | error e => cases same
      | ok b => exact congrArg Except.ok (Except.ok.inj same)

theorem monotone_const (x : Eval α) : Monotone fun _ => x :=
  fun _ _ _ => .refl x

theorem Monotone.bind {f : Protocol → α → Eval β} (head : Monotone x)
    (rest : ∀ a, Monotone fun p => f p a)
    : Monotone fun p => x p >>= f p :=
  fun _ _ refines => (head refines).bind fun a => rest a refines

section Levels

variable [Natives]

/-- What has settled stays so with more levels. -/
theorem Settles.eventually [MonotoneNatives] (settles : Settles x h result h')
    (monotone : Monotone x)
    : ∃ n, ∀ m, n ≤ m → (x (.level m)).outcome h = (result.mapError .error, h') := by
  obtain ⟨n, given⟩ := settles
  refine ⟨n, fun m le => ?_⟩
  rw [monotone (Protocol.level_refines le) h (given ▸ mapError_ne_exhausted), given]

/-- What an evaluation settles to is one outcome. -/
theorem Settles.unique [MonotoneNatives] {result' : Except EvalError α} {h'' : Heap}
    (first : Settles x h result h') (second : Settles x h result' h'') (monotone : Monotone x)
    : result = result' ∧ h' = h'' := by
  obtain ⟨m, isFirst⟩ := first.eventually monotone
  obtain ⟨n, isSecond⟩ := second.eventually monotone
  have same := (isFirst _ (Nat.le_max_left m n)).symm.trans (isSecond _ (Nat.le_max_right m n))
  obtain ⟨sameResult, sameHeap⟩ := Prod.mk.inj same
  exact ⟨mapError_injective sameResult, sameHeap⟩

theorem settles_const {x : Eval α}
    : Settles (fun _ => x) h result h' ↔ x.outcome h = (result.mapError .error, h') :=
  ⟨fun ⟨_, given⟩ => given, fun given => ⟨0, given⟩⟩

theorem settles_pure {a : α}
    : Settles (fun _ => (pure a : Eval α)) h result h' ↔ result = .ok a ∧ h' = h := by
  refine settles_const.trans ?_
  rw [Eval.outcome_pure, Prod.mk.injEq]
  refine and_congr ?_ eq_comm
  cases result with
  | error e => simp
  | ok b => simpa using eq_comm

/-- One evaluation after another settles as they do: with the levels of the one that takes more,
both have settled.
-/
theorem settles_bind [MonotoneNatives] {f : Protocol → α → Eval β} {result : Except EvalError β}
    (head : Monotone x) (rest : ∀ a, Monotone fun p => f p a)
    : Settles (fun p => x p >>= f p) h result h'
      ↔ (∃ a h₁, Settles x h (.ok a) h₁ ∧ Settles (fun p => f p a) h₁ result h')
        ∨ ∃ e, result = .error e ∧ Settles x h (.error e) h' := by
  constructor
  · rintro ⟨n, given⟩
    rw [Eval.outcome_bind] at given
    rcases isFirst : (x (.level n)).outcome h with ⟨halt | a, h₁⟩
    · rw [isFirst] at given
      cases result with
      | error e =>
          cases given
          exact Or.inr ⟨e, rfl, n, isFirst⟩
      | ok b => cases given
    · rw [isFirst] at given
      exact Or.inl ⟨a, h₁, ⟨n, isFirst⟩, n, given⟩
  · rintro (⟨a, h₁, first, second⟩ | ⟨e, rfl, first⟩)
    · obtain ⟨m, isFirst⟩ := first.eventually head
      obtain ⟨n, isSecond⟩ := second.eventually (rest a)
      refine ⟨max m n, ?_⟩
      rw [Eval.outcome_bind_ok (isFirst _ (Nat.le_max_left m n)),
        isSecond _ (Nat.le_max_right m n)]
    · obtain ⟨n, isFirst⟩ := first
      exact ⟨n, Eval.outcome_bind_error isFirst _⟩

/-- What comes first and asks no protocol may be carried out. -/
theorem settles_after {x : Eval α} {a : α} {h₁ : Heap} (given : x.outcome h = (.ok a, h₁))
    {f : Protocol → α → Eval β} {result : Except EvalError β}
    : Settles (fun p => x >>= f p) h result h' ↔ Settles (fun p => f p a) h₁ result h' :=
  exists_congr fun n => by rw [Eval.outcome_bind_ok given]

/-- What comes first and fails is the result. -/
theorem settles_after_error {x : Eval α} {e : EvalError} {h₁ : Heap}
    (given : x.outcome h = (.error (.error e), h₁)) {f : Protocol → α → Eval β}
    {result : Except EvalError β}
    : Settles (fun p => x >>= f p) h result h' ↔ result = .error e ∧ h' = h₁ := by
  unfold Settles
  simp only [Eval.outcome_bind_error given, exists_const, Prod.mk.injEq]
  refine and_congr ?_ eq_comm
  cases result with
  | error e' => simpa using eq_comm
  | ok b => simp

/-- What is made of the value at last is made of what the evaluation settles to. -/
theorem settles_map {f : α → β} {result : Except EvalError β}
    : Settles (fun p => x p >>= fun a => return f a) h result h'
      ↔ ∃ before, Settles x h before h' ∧ result = before.map f := by
  constructor
  · rintro ⟨n, given⟩
    rw [Eval.outcome_bind] at given
    rcases isFirst : (x (.level n)).outcome h with ⟨halt | a, h₁⟩
    · rw [isFirst] at given
      cases result with
      | error e =>
          cases given
          exact ⟨.error e, ⟨n, isFirst⟩, rfl⟩
      | ok b => cases given
    · rw [isFirst] at given
      cases result with
      | error e => cases given
      | ok b =>
          cases given
          exact ⟨.ok a, ⟨n, isFirst⟩, rfl⟩
  · rintro ⟨before, ⟨n, given⟩, rfl⟩
    refine ⟨n, ?_⟩
    cases before with
    | error e => exact Eval.outcome_bind_error given _
    | ok a => exact Eval.outcome_bind_ok given _

/-- An evaluation over one more level settles as it does over the levels themselves. -/
theorem settles_layer {y : Protocol → Eval α} (exhausted : x .exhausted = throw .exhausted)
    (layer : ∀ p : Protocol, x p.layer = y p)
    : Settles x h result h' ↔ Settles y h result h' := by
  constructor
  · rintro ⟨n, given⟩
    cases n with
    | zero =>
        rw [Protocol.level, exhausted] at given
        exact absurd (congrArg Prod.fst given).symm mapError_ne_exhausted
    | succ n =>
        rw [Protocol.level_succ, layer] at given
        exact ⟨n, given⟩
  · rintro ⟨n, given⟩
    exact ⟨n + 1, by rwa [Protocol.level_succ, layer]⟩

end Levels

end Settling

end RecordSynth
