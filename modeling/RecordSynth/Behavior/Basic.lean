/-! Behaviors: what a record type can do with its instances, in the order in which they are
synthesized; and tables with one entry for each behavior.
-/

namespace RecordSynth

/-- A behavior of a record type. -/
inductive Behavior where
  | construct
  | display
  | equality
  | iteration
  | hashing
  deriving DecidableEq, Inhabited, Hashable

namespace Behavior

/-- Every behavior, in the order of synthesis. -/
def all : List Behavior :=
  [construct, display, equality, iteration, hashing]

/-- The name of the function that a template defines. -/
def methodName : Behavior → String
  | construct => "construct"
  | display => "display"
  | equality => "eq"
  | iteration => "iter"
  | hashing => "hash"

/-- Another name by which the behavior is known. -/
def secondName : Behavior → String
  | construct => "init"
  | display => "repr"
  | equality => "equality"
  | iteration => "iteration"
  | hashing => "hashing"

/-- The name of the behavior in inspected forms. -/
def label : Behavior → String
  | construct => "Construct"
  | display => "Display"
  | equality => "Equality"
  | iteration => "Iteration"
  | hashing => "Hashing"

/-- The behavior with a name, which is its method name or its second name. -/
def ofName? (name : String) : Option Behavior :=
  all.find? fun b => b.methodName == name || b.secondName == name

@[simp] theorem mem_all (b : Behavior) : b ∈ all := by
  cases b <;> decide

theorem ofName?_methodName (b : Behavior) : ofName? b.methodName = some b := by
  cases b <;> decide

end Behavior

/-- A table with an entry for each behavior. -/
structure PerBehavior (α : Type) where
  construct : α
  display : α
  equality : α
  iteration : α
  hashing : α
  deriving DecidableEq, Inhabited

namespace PerBehavior

variable {α : Type}

/-- The table with the same entry everywhere. -/
def all (a : α) : PerBehavior α :=
  ⟨a, a, a, a, a⟩

/-- The entry of a behavior. -/
def get (t : PerBehavior α) : Behavior → α
  | .construct => t.construct
  | .display => t.display
  | .equality => t.equality
  | .iteration => t.iteration
  | .hashing => t.hashing

/-- The table with another entry for one behavior. -/
def set (t : PerBehavior α) (b : Behavior) (a : α) : PerBehavior α :=
  match b with
  | .construct => { t with construct := a }
  | .display => { t with display := a }
  | .equality => { t with equality := a }
  | .iteration => { t with iteration := a }
  | .hashing => { t with hashing := a }

@[simp] theorem get_all (a : α) (b : Behavior) : (all a).get b = a := by
  cases b <;> rfl

theorem get_set (t : PerBehavior α) (b c : Behavior) (a : α)
    : (t.set b a).get c = if b = c then a else t.get c := by
  cases b <;> cases c <;> rfl

@[simp] theorem get_set_self (t : PerBehavior α) (b : Behavior) (a : α)
    : (t.set b a).get b = a := by
  simp [get_set]

theorem ext_get {s t : PerBehavior α} (h : ∀ b, s.get b = t.get b) : s = t := by
  have construct := h .construct
  have display := h .display
  have equality := h .equality
  have iteration := h .iteration
  have hashing := h .hashing
  cases s
  cases t
  simp_all [get]

end PerBehavior

end RecordSynth
