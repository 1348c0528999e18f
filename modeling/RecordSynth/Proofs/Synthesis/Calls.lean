import Mathlib.Data.Finset.Card
import RecordSynth.Proofs.Synthesis.Failure

/-! Calls on a store, in any order: templates are asked for or looked up, and types are equipped.
The store compiles what is asked for with success once, and then keeps it. What is refused changes
nothing and is refused from then on.
-/

namespace RecordSynth

/-- What a store is called for: a template is asked for, or looked up, or a type of some table is
equipped.
-/
inductive StoreCall where
  | request (behavior : Behavior) (arity : Nat)
  | get (behavior : Behavior) (arity : Nat)
  | equip (types : TypeTable) (selection : Selection) (id : TypeId)

namespace Synthesis

/-- The behaviors whose templates are asked for: up to the first that has an obstacle, with it. -/
def asked (s : TemplateStore) (typeName : String) (fields : List String)
    : List Behavior → List Behavior
  | [] => []
  | behavior :: rest =>
    match obstacle? s typeName fields behavior with
    | none => behavior :: asked s typeName fields rest
    | some _ => [behavior]

theorem asked_requestAll (s : TemplateStore) (requests : List (Behavior × Nat))
    (typeName : String) (fields : List String) (behaviors : List Behavior)
    : asked (s.requestAll requests) typeName fields behaviors
      = asked s typeName fields behaviors := by
  induction behaviors with
  | nil => rfl
  | cons behavior rest ih =>
      unfold asked
      rw [obstacle?_requestAll, ih]

/-- Making methods asks the store for templates, by induction on the behaviors. -/
theorem store_methodsFor (w : Workshop) (typeName : String) (fields : List String)
    (done : List (Behavior × Method)) (behaviors : List Behavior)
    : ((methodsFor typeName fields done behaviors).outcome w).2.store
      = w.store.requestAll
          ((asked w.store typeName fields behaviors).map (·, fields.length)) := by
  induction behaviors generalizing w done with
  | nil => rfl
  | cons behavior rest ih =>
      unfold methodsFor asked
      rw [outcome_bind]
      rcases methodFor_cases w typeName fields behavior
        with ⟨failed, isObstacle, isResult⟩ | ⟨method, clear, isResult⟩
      · rw [isResult, isObstacle]
        rfl
      · rw [isResult, clear]
        refine (ih _ _).trans ?_
        rw [asked_requestAll]
        rfl

end Synthesis

namespace TemplateStore

open Synthesis

variable {s : TemplateStore} {behavior : Behavior} {arity : Nat}

-----------------------------------------------------------------------------------------
-- Calls come down to requests
-----------------------------------------------------------------------------------------

/-- The store after a call. -/
def after (s : TemplateStore) : StoreCall → TemplateStore
  | .request behavior arity => (s.request behavior arity).2
  | .get _ _ => s
  | .equip types selection id => ((equip selection id).outcome ⟨types, s⟩).2.store

/-- The store after calls, in order. -/
def afterAll (s : TemplateStore) (calls : List StoreCall) : TemplateStore :=
  calls.foldl after s

/-- The requests that a call comes down to. -/
def requestsOf (s : TemplateStore) : StoreCall → List (Behavior × Nat)
  | .request behavior arity => [(behavior, arity)]
  | .get _ _ => []
  | .equip types selection id =>
    let fields := (types.fieldOrder id).toList.map Field.name
    if maxFields < fields.length then []
    else
      (asked s (types.name id) fields (wanted selection (types.get? id))).map (·, fields.length)

/-- The requests that calls come down to, in order. -/
def requestsOfAll (s : TemplateStore) : List StoreCall → List (Behavior × Nat)
  | [] => []
  | call :: rest => s.requestsOf call ++ (s.after call).requestsOfAll rest

theorem after_eq_requestAll (s : TemplateStore) (call : StoreCall)
    : s.after call = s.requestAll (s.requestsOf call) := by
  cases call with
  | request behavior arity => rfl
  | get behavior arity => rfl
  | equip types selection id =>
      rw [after, requestsOf, outcome_equip]
      dsimp only
      rw [List.length_map]
      split
      · rfl
      · have asks := store_methodsFor ⟨types, s⟩ (types.name id)
          ((types.fieldOrder id).toList.map Field.name) [] (wanted selection (types.get? id))
        rw [List.length_map] at asks
        rw [← asks]
        rcases (methodsFor _ _ [] _).outcome _ with ⟨_ | methods, w'⟩
        · rfl
        · rfl

/-- A store after calls is one after requests, by induction on the calls. -/
theorem afterAll_eq_requestAll (s : TemplateStore) (calls : List StoreCall)
    : s.afterAll calls = s.requestAll (s.requestsOfAll calls) := by
  induction calls generalizing s with
  | nil => rfl
  | cons call rest ih =>
      rw [requestsOfAll, requestAll_append, ← after_eq_requestAll]
      exact ih (s.after call)

-----------------------------------------------------------------------------------------
-- Every key is compiled once
-----------------------------------------------------------------------------------------

/-- The requests that are granted, of requests in order. -/
def granted (s : TemplateStore) : List (Behavior × Nat) → List (Behavior × Nat)
  | [] => []
  | r :: rest =>
    match s.request r.1 r.2 with
    | (.ok _, s') => r :: s'.granted rest
    | (.error _, s') => s'.granted rest

/-- What is granted depends on the answers only, not on what has been asked before. -/
theorem granted_eq_filter (s : TemplateStore) (requests : List (Behavior × Nat))
    : s.granted requests
      = requests.filter fun r => (s.programFor r.1 r.2).toOption.isSome := by
  induction requests generalizing s with
  | nil => rfl
  | cons r rest ih =>
      have answer := s.map_program_request r.1 r.2
      have same : (s.request r.1 r.2).2.programFor = s.programFor :=
        funext₂ (s.programFor_request r.1 r.2)
      rw [List.filter_cons, ← answer]
      unfold granted
      rcases isResult : s.request r.1 r.2 with ⟨error | artifact, s'⟩
      all_goals
        rw [isResult] at same
        dsimp only
        rw [ih, same]
        rfl

/-- The artifacts in the store are those for the keys, and there were as many compilations. -/
structure Counts (s : TemplateStore) (keys : Finset (Behavior × Nat)) : Prop where
  size : s.size = keys.card
  compilations : s.compilations = keys.card
  mem : ∀ behavior arity,
    (behavior, arity) ∈ keys ↔ ∃ artifact, s.get? behavior arity = some artifact

theorem counts_empty (library : TemplateLibrary) (region : Nat)
    : (empty library region).Counts ∅ :=
  ⟨Std.HashMap.size_empty, rfl, by simp⟩

/-- What is not in the store is compiled and counted when it is put in. -/
theorem Counts.keep {keys : Finset (Behavior × Nat)} (counts : s.Counts keys)
    (absent : s.get? behavior arity = none) (program : Program)
    : (s.keep behavior arity program).2.Counts (insert (behavior, arity) keys) := by
  have isNew : (behavior, arity) ∉ keys := by
    rw [counts.mem, absent]
    rintro ⟨_, ⟨⟩⟩
  refine ⟨?_, ?_, ?_⟩
  · have isPut : (s.keep behavior arity program).2.size = _ := size_put (s.make program).2 ..
    have stillAbsent : (s.make program).2.get? behavior arity = none := absent
    rw [Finset.card_insert_of_notMem isNew, ← counts.size, isPut, stillAbsent]
    rfl
  · rw [Finset.card_insert_of_notMem isNew, ← counts.compilations]
    rfl
  · intro behavior' arity'
    rw [Finset.mem_insert, counts.mem, get?_keep]
    split
    · next same => exact ⟨fun _ => ⟨_, rfl⟩, fun _ => Or.inl same.symm⟩
    · next other => exact or_iff_right fun same => other same.symm

/-- Requests count the keys that are granted, by induction on them. -/
theorem Counts.requestAll {keys : Finset (Behavior × Nat)} (counts : s.Counts keys)
    (requests : List (Behavior × Nat))
    : (s.requestAll requests).Counts (keys ∪ (s.granted requests).toFinset) := by
  induction requests generalizing s keys with
  | nil => simpa [granted, TemplateStore.requestAll] using counts
  | cons r rest ih =>
      rcases request_cases s r.1 r.2
        with ⟨artifact, present, isResult⟩ | ⟨error, _, _, isResult⟩
          | ⟨program, absent, _, isResult⟩
      all_goals
        rw [granted, isResult, requestAll, List.foldl_cons, isResult]
        dsimp only
      · rw [List.toFinset_cons, Finset.union_insert, ← Finset.insert_union,
          Finset.insert_eq_of_mem ((counts.mem r.1 r.2).mpr ⟨artifact, present⟩)]
        exact ih counts
      · exact ih counts
      · rw [List.toFinset_cons, Finset.union_insert, ← Finset.insert_union]
        exact ih (counts.keep absent program)

-----------------------------------------------------------------------------------------
-- What holds in the course of calls
-----------------------------------------------------------------------------------------

/-- What is refused leaves the store as it is, and is refused in the same way ever after. -/
theorem request_refused {error : TemplateError}
    (refused : (s.request behavior arity).1 = .error error)
    : s.request behavior arity = (.error error, s) := by
  rcases request_cases s behavior arity
    with ⟨_, _, isResult⟩ | ⟨_, _, _, isResult⟩ | ⟨_, _, _, isResult⟩
  all_goals
    rw [isResult] at refused ⊢
    cases refused
  rfl

/-- In the course of any calls on a new store, every artifact is what its template compiles to, with
as many fields as it is for. It stays what it is, and is given on request without being compiled.
There are as many artifacts, and were as many compilations, as keys have been asked for with
success. A request that is refused changes nothing, and is refused in the same way ever after.
-/
theorem afterAll_empty (library : TemplateLibrary) (region : Nat) (calls : List StoreCall)
    : let s := (empty library region).afterAll calls
      (∀ behavior arity artifact, s.get? behavior arity = some artifact →
        Program.ofText (library behavior arity) = .ok artifact.program
        ∧ artifact.program.arity = .ok arity
        ∧ s.request behavior arity = (.ok artifact, s)
        ∧ ∀ later, (s.afterAll later).get? behavior arity = some artifact)
      ∧ s.size = s.compilations
      ∧ s.compilations
        = ((empty library region).granted
            ((empty library region).requestsOfAll calls)).toFinset.card
      ∧ ∀ behavior arity error, (s.request behavior arity).1 = .error error →
        (s.request behavior arity).2 = s
        ∧ ∀ later,
          (s.afterAll later).request behavior arity = (.error error, s.afterAll later) := by
  intro s
  have isStore : s = (empty library region).requestAll _ := afterAll_eq_requestAll _ calls
  have counts := (counts_empty library region).requestAll
    ((empty library region).requestsOfAll calls)
  rw [Finset.empty_union, ← isStore] at counts
  refine ⟨?_, counts.size.trans counts.compilations.symm, counts.compilations, ?_⟩
  · intro behavior arity artifact present
    have compiled := ((faithful_empty library region).requestAll _) _ _ _ (isStore ▸ present)
    rw [library_requestAll] at compiled
    obtain ⟨compiled, names⟩ := compile_eq_ok_iff.mp compiled
    refine ⟨compiled, Program.arity_eq_ok_iff.mpr names, by rw [request, present], ?_⟩
    intro later
    rw [afterAll_eq_requestAll]
    exact get?_requestAll_of_present present _
  · intro behavior arity error refused
    refine ⟨by rw [request_refused refused], ?_⟩
    intro later
    refine request_refused ?_
    rw [request_fails_iff] at refused ⊢
    rwa [afterAll_eq_requestAll, programFor_requestAll]

/-- Witness: the hashing of the misfit library is refused for one field, and compiled once for two.
-/
theorem afterAll_empty_misfit
    : let s := (empty misfit 0).afterAll
        [.request .hashing 1, .request .hashing 2, .get .hashing 2, .request .hashing 2]
      s.size = 1 ∧ s.compilations = 1 ∧ (s.request .hashing 1).2 = s := by
  intro s
  obtain ⟨_, size, compilations, refused⟩ := afterAll_empty misfit 0
    [.request .hashing 1, .request .hashing 2, .get .hashing 2, .request .hashing 2]
  have two := compile_standard .hashing (by decide : 2 ≤ maxFields)
  have isTwo : compile misfit .hashing 2 = compile Template.standard .hashing 2 := rfl
  have once : s.compilations = 1 := by
    refine compilations.trans ?_
    rw [granted_eq_filter]
    simp [requestsOfAll, requestsOf, programFor_empty, compile_misfit, isTwo, two,
      Except.toOption]
  refine ⟨size.trans once, once, (refused .hashing 1 (.arity .hashing 1 2) ?_).1⟩
  rw [request_fails_iff, afterAll_eq_requestAll, programFor_requestAll, programFor_empty]
  exact compile_misfit

end TemplateStore

end RecordSynth
