import RecordSynth.Proofs.Synthesis.Calls

/-! What calls add to a store. Requests add what is compiled for the first time, in whichever order
they come. Equipping a type asks for templates until one is an obstacle, so if it fails, what has
been compiled up to there is left in the store.
-/

namespace RecordSynth

namespace TemplateStore

variable {s : TemplateStore} {behavior : Behavior} {arity : Nat}

/-- The program of the artifact in the store. -/
def program? (s : TemplateStore) (behavior : Behavior) (arity : Nat) : Option Program :=
  (s.get? behavior arity).map Artifact.program

/-- The request puts an artifact into the store: there is none, and the template is of use. -/
def adds (s : TemplateStore) (r : Behavior × Nat) : Bool :=
  (s.get? r.1 r.2).isNone && (compile s.library r.1 r.2).toOption.isSome

theorem program?_of_absent (absent : s.get? behavior arity = none)
    : s.program? behavior arity = none := by
  rw [program?, absent, Option.map_none]

theorem programFor_eq (s : TemplateStore) (behavior : Behavior) (arity : Nat)
    : s.programFor behavior arity
      = (s.program? behavior arity).elim (compile s.library behavior arity) .ok := by
  rw [programFor, program?]
  cases s.get? behavior arity with
  | none => rfl
  | some artifact => rfl

-----------------------------------------------------------------------------------------
-- What requests add
-----------------------------------------------------------------------------------------

/-- A request leaves what it is answered with in the store, and everything else as it was. -/
theorem program?_request (s : TemplateStore) (behavior : Behavior) (arity : Nat)
    (behavior' : Behavior) (arity' : Nat)
    : (s.request behavior arity).2.program? behavior' arity'
      = if (behavior, arity) = (behavior', arity')
        then (s.programFor behavior' arity').toOption
        else s.program? behavior' arity' := by
  rcases request_cases s behavior arity
    with ⟨artifact, present, isResult⟩ | ⟨error, absent, fails, isResult⟩
      | ⟨program, absent, compiled, isResult⟩
  · rw [isResult]
    split
    · next same =>
      obtain ⟨rfl, rfl⟩ := Prod.mk.inj same
      rw [program?, present, programFor_of_present present]
      rfl
    · rfl
  · rw [isResult]
    split
    · next same =>
      obtain ⟨rfl, rfl⟩ := Prod.mk.inj same
      rw [program?_of_absent absent, programFor_of_absent absent, fails]
      rfl
    · rfl
  · rw [isResult, program?, get?_keep]
    split
    · next same =>
      obtain ⟨rfl, rfl⟩ := Prod.mk.inj same
      rw [programFor_of_absent absent, compiled]
      rfl
    · rfl

/-- What has been asked for is in the store if it is granted, and everything else is as it was, by
induction on the requests.
-/
theorem program?_requestAll (s : TemplateStore) (requests : List (Behavior × Nat))
    (behavior : Behavior) (arity : Nat)
    : (s.requestAll requests).program? behavior arity
      = if (behavior, arity) ∈ requests
        then (s.programFor behavior arity).toOption
        else s.program? behavior arity := by
  induction requests generalizing s with
  | nil => rfl
  | cons r rest ih =>
      refine (ih (s.request r.1 r.2).2).trans ?_
      rw [programFor_request, program?_request]
      by_cases later : (behavior, arity) ∈ rest
      · rw [if_pos later, if_pos (List.mem_cons_of_mem r later)]
      · rw [if_neg later]
        refine if_congr ?_ rfl rfl
        rw [List.mem_cons, or_iff_left later]
        exact eq_comm

/-- After an artifact is put in, its request adds nothing, and the others add what they added. -/
theorem adds_keep (s : TemplateStore) (behavior : Behavior) (arity : Nat) (program : Program)
    (r : Behavior × Nat)
    : (s.keep behavior arity program).2.adds r = (decide (r ≠ (behavior, arity)) && s.adds r) := by
  rw [adds, get?_keep]
  by_cases same : (behavior, arity) = r
  · subst same
    simp
  · rw [if_neg same, decide_eq_true (Ne.symm same), Bool.true_and]
    rfl

theorem adds_of_present {artifact : Artifact} (present : s.get? behavior arity = some artifact)
    : s.adds (behavior, arity) = false := by
  simp [adds, present]

theorem adds_of_error {error : TemplateError}
    (fails : compile s.library behavior arity = .error error)
    : s.adds (behavior, arity) = false := by
  simp [adds, fails, Except.toOption]

theorem adds_of_ok {program : Program} (absent : s.get? behavior arity = none)
    (compiled : compile s.library behavior arity = .ok program)
    : s.adds (behavior, arity) = true := by
  simp [adds, absent, compiled, Except.toOption]

/-- A template is compiled for each different request that adds an artifact, by induction on the
requests.
-/
theorem compilations_requestAll (s : TemplateStore) (requests : List (Behavior × Nat))
    : (s.requestAll requests).compilations
      = s.compilations + (requests.toFinset.filter (s.adds ·)).card := by
  induction requests generalizing s with
  | nil => rfl
  | cons r rest ih =>
      rw [requestAll, List.foldl_cons, List.toFinset_cons, Finset.filter_insert]
      refine (ih (s.request r.1 r.2).2).trans ?_
      rcases request_cases s r.1 r.2
        with ⟨artifact, present, isResult⟩ | ⟨error, _, fails, isResult⟩
          | ⟨program, absent, compiled, isResult⟩
      · rw [isResult, adds_of_present present, if_neg Bool.false_ne_true]
      · rw [isResult, adds_of_error fails, if_neg Bool.false_ne_true]
      -- What the request adds is added once, so it does not count for the rest.
      · have others : rest.toFinset.filter ((s.keep r.1 r.2 program).2.adds ·)
            = (rest.toFinset.filter (s.adds ·)).erase r := by
          ext r'
          simp [adds_keep]
          tauto
        rw [isResult, others, if_pos (adds_of_ok absent compiled)]
        have counted : (s.keep r.1 r.2 program).2.compilations = s.compilations + 1 := rfl
        rw [counted, Finset.card_insert_eq_ite]
        split
        · next member =>
          have positive := Finset.card_pos.mpr ⟨r, member⟩
          rw [Finset.card_erase_of_mem member]
          omega
        · next absent =>
          rw [Finset.erase_eq_of_notMem absent]
          omega

/-- Requests that add nothing leave the store as it is, by induction on them. -/
theorem requestAll_of_no_additions {requests : List (Behavior × Nat)}
    (none : ∀ r ∈ requests, s.adds r = false)
    : s.requestAll requests = s := by
  induction requests with
  | nil => rfl
  | cons r rest ih =>
      obtain ⟨first, others⟩ := List.forall_mem_cons.mp none
      have unchanged : (s.request r.1 r.2).2 = s := by
        rcases request_cases s r.1 r.2
          with ⟨_, _, isResult⟩ | ⟨_, _, _, isResult⟩ | ⟨program, absent, compiled, _⟩
        · rw [isResult]
        · rw [isResult]
        · rw [adds_of_ok absent compiled] at first
          cases first
      rw [requestAll, List.foldl_cons, unchanged]
      exact ih others

/-- Only requests that add nothing leave the store as it is, since additions are counted. -/
theorem requestAll_eq_self_iff {requests : List (Behavior × Nat)}
    : s.requestAll requests = s ↔ ∀ r ∈ requests, s.adds r = false := by
  refine ⟨?_, requestAll_of_no_additions⟩
  intro same r member
  have counted := s.compilations_requestAll requests
  rw [same, Nat.left_eq_add, Finset.card_eq_zero] at counted
  by_contra isNew
  have inFilter : r ∈ requests.toFinset.filter (s.adds ·) :=
    Finset.mem_filter.mpr ⟨List.mem_toFinset.mpr member, Bool.eq_true_of_not_eq_false isNew⟩
  rw [counted] at inFilter
  exact Finset.notMem_empty r inFilter

/-- What it makes of a store to ask for templates of different behaviors and one number of fields.
-/
theorem requestAll_of_nodup (s : TemplateStore) {tried : List Behavior} (distinct : tried.Nodup)
    (n : Nat)
    : let s' := s.requestAll (tried.map (·, n))
      (∀ b arity artifact, s.get? b arity = some artifact → s'.get? b arity = some artifact)
      ∧ (∀ b arity, s.get? b arity = none →
        s'.program? b arity
          = if b ∈ tried ∧ arity = n then (compile s.library b n).toOption else none)
      ∧ s'.compilations = s.compilations + (tried.filter fun b => s.adds (b, n)).length
      ∧ (s' = s ↔ ∀ b ∈ tried, s.adds (b, n) = false) := by
  intro s'
  refine ⟨?_, ?_, ?_, ?_⟩
  · intro b arity artifact present
    exact get?_requestAll_of_present present _
  · intro b arity absent
    have asked : (b, arity) ∈ tried.map (·, n) ↔ b ∈ tried ∧ arity = n := by
      simp [eq_comm]
    rw [program?_requestAll, if_congr asked rfl rfl, program?_of_absent absent,
      programFor_of_absent absent]
    split
    · next isAsked => rw [isAsked.2]
    · rfl
  · have pairs : (tried.map (·, n)).Nodup :=
      distinct.map fun _ _ same => congrArg Prod.fst same
    rw [compilations_requestAll, ← List.toFinset_filter,
      List.toFinset_card_of_nodup (pairs.filter _), List.filter_map, List.length_map]
    rfl
  · rw [requestAll_eq_self_iff, List.forall_mem_map]

end TemplateStore

namespace Synthesis

-----------------------------------------------------------------------------------------
-- What a type that cannot be equipped leaves behind
-----------------------------------------------------------------------------------------

variable {w : Workshop}

/-- Templates are asked for up to the first obstacle, by induction on the behaviors before it. -/
theorem asked_of_obstacle {s : TemplateStore} {typeName : String} {fields : List String}
    {clear : List Behavior} {blocked : Behavior} {error : SynthesisError}
    (free : ∀ b ∈ clear, obstacle? s typeName fields b = none)
    (isBlocked : obstacle? s typeName fields blocked = some error) (rest : List Behavior)
    : asked s typeName fields (clear ++ blocked :: rest) = clear ++ [blocked] := by
  induction clear with
  | nil => rw [List.nil_append, List.nil_append, asked, isBlocked]
  | cons b clear ih =>
      obtain ⟨first, others⟩ := List.forall_mem_cons.mp free
      rw [List.cons_append, asked, first, ih others, List.cons_append]

/-- What equipping adds to the store does not depend on whether it succeeds. -/
theorem store_equip (w : Workshop) (selection : Selection) (id : TypeId)
    : ((equip selection id).outcome w).2.store
      = w.store.requestAll (w.store.requestsOf (.equip w.types selection id)) :=
  w.store.after_eq_requestAll (.equip w.types selection id)

/-- The requests that equipping comes down to, in terms of the names of the type's fields. -/
theorem requestsOf_equip (w : Workshop) (selection : Selection) (id : TypeId)
    : w.store.requestsOf (.equip w.types selection id)
      = if maxFields < (w.fieldNames id).length then []
        else
          (asked w.store (w.types.name id) (w.fieldNames id)
            (wanted selection (w.types.get? id))).map (·, (w.fieldNames id).length) :=
  rfl

theorem nodup_wanted (selection : Selection) (ty : Option RecordType)
    : (wanted selection ty).Nodup :=
  ((by decide : Behavior.all.Nodup).filter _).filter _

/-- What a type that cannot be equipped leaves in the store. Templates have been tried for selected
behaviors up to the first obstacle, and for none if there are too many fields. The store keeps what
it had and has got what could be compiled of the templates that have been tried. So it is as it was
exactly if there was nothing new to compile.
-/
theorem store_of_equip_error {selection : Selection} {id : TypeId} {error : SynthesisError}
    (fails : ((equip selection id).outcome w).1 = .error error)
    : let s := w.store
      let s' := ((equip selection id).outcome w).2.store
      let n := (w.fieldNames id).length
      let obstacle := obstacle? s (w.types.name id) (w.fieldNames id)
      ∃ tried rest : List Behavior,
        (maxFields < n ∧ tried = []
          ∨ ∃ clear blocked,
            tried = clear ++ [blocked]
            ∧ wanted selection (w.types.get? id) = tried ++ rest
            ∧ (∀ b ∈ clear, obstacle b = none)
            ∧ obstacle blocked = some error)
        ∧ (∀ b arity artifact, s.get? b arity = some artifact → s'.get? b arity = some artifact)
        ∧ (∀ b arity, s.get? b arity = none →
          s'.program? b arity
            = if b ∈ tried ∧ arity = n then (TemplateStore.compile s.library b n).toOption
              else none)
        ∧ s'.compilations = s.compilations + (tried.filter fun b => s.adds (b, n)).length
        ∧ (s' = s ↔ ∀ b ∈ tried, s.adds (b, n) = false) := by
  intro s s' n obstacle
  rw [equip_error_iff, firstObstacle?] at fails
  split at fails
  · next many =>
    have unchanged : s' = s.requestAll ([].map (·, n)) :=
      congrArg (·.2.store) (equip_of_many selection many)
    refine ⟨[], [], Or.inl ⟨many, rfl⟩, ?_⟩
    rw [unchanged]
    exact s.requestAll_of_nodup List.nodup_nil n
  · next few =>
    obtain ⟨clear, blocked, rest, whole, isBlocked, free⟩ := List.findSome?_eq_some_iff.mp fails
    have whole' : wanted selection (w.types.get? id) = (clear ++ [blocked]) ++ rest := by
      rw [whole, List.append_assoc, List.singleton_append]
    have distinct := nodup_wanted selection (w.types.get? id)
    rw [whole'] at distinct
    have asks : s' = s.requestAll ((clear ++ [blocked]).map (·, n)) := by
      refine (store_equip w selection id).trans ?_
      rw [requestsOf_equip, if_neg few, whole]
      exact congrArg (fun tried => s.requestAll (tried.map (·, n)))
        (asked_of_obstacle free isBlocked rest)
    refine ⟨clear ++ [blocked], rest, Or.inr ⟨clear, blocked, rfl, whole', free, isBlocked⟩, ?_⟩
    rw [asks]
    exact s.requestAll_of_nodup distinct.of_append_left n

section Misfit

open Workshop

/-- A type of one field, over the library whose hashing is always for two. -/
def unequipped : Workshop :=
  (new misfit 0).after (.declareType "T" none [⟨"a", "int"⟩] [])

theorem fieldNames_unequipped : unequipped.fieldNames ⟨0⟩ = ["a"] := by
  let ty : RecordType := ⟨"T", none, Roster.ofList [⟨"a", "int"⟩], .all none, .none, none⟩
  have isType : unequipped.types.get? ⟨0⟩ = some ty := rfl
  rw [fieldNames_of_root isType rfl]
  simp [ty, Roster.ofList, Roster.keys_insert]

/-- Its construction has no obstacle, and its hashing has one. -/
theorem obstacle?_unequipped
    : obstacle? unequipped.store (unequipped.types.name ⟨0⟩) ["a"] .construct = none
      ∧ obstacle? unequipped.store (unequipped.types.name ⟨0⟩) ["a"] .hashing
        = some (.template (.arity .hashing 1 2)) := by
  have answer : unequipped.store.programFor = TemplateStore.compile misfit :=
    funext₂ (TemplateStore.programFor_empty misfit 0)
  refine ⟨obstacle?_misfit (by rw [answer]) (by decide), ?_⟩
  rw [obstacle?, List.length_singleton, answer, compile_misfit]

theorem wanted_unequipped
    : wanted (.ofList [.construct, .hashing]) (unequipped.types.get? ⟨0⟩)
      = [.construct] ++ .hashing :: [] :=
  rfl

theorem equip_unequipped
    : ((equip (.ofList [.construct, .hashing]) ⟨0⟩).outcome unequipped).1
      = .error (.template (.arity .hashing 1 2)) := by
  obtain ⟨clear, blocked⟩ := obstacle?_unequipped
  rw [equip_error_iff, firstObstacle?, fieldNames_unequipped, if_neg (by decide),
    wanted_unequipped]
  exact List.findSome?_eq_some_iff.mpr ⟨_, _, _, rfl, blocked, by simp [clear]⟩

theorem compile_construct_misfit
    : ∃ program, TemplateStore.compile misfit .construct 1 = .ok program := by
  have isStandard : misfit .construct 1 = Template.standard .construct 1 := rfl
  have compiled := TemplateStore.compile_standard .construct (by decide : 1 ≤ maxFields)
  rw [TemplateStore.compile, ← isStandard] at compiled
  exact ⟨_, compiled⟩

/-- Witness: a type of one field whose construction is compiled before its hashing turns out to be
of no use.
-/
theorem store_of_equip_error_unequipped
    : let call := (equip (.ofList [.construct, .hashing]) ⟨0⟩).outcome unequipped
      call.1 = .error (.template (.arity .hashing 1 2)) ∧ call.2.store ≠ unequipped.store := by
  intro call
  obtain ⟨tried, rest, isTried, -, -, -, unchanged⟩ := store_of_equip_error equip_unequipped
  rw [fieldNames_unequipped, wanted_unequipped] at isTried
  have first : Behavior.construct ∈ tried := by
    rcases isTried with ⟨many, -⟩ | ⟨clear, blocked, isTried, whole, -⟩
    · exact absurd many (by decide)
    · cases tried with
      | nil => simp at isTried
      | cons b others =>
          rw [List.cons_append] at whole
          obtain ⟨rfl, -⟩ := List.cons.inj whole
          exact List.mem_cons_self
  refine ⟨equip_unequipped, fun same => ?_⟩
  obtain ⟨program, compiled⟩ := compile_construct_misfit
  have isNew : unequipped.store.adds (.construct, 1) = true :=
    TemplateStore.adds_of_ok (TemplateStore.get?_empty misfit 0) compiled
  have nothing := unchanged.mp same .construct first
  rw [fieldNames_unequipped] at nothing
  cases isNew.symm.trans nothing

/-- Not every type that cannot be equipped leaves the store as it was: this one leaves the artifact
of its construction there.
-/
theorem not_store_of_equip_error
    : ¬∀ (w : Workshop) selection id error,
        ((equip selection id).outcome w).1 = .error error →
        (∀ behavior arity,
          ((equip selection id).outcome w).2.store.get? behavior arity
            = w.store.get? behavior arity)
        ∧ ((equip selection id).outcome w).2.store.compilations = w.store.compilations := by
  intro claim
  obtain ⟨same, -⟩ := claim unequipped (.ofList [.construct, .hashing]) ⟨0⟩ _ equip_unequipped
  obtain ⟨clear, blocked⟩ := obstacle?_unequipped
  obtain ⟨program, compiled⟩ := compile_construct_misfit
  have absent : unequipped.store.get? .construct 1 = none := TemplateStore.get?_empty misfit 0
  have left := unequipped.store.program?_requestAll [(.construct, 1), (.hashing, 1)] .construct 1
  have asks : ((equip (.ofList [.construct, .hashing]) ⟨0⟩).outcome unequipped).2.store
      = unequipped.store.requestAll [(.construct, 1), (.hashing, 1)] := by
    rw [store_equip, requestsOf_equip, fieldNames_unequipped, if_neg (by decide),
      wanted_unequipped, asked_of_obstacle (by simp [clear]) blocked]
    rfl
  rw [if_pos (by decide), ← asks, TemplateStore.program?, same, absent,
    TemplateStore.programFor_of_absent absent] at left
  rw [show unequipped.store.library = misfit from rfl, compiled] at left
  cases left

end Misfit

end Synthesis

end RecordSynth
