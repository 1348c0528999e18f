import RecordSynth.Proofs.Template.Specialization
import RecordSynth.Synthesis.Store

/-! What the store of templates publishes. An artifact is kept if its names bind as many fields as
it is for. Its parameters are not looked at, so binding goes through exactly where they agree.
-/

namespace RecordSynth

namespace TemplateStore

variable {s : TemplateStore} {behavior : Behavior} {arity : Nat}

/-- A template compiles to a program whose names are a run for as many fields as it is for. -/
theorem compile_eq_ok_iff {library : TemplateLibrary} {program : Program}
    : compile library behavior arity = .ok program
      ↔ Program.ofText (library behavior arity) = .ok program
        ∧ HoldsRun (program.table .names) arity := by
  unfold compile
  constructor
  · intro h
    split at h
    · cases h
    next found compiled =>
    split at h
    · cases h
    next count isCount =>
    split at h
    · next same =>
      cases h
      exact ⟨compiled, Program.arity_eq_ok_iff.mp (same ▸ isCount)⟩
    · cases h
  · rintro ⟨compiled, holds⟩
    rw [compiled]
    dsimp only
    rw [Program.arity_eq_ok_iff.mpr holds]
    exact if_pos rfl

/-- A request finds an artifact, or fails and changes nothing, or keeps a new artifact. -/
theorem request_cases (s : TemplateStore) (behavior : Behavior) (arity : Nat)
    : (∃ artifact,
        s.get? behavior arity = some artifact
        ∧ s.request behavior arity = (.ok artifact, s))
      ∨ (∃ error,
        s.get? behavior arity = none
        ∧ compile s.library behavior arity = .error error
        ∧ s.request behavior arity = (.error error, s))
      ∨ ∃ program,
        s.get? behavior arity = none
        ∧ compile s.library behavior arity = .ok program
        ∧ s.request behavior arity
          = (.ok (s.keep behavior arity program).1, (s.keep behavior arity program).2) := by
  unfold request
  cases present : s.get? behavior arity with
  | some artifact => exact Or.inl ⟨artifact, rfl, rfl⟩
  | none =>
      cases compiled : compile s.library behavior arity with
      | error error => exact Or.inr (Or.inl ⟨error, rfl, rfl, rfl⟩)
      | ok program => exact Or.inr (Or.inr ⟨program, rfl, rfl, rfl⟩)

/-- What is put in is found under its behavior and number of fields, and all else as before. -/
theorem get?_put (s : TemplateStore) (behavior : Behavior) (arity : Nat) (artifact : Artifact)
    (behavior' : Behavior) (arity' : Nat)
    : (s.put behavior arity artifact).get? behavior' arity'
      = if (behavior, arity) = (behavior', arity') then some artifact
        else s.get? behavior' arity' := by
  simp [put, get?, Std.HashMap.getElem?_insert]

/-- There is one artifact more if there was none. -/
theorem size_put (s : TemplateStore) (behavior : Behavior) (arity : Nat) (artifact : Artifact)
    : (s.put behavior arity artifact).size
      = if (s.get? behavior arity).isSome then s.size else s.size + 1 := by
  refine Std.HashMap.size_insert.trans (if_congr ?_ rfl rfl)
  exact Std.HashMap.mem_iff_isSome_getElem?

theorem get?_keep (s : TemplateStore) (behavior : Behavior) (arity : Nat) (program : Program)
    (behavior' : Behavior) (arity' : Nat)
    : (s.keep behavior arity program).2.get? behavior' arity'
      = if (behavior, arity) = (behavior', arity')
        then some (s.keep behavior arity program).1
        else s.get? behavior' arity' :=
  (s.make program).2.get?_put behavior arity (s.make program).1 behavior' arity'

@[simp] theorem get?_empty (library : TemplateLibrary) (region : Nat)
    : (empty library region).get? behavior arity = none := by
  simp [empty, get?]

@[simp] theorem library_request (s : TemplateStore) (behavior : Behavior) (arity : Nat)
    : (s.request behavior arity).2.library = s.library := by
  rcases request_cases s behavior arity
    with ⟨_, _, isResult⟩ | ⟨_, _, _, isResult⟩ | ⟨_, _, _, isResult⟩
  · rw [isResult]
  · rw [isResult]
  · rw [isResult]
    rfl

/-- What is in the store stays there. -/
theorem get?_request_of_present {behavior' : Behavior} {arity' : Nat} {artifact : Artifact}
    (present : s.get? behavior' arity' = some artifact)
    : (s.request behavior arity).2.get? behavior' arity' = some artifact := by
  rcases request_cases s behavior arity
    with ⟨_, _, isResult⟩ | ⟨_, _, _, isResult⟩ | ⟨program, absent, _, isResult⟩
  · rwa [isResult]
  · rwa [isResult]
  -- Only what is absent is compiled, so nothing is put in another's place.
  · have other : (behavior, arity) ≠ (behavior', arity') := by
      intro same
      obtain ⟨rfl, rfl⟩ := Prod.mk.inj same
      rw [present] at absent
      cases absent
    rw [isResult, get?_keep, if_neg other]
    exact present

/-- What a request gives is in the store afterwards. -/
theorem get?_of_request {artifact : Artifact}
    (given : (s.request behavior arity).1 = .ok artifact)
    : (s.request behavior arity).2.get? behavior arity = some artifact := by
  rcases request_cases s behavior arity
    with ⟨found, present, isResult⟩ | ⟨_, _, _, isResult⟩ | ⟨program, _, _, isResult⟩
  · rw [isResult] at given ⊢
    cases given
    exact present
  · rw [isResult] at given
    cases given
  · rw [isResult] at given ⊢
    cases given
    rw [get?_keep, if_pos rfl]

-----------------------------------------------------------------------------------------
-- The store is filled with what templates compile to
-----------------------------------------------------------------------------------------

/-- Every artifact in the store is what its template compiles to. -/
def Faithful (s : TemplateStore) : Prop :=
  ∀ behavior arity artifact, s.get? behavior arity = some artifact →
    compile s.library behavior arity = .ok artifact.program

theorem faithful_empty (library : TemplateLibrary) (region : Nat)
    : (empty library region).Faithful := by
  intro behavior arity artifact present
  rw [get?_empty] at present
  cases present

/-- A request keeps the store faithful: it adds only what has just been compiled. -/
theorem Faithful.request (faithful : s.Faithful) (behavior : Behavior) (arity : Nat)
    : (s.request behavior arity).2.Faithful := by
  intro behavior' arity' artifact present
  rw [library_request]
  rcases request_cases s behavior arity
    with ⟨_, _, isResult⟩ | ⟨_, _, _, isResult⟩ | ⟨program, _, compiled, isResult⟩
  · rw [isResult] at present
    exact faithful _ _ _ present
  · rw [isResult] at present
    exact faithful _ _ _ present
  · rw [isResult, get?_keep] at present
    split at present
    · next same =>
      obtain ⟨rfl, rfl⟩ := Prod.mk.inj same
      cases present
      exact compiled
    · exact faithful _ _ _ present

/-- The store after requests, in order. -/
def requestAll (s : TemplateStore) (requests : List (Behavior × Nat)) : TemplateStore :=
  requests.foldl (fun s r => (s.request r.1 r.2).2) s

/-- Requests keep the store faithful, by induction on them. -/
theorem Faithful.requestAll (faithful : s.Faithful) (requests : List (Behavior × Nat))
    : (s.requestAll requests).Faithful := by
  induction requests generalizing s with
  | nil => exact faithful
  | cons r rest ih => exact ih (faithful.request r.1 r.2)

theorem library_requestAll (s : TemplateStore) (requests : List (Behavior × Nat))
    : (s.requestAll requests).library = s.library := by
  induction requests generalizing s with
  | nil => rfl
  | cons r rest ih => exact (ih _).trans (library_request s r.1 r.2)

/-- After requests to a new store, the artifact is in the store, or one more request gives it. -/
def Published (library : TemplateLibrary) (region : Nat) (requests : List (Behavior × Nat))
    (behavior : Behavior) (arity : Nat) (artifact : Artifact) : Prop :=
  let s := (empty library region).requestAll requests
  s.get? behavior arity = some artifact ∨ (s.request behavior arity).1 = .ok artifact

/-- What is published is what its template compiles to, whether it is found or given. -/
theorem Published.compiled {library : TemplateLibrary} {region : Nat}
    {requests : List (Behavior × Nat)} {artifact : Artifact}
    (published : Published library region requests behavior arity artifact)
    : compile library behavior arity = .ok artifact.program := by
  have faithful := (faithful_empty library region).requestAll requests
  have sameLibrary := library_requestAll (empty library region) requests
  rcases published with present | given
  · have compiled := faithful _ _ _ present
    rwa [sameLibrary] at compiled
  · have compiled := faithful.request behavior arity _ _ _ (get?_of_request given)
    rwa [library_request, sameLibrary] at compiled

-----------------------------------------------------------------------------------------
-- What is published and what it takes to bind it
-----------------------------------------------------------------------------------------

/-- The parameters hold no placeholders, or a run as long as that of the names. -/
def ParamsAgree (p : Program) (arity : Nat) : Prop :=
  HoldsRun (p.table .params) 0 ∨ HoldsRun (p.table .params) arity

theorem bind_of_paramsAgree {p : Program} {fields : List String}
    (names : HoldsRun (p.table .names) fields.length) (params : ParamsAgree p fields.length)
    : p.bind fields = .ok (p.renamed (boundName fields)) :=
  Program.bind_eq_ok_iff.mpr ⟨names, params, rfl⟩

/-- What is published binds to as many fields as it is for exactly if its parameters agree with
its names; if they do not, binding fails because of them.
-/
theorem Published.bind_iff {library : TemplateLibrary} {region : Nat}
    {requests : List (Behavior × Nat)} {artifact : Artifact}
    (published : Published library region requests behavior arity artifact)
    {fields : List String} (length : fields.length = arity)
    : (ParamsAgree artifact.program arity
        ↔ artifact.program.bind fields = .ok (artifact.program.renamed (boundName fields)))
      ∧ (¬ParamsAgree artifact.program arity
        ↔ artifact.program.bind fields
          = .error (.placeholderRun artifact.program.name .params)) := by
  subst length
  obtain ⟨-, names⟩ := compile_eq_ok_iff.mp published.compiled
  refine ⟨⟨bind_of_paramsAgree names, fun bound => (Program.bind_eq_ok_iff.mp bound).2.1⟩, ?_⟩
  refine ⟨Program.bind_eq_error names, ?_⟩
  intro fails params
  rw [bind_of_paramsAgree names params] at fails
  cases fails

section Crossed

open Source

/-- Construction of two fields that takes their values in the other order. -/
def crossed : Definition where
  name := "construct"
  params := ["self", "_1", "_0"].map fun name => ⟨name, default⟩
  isGenerator := false
  body := Template.body .construct ["_0", "_1"]
  range := default

/-- The text of the construction with crossed parameters. -/
def crossedText : String :=
  "fn construct(self, _1, _0) \x7b self._0 = _0; self._1 = _1; \x7d"

theorem textOf_crossed : textOf crossed.written = crossedText := by
  rw [← String.toList_inj]
  decide

theorem writable_crossed : crossed.Writable := by
  have free : ∀ field ∈ ["_0", "_1"], IsFreeWord field := by
    decide
  refine ⟨by decide, by decide, Stmt.writableAll_iff.mpr ?_⟩
  intro s member
  obtain ⟨field, inFields, rfl⟩ := List.mem_map.mp member
  exact ⟨(by decide : IsFreeWord "self"), free field inFields, free field inFields⟩

theorem accepted_crossed : crossed.Accepted := by
  have params : ∀ field ∈ ["_0", "_1"], field ∈ crossed.paramNames := by
    decide
  refine ⟨by decide, by decide, Stmt.wellFormedAll_iff.mpr ?_, by decide, by decide,
    Stmt.targetsFit_codeAll ?_⟩
  · intro s member
    obtain ⟨field, inFields, rfl⟩ := List.mem_map.mp member
    exact ⟨params field inFields, (by decide : "self" ∈ crossed.paramNames)⟩
  · intro s member start
    obtain ⟨field, _, rfl⟩ := List.mem_map.mp member
    exact targetsFit_append.mpr ⟨Expr.targetsFit_code _ _, Template.targetsFit_straight rfl⟩

/-- A library that has the construction with crossed parameters. -/
def crossedLibrary : TemplateLibrary :=
  .overriding [⟨.construct, none, crossedText⟩] none

theorem compile_crossed : compile crossedLibrary .construct 2 = .ok crossed.program := by
  have compiled : Program.ofText crossedText = .ok crossed.program := by
    rw [← textOf_crossed]
    exact (Program.ofText_textOf_iff writable_crossed).mpr ⟨accepted_crossed, rfl⟩
  exact compile_eq_ok_iff.mpr ⟨compiled, [], [], by decide, nofun, nofun, by decide⟩

theorem published_crossed
    : Published crossedLibrary 0 [] .construct 2 ⟨crossed.program, ⟨0, 0⟩⟩ := by
  refine Or.inr ?_
  rcases request_cases (empty crossedLibrary 0) .construct 2
    with ⟨_, present, _⟩ | ⟨_, _, fails, _⟩ | ⟨program, _, compiled, isResult⟩
  · rw [get?_empty] at present
    cases present
  · cases fails.symm.trans compile_crossed
  · have isProgram := Except.ok.inj (compiled.symm.trans compile_crossed)
    rw [requestAll, List.foldl_nil, isResult, isProgram]
    rfl

theorem bind_crossed
    : crossed.program.bind ["a", "b"] = .error (.placeholderRun "construct" .params) := by
  decide

/-- Witness: the construction with crossed parameters is published for two fields. -/
theorem Published.bind_iff_crossed
    : ¬ParamsAgree crossed.program 2
      ↔ crossed.program.bind ["a", "b"] = .error (.placeholderRun "construct" .params) :=
  (@Published.bind_iff .construct 2 crossedLibrary 0 [] _ published_crossed ["a", "b"] rfl).2

/-- Not all that is published binds: the construction with crossed parameters does not. -/
theorem not_bind_of_published
    : ¬∀ library region requests behavior arity artifact,
        Published library region requests behavior arity artifact →
        ∀ fields : List String, fields.length = arity →
          ∃ bound, artifact.program.bind fields = .ok bound := by
  intro claim
  obtain ⟨bound, binds⟩ := claim _ _ _ _ _ _ published_crossed ["a", "b"] rfl
  have fails := bind_crossed.symm.trans binds
  cases fails

end Crossed

-----------------------------------------------------------------------------------------
-- Standard templates
-----------------------------------------------------------------------------------------

section Standard

theorem compile_standard (behavior : Behavior) {arity : Nat} (few : arity ≤ maxFields)
    : compile Template.standard behavior arity
      = .ok (Template.tree behavior (Template.placeholders arity)).program := by
  have fit := Template.fit_placeholders behavior few
  refine compile_eq_ok_iff.mpr
    ⟨fit.ofText (Template.isFreeWord_of_mem_placeholders arity), [], [], ?_, nofun, nofun, ?_⟩
  · simpa [Program.table, Source.Definition.program, Template.placeholders]
      using Template.nameTable_tree behavior fit.distinct
  · exact few.trans (by decide)

/-- The standard templates have no other programs than those of their trees. -/
theorem eq_of_compile_standard {program : Program}
    (compiled : compile Template.standard behavior arity = .ok program)
    : program = (Template.tree behavior (Template.placeholders arity)).program := by
  obtain ⟨compiled, -⟩ := compile_eq_ok_iff.mp compiled
  rw [Template.standard, ← Template.textOf_tree] at compiled
  have writable := Template.writable_tree behavior (Template.isFreeWord_of_mem_placeholders arity)
  exact ((Program.ofText_textOf_iff writable).mp compiled).2

theorem bind_of_compile_standard {program : Program}
    (compiled : compile Template.standard behavior arity = .ok program) {fields : List String}
    (length : fields.length = arity)
    : program.bind fields = .ok (program.renamed (boundName fields)) := by
  obtain ⟨-, names⟩ := compile_eq_ok_iff.mp compiled
  have params : program.table .params
      = Template.parameters behavior (Template.placeholders arity) := by
    rw [eq_of_compile_standard compiled]
    exact Template.paramNames_tree behavior _
  refine bind_of_paramsAgree (length ▸ names) ?_
  rw [ParamsAgree, params, length]
  exact Template.holdsRun_parameters behavior names.le

/-- The names of a bound standard template are the fields. -/
theorem names_of_bind_standard {program bound : Program} {fields : List String}
    (compiled : compile Template.standard behavior fields.length = .ok program)
    (binds : program.bind fields = .ok bound)
    : bound.names.toList = fields := by
  obtain ⟨-, names⟩ := compile_eq_ok_iff.mp compiled
  obtain ⟨-, -, rfl⟩ := Program.bind_eq_ok_iff.mp binds
  have distinct := Template.nodup_placeholders fields.length
  have table : program.names.toList = Template.placeholders fields.length := by
    rw [eq_of_compile_standard compiled]
    exact Template.nameTable_tree behavior distinct
  rw [Program.renamed, Array.toList_map, table]
  exact map_boundName_placeholders names.le

/-- The standard templates give artifacts for as many fields as a behavior binds. -/
theorem request_standard (standard : s.library = Template.standard) (behavior : Behavior)
    {arity : Nat} (few : arity ≤ maxFields)
    : ∃ artifact, (s.request behavior arity).1 = .ok artifact := by
  rcases request_cases s behavior arity
    with ⟨artifact, _, isResult⟩ | ⟨_, _, fails, _⟩ | ⟨program, _, _, isResult⟩
  · exact ⟨artifact, by rw [isResult]⟩
  · rw [standard, compile_standard behavior few] at fails
    cases fails
  · exact ⟨_, by rw [isResult]⟩

end Standard

end TemplateStore

end RecordSynth
