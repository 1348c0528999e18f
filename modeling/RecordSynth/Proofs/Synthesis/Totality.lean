import RecordSynth.Proofs.Synthesis.Freshness

/-! Equipping is total up to the cap. Over the standard templates it fails for types with more
fields than a behavior binds and for no others, whatever the fields are called and whatever has
been asked of the store before.
-/

namespace RecordSynth

namespace TemplateStore

/-- The states of a store over a library. Requests compile without holding the store, so between
making an artifact and putting it in others may come, and may have put in theirs.
-/
inductive Reachable (library : TemplateLibrary) (region : Nat) : TemplateStore → Prop
  | empty : Reachable library region (.empty library region)
  | request {s : TemplateStore} (reached : Reachable library region s) (behavior : Behavior)
    (arity : Nat)
    : Reachable library region (s.request behavior arity).2
  | make {s : TemplateStore} {behavior : Behavior} {arity : Nat} {program : Program}
    (reached : Reachable library region s)
    (compiled : compile library behavior arity = .ok program)
    : Reachable library region (s.make program).2
  | put {s : TemplateStore} {behavior : Behavior} {arity : Nat} {artifact : Artifact}
    (reached : Reachable library region s)
    (compiled : compile library behavior arity = .ok artifact.program)
    : Reachable library region (s.put behavior arity artifact)

variable {library : TemplateLibrary} {region : Nat} {s : TemplateStore}

theorem Reachable.library_eq (reached : s.Reachable library region) : s.library = library := by
  induction reached with
  | empty => rfl
  | request _ behavior arity ih => exact (library_request _ behavior arity).trans ih
  | make _ _ ih => exact ih
  | put _ _ ih => exact ih

/-- What is put in has been compiled from the template it is kept for. -/
theorem Faithful.put (faithful : s.Faithful) {behavior : Behavior} {arity : Nat}
    {artifact : Artifact} (compiled : compile s.library behavior arity = .ok artifact.program)
    : (s.put behavior arity artifact).Faithful := by
  intro behavior' arity' artifact' present
  rw [get?_put] at present
  split at present
  · next same =>
    obtain ⟨rfl, rfl⟩ := Prod.mk.inj same
    cases present
    exact compiled
  · exact faithful _ _ _ present

/-- Every reachable store is faithful, by induction on how it is reached. -/
theorem Reachable.faithful (reached : s.Reachable library region) : s.Faithful := by
  induction reached with
  | empty => exact faithful_empty library region
  | request _ behavior arity ih => exact ih.request behavior arity
  | make _ _ ih => exact ih
  | put earlier compiled ih => exact ih.put (earlier.library_eq ▸ compiled)

theorem Reachable.requestAll (reached : s.Reachable library region)
    (requests : List (Behavior × Nat))
    : (s.requestAll requests).Reachable library region := by
  induction requests generalizing s with
  | nil => exact reached
  | cons r rest ih => exact ih (reached.request r.1 r.2)

end TemplateStore

namespace Synthesis

open Workshop

variable {w : Workshop} {region : Nat} {id : TypeId}

theorem equip_of_many (selection : Selection) (many : maxFields < (w.fieldNames id).length)
    : (equip selection id).outcome w
      = (.error (.tooManyFields (w.types.name id) (w.fieldNames id).length), w) := by
  rw [fieldNames, List.length_map] at many ⊢
  rw [outcome_equip, if_pos many]

/-- Equipping with no more fields than a behavior binds installs, for each selected behavior that
the user has not defined, the template in the store bound to the fields.
-/
theorem equip_of_few (reached : w.store.Reachable Template.standard region)
    (selection : Selection) (few : (w.fieldNames id).length ≤ maxFields)
    : ∃ methods requests,
        (equip selection id).outcome w
          = (.ok (), ⟨(w.types.attachAll id methods).setMatchArgs id
              (w.types.fieldOrder id).toList, w.store.requestAll requests⟩)
        ∧ methods.map Prod.fst = wanted selection (w.types.get? id)
        ∧ ∀ entry ∈ methods,
          (w.store.requestAll requests).Binds entry.1 (w.fieldNames id) entry.2 := by
  have succeeds : ((equip selection id).outcome w).1 = .ok () := by
    refine equip_standard reached.library_eq reached.faithful selection ?_
    rwa [fieldNames, List.length_map] at few
  obtain ⟨requests, ⟨error, isResult⟩ | ⟨methods, isResult, behaviors, binds⟩⟩ :=
    equip_outcome w selection id
  · rw [isResult] at succeeds
    cases succeeds
  · exact ⟨methods, requests, isResult, behaviors, binds⟩

/-- Equipping fails exactly if there are too many fields, and then neither the types nor the store
are changed. Otherwise it installs, for each selected behavior that the user has not defined, the
template in the store bound to the fields, and records the field order.
-/
theorem equip_fails_iff (reached : w.store.Reachable Template.standard region)
    (selection : Selection) (id : TypeId)
    : ((∃ error, ((equip selection id).outcome w).1 = .error error)
        ↔ maxFields < (w.fieldNames id).length)
      ∧ (maxFields < (w.fieldNames id).length →
        (equip selection id).outcome w
          = (.error (.tooManyFields (w.types.name id) (w.fieldNames id).length), w))
      ∧ ((w.fieldNames id).length ≤ maxFields →
        ∃ methods requests,
          (equip selection id).outcome w
            = (.ok (), ⟨(w.types.attachAll id methods).setMatchArgs id
                (w.types.fieldOrder id).toList, w.store.requestAll requests⟩)
          ∧ methods.map Prod.fst = wanted selection (w.types.get? id)
          ∧ ∀ entry ∈ methods,
            (w.store.requestAll requests).Binds entry.1 (w.fieldNames id) entry.2) := by
  refine ⟨⟨?_, ?_⟩, equip_of_many selection, equip_of_few reached selection⟩
  · rintro ⟨error, fails⟩
    by_contra few
    obtain ⟨methods, requests, isResult, -⟩ :=
      equip_of_few reached selection (Nat.le_of_not_lt few)
    rw [isResult] at fails
    cases fails
  · intro many
    exact ⟨_, congrArg Prod.fst (equip_of_many selection many)⟩

section Boundary

/-- A type with fields of the given names, a type that descends from it, and a store that has been
asked for a template.
-/
def family (names : List String) : Workshop where
  types :=
    ((TypeTable.empty.declareType "T" none (names.map fun name => ⟨name, "int"⟩) []).2.declareType
      "U" (some ⟨0⟩) [] []).2
  store := ((TemplateStore.empty Template.standard 0).request .display 3).2

theorem reachable_family (names : List String)
    : (family names).store.Reachable Template.standard 0 :=
  TemplateStore.Reachable.empty.request .display 3

theorem fieldNames_family {names : List String} (distinct : names.Nodup)
    : (family names).fieldNames ⟨0⟩ = names := by
  let fields : List Field := names.map fun name => ⟨name, "int"⟩
  let ty : RecordType := ⟨"T", none, Roster.ofList fields, .all none, .none, none⟩
  have isType : (family names).types.get? ⟨0⟩ = some ty := rfl
  have keys : ty.declared.keys = names := by
    refine (Roster.keys_foldl_insert (.empty : Fields) fields).trans ?_
    simp [fields, Function.comp_def, enterAll_of_nodup, distinct]
  rw [fieldNames_of_root isType rfl, keys]

/-- Witness: one field more than a behavior binds, and fields whose names are no identifiers. -/
theorem equip_fails_iff_one_more
    : (equip Selection.none ⟨0⟩).outcome (family (Template.placeholders 65536))
        = (.error (.tooManyFields "T" 65536), family (Template.placeholders 65536))
      ∧ ∃ methods requests,
        (equip Selection.all ⟨0⟩).outcome (family ["", "fn", "_1", "a); x"])
          = (.ok (), ⟨((family ["", "fn", "_1", "a); x"]).types.attachAll ⟨0⟩ methods).setMatchArgs
              ⟨0⟩ ((family ["", "fn", "_1", "a); x"]).types.fieldOrder ⟨0⟩).toList,
            (family ["", "fn", "_1", "a); x"]).store.requestAll requests⟩)
        ∧ methods.map Prod.fst = Behavior.all := by
  have many : (family (Template.placeholders 65536)).fieldNames ⟨0⟩
      = Template.placeholders 65536 :=
    fieldNames_family (Template.nodup_placeholders 65536)
  have length : (Template.placeholders 65536).length = 65536 := by
    rw [Template.placeholders, List.length_map, List.length_range]
  have odd : (family ["", "fn", "_1", "a); x"]).fieldNames ⟨0⟩ = ["", "fn", "_1", "a); x"] :=
    fieldNames_family (by decide)
  obtain ⟨-, fails, -⟩ :=
    equip_fails_iff (reachable_family (Template.placeholders 65536)) Selection.none ⟨0⟩
  obtain ⟨-, -, succeeds⟩ :=
    equip_fails_iff (reachable_family ["", "fn", "_1", "a); x"]) Selection.all ⟨0⟩
  rw [many, length] at fails
  rw [odd] at succeeds
  refine ⟨fails (by decide), ?_⟩
  obtain ⟨methods, requests, isResult, behaviors, -⟩ := succeeds (by decide)
  exact ⟨methods, requests, isResult, behaviors⟩

end Boundary

end Synthesis

end RecordSynth
