import Mathlib.Data.List.GetD
import RecordSynth.Proofs.Program.Rebinding
import RecordSynth.Proofs.Source.Substitution
import RecordSynth.Proofs.Template.Acceptance

/-! Binding commutes with substitution, whatever the template. Field names that are put in for the
placeholders of a source text are compiled to the program that binding makes of the template's
program, as long as they clash with no name that the template uses itself.
-/

namespace RecordSynth

open Source

-----------------------------------------------------------------------------------------
-- Bound entries of a table stay distinct
-----------------------------------------------------------------------------------------

section Entries

variable {fields : List String}

/-- Binding keeps an entry of a table with a run or makes one of the fields of it. -/
theorem HoldsRun.bound_cases {table : List String} {name : String}
    (holds : HoldsRun table fields.length) (member : name ∈ table)
    : (placeholderIndex? name = none ∧ boundName fields name = name)
      ∨ ∃ index, ∃ inFields : index < fields.length,
        name = placeholder index ∧ boundName fields name = fields[index] := by
  obtain ⟨before, after, rfl, plainBefore, plainAfter, within⟩ := holds
  have kept (plain : placeholderIndex? name = none)
      : placeholderIndex? name = none ∧ boundName fields name = name :=
    ⟨plain, boundName_of_plain fields plain⟩
  rcases List.mem_append.mp member with inBefore | behind
  · exact Or.inl (kept (plainBefore name inBefore))
  · rcases List.mem_append.mp behind with inRun | inAfter
    · obtain ⟨index, inRange, rfl⟩ := List.mem_map.mp inRun
      have inFields := List.mem_range.mp inRange
      exact Or.inr ⟨index, inFields, rfl,
        boundName_placeholder inFields (Nat.lt_of_lt_of_le inFields within)⟩
    · exact Or.inl (kept (plainAfter name inAfter))

/-- Distinct fields keep the entries of a table with a run distinct, unless one of them is an
entry itself.
-/
theorem HoldsRun.bound_injective {table : List String} (holds : HoldsRun table fields.length)
    (distinct : fields.Nodup)
    (fresh : ∀ name ∈ table, placeholderIndex? name = none → name ∉ fields)
    : ∀ a ∈ table, ∀ b ∈ table, boundName fields a = boundName fields b → a = b := by
  intro a inA b inB same
  rcases holds.bound_cases inA with ⟨plainA, boundA⟩ | ⟨i, iFits, rfl, boundA⟩
  · rcases holds.bound_cases inB with ⟨plainB, boundB⟩ | ⟨j, jFits, rfl, boundB⟩
    · rw [boundA, boundB] at same
      exact same
    · rw [boundA, boundB] at same
      exact absurd (same ▸ List.getElem_mem jFits) (fresh a inA plainA)
  · rcases holds.bound_cases inB with ⟨plainB, boundB⟩ | ⟨j, jFits, rfl, boundB⟩
    · rw [boundA, boundB] at same
      exact absurd (same ▸ List.getElem_mem iFits) (fresh b inB plainB)
    · rw [boundA, boundB] at same
      rw [distinct.getElem_inj_iff.mp same]

/-- Binding changes nothing in a plain table. -/
theorem Plain.bound_injective {table : List String} (plain : Plain table)
    : ∀ a ∈ table, ∀ b ∈ table, boundName fields a = boundName fields b → a = b := by
  intro a inA b inB same
  rw [boundName_of_plain fields (plain a inA), boundName_of_plain fields (plain b inB)] at same
  exact same

/-- Binding makes identifiers of identifiers. -/
theorem keepsFree_boundName (identifiers : ∀ field ∈ fields, IsIdentifier field)
    : KeepsFree (boundName fields) := by
  intro name free
  unfold boundName
  split
  · next index _ =>
    rcases Nat.lt_or_ge index fields.length with inFields | beyond
    · rw [List.getD_eq_getElem _ _ inFields]
      exact isIdentifier_iff.mp (identifiers _ (List.getElem_mem inFields))
    · rw [List.getD_eq_default _ _ beyond]
      exact free
  · exact free

end Entries

/-- Binding commutes with substitution. A source text compiles whose names hold a run of
placeholders and whose parameters hold none or the same one. Then its program binds to as many
distinct identifiers that clash with no other name of a table that holds placeholders, and the
text with these identifiers in place of its placeholders compiles to the program that is bound.
-/
theorem Program.bind_eq_ofText_renamedText {source : String} {program : Program}
    {fields : List String} (compiled : Program.ofText source = .ok program)
    (names : HoldsRun (program.table .names) fields.length)
    (params : HoldsRun (program.table .params) 0
      ∨ HoldsRun (program.table .params) fields.length)
    (named : placeholderIndex? program.name = none) (distinct : fields.Nodup)
    (identifiers : ∀ field ∈ fields, IsIdentifier field)
    (fresh : ∀ name ∈ program.table .names, placeholderIndex? name = none → name ∉ fields)
    (freshParams : ¬Plain (program.table .params) →
      ∀ name ∈ program.table .params, placeholderIndex? name = none → name ∉ fields)
    : ∃ bound, program.bind fields = .ok bound
        ∧ Program.ofText (renamedText (boundName fields) source) = .ok bound := by
  obtain ⟨d, read, built⟩ := bind_eq_ok.mp compiled
  obtain ⟨accepted, rfl⟩ := Program.ofDefinition_eq_ok_iff.mp built
  have namesTable : d.program.table .names = d.nameTable := rfl
  have paramsTable : d.program.table .params = d.paramNames := rfl
  have paramsKept : ∀ a ∈ d.paramNames, ∀ b ∈ d.paramNames,
      boundName fields a = boundName fields b → a = b := by
    by_cases plain : Plain (d.program.table .params)
    · exact plain.bound_injective
    · -- Parameters that are not plain hold the run of the names.
      rcases params with none | holds
      · exact absurd (holdsRun_zero_iff.mp none) plain
      · exact holds.bound_injective distinct (freshParams plain)
  have namesKept : ∀ a ∈ d.nameTable, ∀ b ∈ d.nameTable,
      boundName fields a = boundName fields b → a = b :=
    names.bound_injective distinct fresh
  obtain ⟨acceptedRenamed, programRenamed⟩ :=
    accepted.renamed (keepsCallees_boundName fields) paramsKept namesKept
  refine ⟨d.program.renamed (boundName fields), ?_, ?_⟩
  · exact Program.bind_eq_ok_iff.mpr ⟨names, params, rfl⟩
  · obtain ⟨d', same, read'⟩ := Definition.ofText_renamedText
      (keepsFree_boundName identifiers) (boundName_of_plain fields named) read
    have built' : Program.ofDefinition (d.renamed (boundName fields))
        = .ok (d.program.renamed (boundName fields)) :=
      Program.ofDefinition_eq_ok_iff.mpr ⟨acceptedRenamed, programRenamed.symm⟩
    exact bind_eq_ok.mpr ⟨d', read', Program.ofDefinition_of_erased_eq same built'⟩

section Tagged

/-- A function with a label and a text that are spelled like a placeholder. -/
def tagged : Definition where
  name := "tag"
  params := [⟨"self", default⟩]
  isGenerator := false
  body := [.giveBack default (some (.call default "concat" default
    [.call default "nameof" default [.var default "_0"], .literal default (.str "_0"),
      .attr default (.var default "self") "_1", .attr default (.var default "self") "x"]))]
  range := default

/-- The text of the function. -/
def taggedText : String :=
  "fn tag(self) \x7b return concat(nameof(_0), \"_0\", self._1, self.x); \x7d"

theorem textOf_tagged : textOf tagged.written = taggedText := by
  rw [← String.toList_inj]
  decide

theorem writable_tagged : tagged.Writable := by
  have free : ∀ name ∈ ["concat", "nameof", "self", "_0", "_1", "x"], IsFreeWord name := by
    decide
  have self : IsFreeWord "self" := free _ (by simp)
  refine ⟨by decide, by decide, ⟨free _ (by simp), ?_⟩, trivial⟩
  exact ⟨⟨free _ (by simp), free _ (by simp), trivial⟩, trivial, ⟨self, free _ (by simp)⟩,
    ⟨self, free _ (by simp)⟩, trivial⟩

theorem accepted_tagged : tagged.Accepted := by
  have self : "self" ∈ tagged.paramNames := List.mem_singleton_self _
  refine ⟨by decide, by decide, ⟨?_, trivial⟩, by decide, by decide, ?_⟩
  · exact Or.inr ⟨Or.inl ⟨rfl, by decide⟩, Or.inl rfl, trivial, self, self, trivial⟩
  · refine Stmt.targetsFit_codeAll ?_
    intro s member start
    rw [List.mem_singleton.mp member]
    exact Template.targetsFit_straight rfl

/-- The text over fields that are spelled like a placeholder and like the parameter. -/
def taggedOver : String :=
  "fn tag(self) \x7b return concat(nameof(_1), \"_0\", self.self, self.x); \x7d"

theorem renamedText_tagged
    : renamedText (boundName ["_1", "self"]) taggedText = taggedOver := by
  rw [← textOf_tagged,
    renamedText_textOf tagged.firm_written.chain writable_tagged.allWritable,
    ← String.toList_inj]
  decide

/-- Witness: bound to the two fields, the function is what the text over them compiles to. Only
identifiers are replaced, all of them at once.
-/
theorem bind_eq_ofText_renamedText_tagged
    : Program.ofText taggedText = .ok tagged.program
      ∧ ∃ bound, tagged.program.bind ["_1", "self"] = .ok bound
        ∧ Program.ofText taggedOver = .ok bound := by
  have compiled : Program.ofText taggedText = .ok tagged.program := by
    rw [← textOf_tagged]
    exact (Program.ofText_textOf_iff writable_tagged).mpr ⟨accepted_tagged, rfl⟩
  have names : HoldsRun (tagged.program.table .names) 2 :=
    ⟨[], ["x"], rfl, nofun, plain_cons.mpr ⟨rfl, nofun⟩, by decide⟩
  have params : Plain (tagged.program.table .params) :=
    plain_cons.mpr ⟨rfl, nofun⟩
  have free : ∀ field ∈ ["_1", "self"], IsFreeWord field := by
    decide
  refine ⟨compiled, ?_⟩
  rw [← renamedText_tagged]
  exact Program.bind_eq_ofText_renamedText compiled names (Or.inl (holdsRun_zero_iff.mpr params))
    rfl (by decide) (fun field member => isIdentifier_iff.mpr (free field member))
    (by decide) (fun notPlain => absurd params notPlain)

end Tagged

end RecordSynth
