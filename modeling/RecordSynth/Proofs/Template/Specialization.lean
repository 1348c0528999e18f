import RecordSynth.Proofs.Template.Acceptance

/-! Templates are as good as their fields. A template that is compiled over placeholders and then
bound to field names is the program that is compiled over these names.
-/

namespace RecordSynth.Template

open Source

/-- The placeholders of a number of fields. -/
def placeholders (n : Nat) : List String :=
  (List.range n).map placeholder

theorem toList_placeholder (i : Nat) : (placeholder i).toList = '_' :: Nat.toDigits 10 i := by
  simp [placeholder, Nat.toList_repr]

/-- Placeholders of different fields differ, since their digits do. -/
theorem placeholder_injective : Function.Injective placeholder := by
  intro i j same
  have digits := congrArg String.toList same
  simp only [toList_placeholder, List.cons.injEq, true_and] at digits
  exact toDigits_injective digits

/-- Placeholders lex as identifiers: no keyword begins like one. -/
theorem isFreeWord_placeholder (i : Nat) : IsFreeWord (placeholder i) := by
  have spelled := toList_placeholder i
  refine ⟨?_, ?_⟩
  · have parts : ∀ c ∈ Nat.toDigits 10 i, isWordPart c = true := by
      intro c member
      have digit := Nat.isDigit_of_mem_toDigits (by decide) (by decide) member
      simp [isWordPart, digit]
    simpa [spelled, isWord, isWordStart] using parts
  · cases found : Keyword.ofSpelling? (placeholder i) with
    | none => rfl
    | some word =>
        have isWord : word.spelling = placeholder i := by
          simpa [Keyword.ofSpelling?] using List.find?_some found
        have head : word.spelling.toList.head? = some '_' := by
          rw [isWord, spelled]
          rfl
        cases word <;> exact absurd head (by decide)

theorem isFreeWord_of_mem_placeholders (n : Nat)
    : ∀ name ∈ placeholders n, IsFreeWord name := by
  intro name member
  obtain ⟨i, _, rfl⟩ := List.mem_map.mp member
  exact isFreeWord_placeholder i

/-- The names that templates use otherwise are no placeholders. -/
theorem placeholderIndex?_reserved {name : String} (fixed : name ∈ reserved)
    : placeholderIndex? name = none := by
  revert name
  decide

theorem nodup_placeholders (n : Nat) : (placeholders n).Nodup :=
  List.nodup_range.map placeholder_injective

theorem length_placeholders (n : Nat) : (placeholders n).length = n := by
  simp [placeholders]

/-- No placeholder is the receiver of construction. -/
theorem self_not_mem_placeholders (n : Nat) : "self" ∉ placeholders n := by
  intro member
  obtain ⟨i, -, isSelf⟩ := List.mem_map.mp member
  have first := congrArg String.toList isSelf
  rw [toList_placeholder] at first
  exact absurd (List.cons.inj first).1 (by decide)

/-- The placeholders of as many fields as a behavior binds can stand for fields. -/
theorem fit_placeholders (behavior : Behavior) {n : Nat} (few : n ≤ maxFields)
    : Fit behavior (placeholders n) :=
  ⟨(length_placeholders n).le.trans few, nodup_placeholders n,
    fun _ => self_not_mem_placeholders n⟩

/-- The text of a template compiles to the program of its tree. -/
theorem Fit.ofText {behavior : Behavior} {fields : List String} (fit : Fit behavior fields)
    (free : ∀ field ∈ fields, IsFreeWord field)
    : Program.ofText (render behavior fields) = .ok (tree behavior fields).program := by
  rw [← textOf_tree]
  exact (Program.ofText_textOf_iff (writable_tree behavior free)).mpr ⟨fit.accepted, rfl⟩

theorem plain_reserved {names : List String} (fixed : names ⊆ reserved) : Plain names :=
  fun _ member => placeholderIndex?_reserved (fixed member)

/-- Behind its receiver, construction takes the placeholders; the other behaviors take none. -/
theorem holdsRun_parameters (behavior : Behavior) {n : Nat} (few : n ≤ placeholderLimit)
    : HoldsRun (parameters behavior (placeholders n)) 0
      ∨ HoldsRun (parameters behavior (placeholders n)) n := by
  have none (fixed : parameters behavior (placeholders n) ⊆ reserved)
      : HoldsRun (parameters behavior (placeholders n)) 0 :=
    holdsRun_zero_iff.mpr (plain_reserved fixed)
  cases behavior with
  | construct =>
      refine Or.inr ⟨["self"], [], ?_, plain_reserved (by decide), nofun, few⟩
      simp [parameters, placeholders]
  | equality => exact Or.inl (none (by simp [parameters, reserved]))
  | display => exact Or.inl (none (by simp [parameters, reserved]))
  | iteration => exact Or.inl (none (by simp [parameters, reserved]))
  | hashing => exact Or.inl (none (by simp [parameters, reserved]))

/-- Bound to fields, the program of the tree over placeholders is that of the tree over the
fields. Witness: both are the renamed program, since the fields are distinct as the placeholders
are.
-/
theorem Fit.bind {behavior : Behavior} {fields : List String} (fit : Fit behavior fields)
    : (tree behavior (placeholders fields.length)).program.bind fields
      = .ok (tree behavior fields).program := by
  have few : fields.length ≤ placeholderLimit := fit.fits.trans (by decide)
  have standIn := fit_placeholders behavior fit.fits
  have bound : (placeholders fields.length).map (boundName fields) = fields :=
    map_boundName_placeholders few
  have keeps : ∀ name ∈ reserved, boundName fields name = name :=
    fun name fixed => boundName_of_plain fields (placeholderIndex?_reserved fixed)
  have renamed : (tree behavior (placeholders fields.length)).renamed (boundName fields)
      = tree behavior fields := by
    rw [renamed_tree keeps, bound]
  -- Binding may give placeholders to one another's places, so it is the results that have to
  -- be distinct.
  have params : ((tree behavior (placeholders fields.length)).paramNames.map
      (boundName fields)).Nodup := by
    rw [← Definition.paramNames_renamed, renamed, paramNames_tree]
    exact fit.parameters.1
  have names : ((tree behavior (placeholders fields.length)).nameTable.map
      (boundName fields)).Nodup := by
    rw [nameTable_tree behavior standIn.distinct, bound]
    exact fit.distinct
  obtain ⟨-, program⟩ := standIn.accepted.renamed (keepsCallees_boundName fields)
    (fun _ inA _ inB => List.inj_on_of_nodup_map params inA inB)
    (fun _ inA _ inB => List.inj_on_of_nodup_map names inA inB)
  rw [← renamed, program]
  refine Program.bind_eq_ok_iff.mpr ⟨⟨[], [], ?_, nofun, nofun, few⟩, ?_, rfl⟩
  · simpa [Program.table, Definition.program, placeholders]
      using nameTable_tree behavior standIn.distinct
  · have table : (tree behavior (placeholders fields.length)).program.table .params
        = Template.parameters behavior (placeholders fields.length) := by
      simp [Program.table, Definition.program, paramNames_tree]
    rw [table]
    exact holdsRun_parameters behavior few

/-- Specialization is compilation. For distinct fields that lex as identifiers and are no more
than a behavior binds, the standard template compiles, binds to the fields, and is then the
program that the template over the fields compiles to.
-/
theorem bind_standard_eq_ofText_render {behavior : Behavior} {fields : List String}
    (few : fields.length ≤ maxFields) (distinct : fields.Nodup)
    (identifiers : ∀ field ∈ fields, IsIdentifier field)
    (receiver : behavior = .construct → "self" ∉ fields)
    : ∃ template program,
        Program.ofText (standard behavior fields.length) = .ok template
        ∧ template.bind fields = .ok program
        ∧ Program.ofText (render behavior fields) = .ok program := by
  have fit : Fit behavior fields := ⟨few, distinct, receiver⟩
  have free : ∀ field ∈ fields, IsFreeWord field :=
    fun field member => isIdentifier_iff.mp (identifiers field member)
  have compiled : Program.ofText (standard behavior fields.length)
      = .ok (tree behavior (placeholders fields.length)).program :=
    (fit_placeholders behavior few).ofText (isFreeWord_of_mem_placeholders _)
  exact ⟨_, _, compiled, fit.bind, fit.ofText free⟩

/-- Witness: fields that are spelled like a placeholder, a parameter, and a builtin function. -/
theorem bind_standard_eq_ofText_render_odd_names
    : ∃ template program,
        Program.ofText (standard .construct 3) = .ok template
        ∧ template.bind ["_1", "other", "repr"] = .ok program
        ∧ Program.ofText (render .construct ["_1", "other", "repr"]) = .ok program := by
  have free : ∀ field ∈ ["_1", "other", "repr"], IsFreeWord field := by
    decide
  exact @bind_standard_eq_ofText_render .construct ["_1", "other", "repr"] (by decide) (by decide)
    (fun field member => isIdentifier_iff.mpr (free field member)) (fun _ => by decide)

end RecordSynth.Template
