import Mathlib.Data.List.Nodup
import RecordSynth.Proofs.Program.Compilation
import RecordSynth.Proofs.Source.Erasure

/-! What the program of a definition depends on. Places have no part in it, and other names, as
long as distinct ones stay distinct, change the tables of names and nothing else.
-/

namespace RecordSynth

namespace Source

-----------------------------------------------------------------------------------------
-- Places have no part in the program
-----------------------------------------------------------------------------------------

section Erasure

theorem labelOf?_erasedAll (callee : String) (args : List Expr)
    : labelOf? callee (Expr.erasedAll args) = labelOf? callee args := by
  rw [Expr.erasedAll_eq_map]
  rcases args with _ | ⟨x, _ | ⟨y, more⟩⟩
  · rfl
  · cases x <;> rfl
  · simp [labelOf?]

mutual

/-- Places have no part in the names, the constants and the code of an expression. -/
theorem Expr.erased_spec (x : Expr)
    : x.erased.names = x.names
      ∧ x.erased.literals = x.literals
      ∧ (∀ l, x.erased.code l = x.code l)
      ∧ ∀ params, x.erased.WellFormed params ↔ x.WellFormed params := by
  cases x with
  | literal range value => exact ⟨rfl, rfl, fun _ => rfl, fun _ => Iff.rfl⟩
  | var range name => exact ⟨rfl, rfl, fun _ => rfl, fun _ => Iff.rfl⟩
  | attr range object field =>
      obtain ⟨names, literals, code, formed⟩ := Expr.erased_spec object
      simp [Expr.erased, Expr.names, Expr.literals, Expr.code, Expr.WellFormed, names, literals,
        code, formed]
  | call range callee calleeRange args =>
      obtain ⟨names, literals, code, formed⟩ := Expr.erasedAll_spec args
      have length : (Expr.erasedAll args).length = args.length := by
        rw [Expr.erasedAll_eq_map, List.length_map]
      simp [Expr.erased, Expr.names, Expr.literals, Expr.code, Expr.WellFormed, names, literals,
        code, formed, length, labelOf?_erasedAll]
  | tuple range items =>
      obtain ⟨names, literals, code, formed⟩ := Expr.erasedAll_spec items
      have length : (Expr.erasedAll items).length = items.length := by
        rw [Expr.erasedAll_eq_map, List.length_map]
      simp [Expr.erased, Expr.names, Expr.literals, Expr.code, Expr.WellFormed, names, literals,
        code, formed, length]
  | compare range op left right =>
      obtain ⟨names, literals, code, formed⟩ := Expr.erased_spec left
      obtain ⟨names', literals', code', formed'⟩ := Expr.erased_spec right
      simp [Expr.erased, Expr.names, Expr.literals, Expr.code, Expr.WellFormed, names, literals,
        code, formed, names', literals', code', formed']

/-- Places have no part in the names, the constants and the code of expressions. -/
theorem Expr.erasedAll_spec (xs : List Expr)
    : Expr.namesAll (Expr.erasedAll xs) = Expr.namesAll xs
      ∧ Expr.literalsAll (Expr.erasedAll xs) = Expr.literalsAll xs
      ∧ (∀ l, Expr.codeAll l (Expr.erasedAll xs) = Expr.codeAll l xs)
      ∧ ∀ params, Expr.WellFormedAll params (Expr.erasedAll xs)
        ↔ Expr.WellFormedAll params xs := by
  cases xs with
  | nil => exact ⟨rfl, rfl, fun _ => rfl, fun _ => Iff.rfl⟩
  | cons x rest =>
      obtain ⟨names, literals, code, formed⟩ := Expr.erased_spec x
      obtain ⟨names', literals', code', formed'⟩ := Expr.erasedAll_spec rest
      simp [Expr.erasedAll, Expr.namesAll, Expr.literalsAll, Expr.codeAll, Expr.WellFormedAll,
        names, literals, code, formed, names', literals', code', formed']

end

mutual

/-- Places have no part in the names, the constants and the code of a statement. -/
theorem Stmt.erased_spec (s : Stmt)
    : s.erased.names = s.names
      ∧ s.erased.literals = s.literals
      ∧ (∀ l start, s.erased.code l start = s.code l start)
      ∧ ∀ params isGenerator,
        s.erased.WellFormed params isGenerator ↔ s.WellFormed params isGenerator := by
  cases s with
  | assign range object field value =>
      obtain ⟨names, literals, code, formed⟩ := value.erased_spec
      obtain ⟨names', literals', code', formed'⟩ := object.erased_spec
      simp [Stmt.erased, Stmt.names, Stmt.literals, Stmt.code, Stmt.WellFormed, names, literals,
        code, formed, names', literals', code', formed']
  | giveBack range value =>
      cases value with
      | none => exact ⟨rfl, rfl, fun _ _ => rfl, fun _ _ => Iff.rfl⟩
      | some value =>
          obtain ⟨names, literals, code, formed⟩ := value.erased_spec
          simp [Stmt.erased, Stmt.names, Stmt.literals, Stmt.code, Stmt.WellFormed, names,
            literals, code, formed]
  | yield range value =>
      obtain ⟨names, literals, code, formed⟩ := value.erased_spec
      simp [Stmt.erased, Stmt.names, Stmt.literals, Stmt.code, Stmt.WellFormed, names, literals,
        code, formed]
  | branch range test thenBody elseBody =>
      obtain ⟨names, literals, code, formed⟩ := test.erased_spec
      obtain ⟨names', literals', code', formed'⟩ := Stmt.erasedAll_spec thenBody
      cases elseBody with
      | nil =>
          simp [Stmt.erased, Stmt.erasedAll, Stmt.names, Stmt.literals, Stmt.code,
            Stmt.WellFormed, names, literals, code, formed, names', literals', code', formed']
      | cons first rest =>
          obtain ⟨names'', literals'', code'', formed''⟩ := Stmt.erasedAll_spec (first :: rest)
          rw [Stmt.erasedAll] at names'' literals'' code'' formed''
          simp only [Stmt.erased, Stmt.erasedAll, Stmt.names, Stmt.literals, Stmt.code,
            Stmt.WellFormed, names, literals, code, formed, names', literals', code', formed',
            names'', literals'', code'', formed'', true_and, implies_true]
  | discard range value =>
      obtain ⟨names, literals, code, formed⟩ := value.erased_spec
      simp [Stmt.erased, Stmt.names, Stmt.literals, Stmt.code, Stmt.WellFormed, names, literals,
        code, formed]

/-- Places have no part in the names, the constants and the code of statements. -/
theorem Stmt.erasedAll_spec (ss : List Stmt)
    : Stmt.namesAll (Stmt.erasedAll ss) = Stmt.namesAll ss
      ∧ Stmt.literalsAll (Stmt.erasedAll ss) = Stmt.literalsAll ss
      ∧ (∀ l start, Stmt.codeAll l start (Stmt.erasedAll ss) = Stmt.codeAll l start ss)
      ∧ ∀ params isGenerator,
        Stmt.WellFormedAll params isGenerator (Stmt.erasedAll ss)
          ↔ Stmt.WellFormedAll params isGenerator ss := by
  cases ss with
  | nil => exact ⟨rfl, rfl, fun _ _ => rfl, fun _ _ => Iff.rfl⟩
  | cons s rest =>
      obtain ⟨names, literals, code, formed⟩ := Stmt.erased_spec s
      obtain ⟨names', literals', code', formed'⟩ := Stmt.erasedAll_spec rest
      simp [Stmt.erasedAll, Stmt.namesAll, Stmt.literalsAll, Stmt.codeAll, Stmt.WellFormedAll,
        names, literals, code, formed, names', literals', code', formed']

end

namespace Definition

theorem paramNames_erased (d : Definition) : d.erased.paramNames = d.paramNames := by
  simp [paramNames, erased, Param.erased]

theorem nameTable_erased (d : Definition) : d.erased.nameTable = d.nameTable :=
  congrArg (enterAll []) (Stmt.erasedAll_spec d.body).1

theorem constTable_erased (d : Definition) : d.erased.constTable = d.constTable :=
  congrArg (fun literals => enterAll [] (literals ++ [Literal.none]))
    (Stmt.erasedAll_spec d.body).2.1

theorem layout_erased (d : Definition) : d.erased.layout = d.layout := by
  rw [layout, layout, paramNames_erased, nameTable_erased, constTable_erased]

theorem bodyCode_erased (d : Definition) : d.erased.bodyCode = d.bodyCode := by
  rw [bodyCode, bodyCode, layout_erased]
  exact (Stmt.erasedAll_spec d.body).2.2.1 d.layout 0

/-- The program of a definition does not depend on places. -/
theorem program_erased (d : Definition) : d.erased.program = d.program := by
  simp only [program, paramNames_erased, nameTable_erased, constTable_erased, bodyCode_erased,
    layout_erased]
  rfl

/-- Whether a definition is accepted does not depend on places. -/
theorem accepted_erased_iff (d : Definition) : d.erased.Accepted ↔ d.Accepted := by
  have formed := (Stmt.erasedAll_spec d.body).2.2.2 d.paramNames d.isGenerator
  constructor
  · rintro ⟨distinct, params_le, wellFormed, names_le, consts_le, targetsFit⟩
    rw [paramNames_erased] at distinct params_le wellFormed
    rw [nameTable_erased] at names_le
    rw [constTable_erased] at consts_le
    rw [bodyCode_erased] at targetsFit
    exact ⟨distinct, params_le, formed.mp wellFormed, names_le, consts_le, targetsFit⟩
  · rintro ⟨distinct, params_le, wellFormed, names_le, consts_le, targetsFit⟩
    rw [← paramNames_erased] at distinct params_le formed
    rw [← nameTable_erased] at names_le
    rw [← constTable_erased] at consts_le
    rw [← bodyCode_erased] at targetsFit
    exact ⟨distinct, params_le, formed.mpr (paramNames_erased d ▸ wellFormed), names_le,
      consts_le, targetsFit⟩

end Definition

end Erasure

end Source

/-- Definitions that differ in places only compile to the same program. -/
theorem Program.ofDefinition_of_erased_eq {d d' : Source.Definition} {p : Program}
    (same : d'.erased = d.erased) (compiled : Program.ofDefinition d = .ok p)
    : Program.ofDefinition d' = .ok p := by
  obtain ⟨accepted, rfl⟩ := Program.ofDefinition_eq_ok_iff.mp compiled
  refine Program.ofDefinition_eq_ok_iff.mpr ⟨?_, ?_⟩
  · rw [← d'.accepted_erased_iff, same, d.accepted_erased_iff]
    exact accepted
  · rw [← d'.program_erased, same, d.program_erased]

namespace Source

-----------------------------------------------------------------------------------------
-- Other names for the identifiers
-----------------------------------------------------------------------------------------

mutual

/-- The expression with other names for its identifiers. -/
def Expr.renamed (f : String → String) : Expr → Expr
  | .literal range value => .literal range value
  | .var range name => .var range (f name)
  | .attr range object field => .attr range (object.renamed f) (f field)
  | .call range callee calleeRange args =>
      .call range (f callee) calleeRange (Expr.renamedAll f args)
  | .tuple range items => .tuple range (Expr.renamedAll f items)
  | .compare range op left right => .compare range op (left.renamed f) (right.renamed f)

/-- The expressions with other names for their identifiers. -/
def Expr.renamedAll (f : String → String) : List Expr → List Expr
  | [] => []
  | x :: xs => x.renamed f :: Expr.renamedAll f xs

end

mutual

/-- The statement with other names for its identifiers. -/
def Stmt.renamed (f : String → String) : Stmt → Stmt
  | .assign range object field value =>
      .assign range (object.renamed f) (f field) (value.renamed f)
  | .giveBack range none => .giveBack range none
  | .giveBack range (some value) => .giveBack range (some (value.renamed f))
  | .yield range value => .yield range (value.renamed f)
  | .branch range test thenBody elseBody =>
      .branch range (test.renamed f) (Stmt.renamedAll f thenBody) (Stmt.renamedAll f elseBody)
  | .discard range value => .discard range (value.renamed f)

/-- The statements with other names for their identifiers. -/
def Stmt.renamedAll (f : String → String) : List Stmt → List Stmt
  | [] => []
  | s :: ss => s.renamed f :: Stmt.renamedAll f ss

end

/-- The parameter with another name. -/
def Param.renamed (f : String → String) (p : Param) : Param :=
  ⟨f p.name, p.range⟩

/-- The definition with other names for the identifiers in its parameters and its body. -/
def Definition.renamed (f : String → String) (d : Definition) : Definition :=
  ⟨d.name, d.params.map (Param.renamed f), d.isGenerator, Stmt.renamedAll f d.body, d.range⟩

/-- The names that calls refer to keep their meaning. -/
structure KeepsCallees (f : String → String) : Prop where
  label : f "nameof" = "nameof"
  join : f "concat" = "concat"
  builtin : ∀ function : Builtin, f function.name = function.name

end Source

/-- Names and parameters have the same positions under their old and their new names. -/
structure Layout.Renames (f : String → String) (params names : List String) (l l' : Layout)
    : Prop where
  slot : ∀ name ∈ params, l'.slot (f name) = l.slot name
  name : ∀ name ∈ names, l'.name (f name) = l.name name
  const : ∀ value, l'.const value = l.const value

theorem Layout.Renames.mono {f : String → String} {params names fewer : List String}
    {l l' : Layout} (h : Layout.Renames f params names l l') (subset : fewer ⊆ names)
    : Layout.Renames f params fewer l l' :=
  ⟨h.slot, fun name member => h.name name (subset member), h.const⟩

namespace Source

-----------------------------------------------------------------------------------------
-- Where the new names stand in for the old ones, the code is the same
-----------------------------------------------------------------------------------------

section Renaming

variable {f : String → String} {params : List String}

theorem name_of_ofName? {callee : String} {function : Builtin}
    (known : Builtin.ofName? callee = some function)
    : function.name = callee := by
  simpa [Builtin.ofName?] using List.find?_some known

/-- A well-formed call keeps its callee. -/
theorem KeepsCallees.callee (keeps : KeepsCallees f) {range calleeRange : ByteRange}
    {callee : String} {args : List Expr}
    (formed : (Expr.call range callee calleeRange args).WellFormed params)
    : f callee = callee := by
  rcases formed with isLabel | ⟨⟨rfl, _⟩ | ⟨known, _⟩, _⟩
  · obtain ⟨name, label⟩ := Option.isSome_iff_exists.mp isLabel
    obtain ⟨rfl, _⟩ := labelOf?_cases label
    exact keeps.label
  · exact keeps.join
  · obtain ⟨function, builtin⟩ := Option.isSome_iff_exists.mp known
    rw [← name_of_ofName? builtin, keeps.builtin]

theorem Expr.renamedAll_eq_map (f : String → String) (xs : List Expr)
    : Expr.renamedAll f xs = xs.map (Expr.renamed f) := by
  induction xs with
  | nil => rfl
  | cons x rest ih => rw [Expr.renamedAll, ih, List.map_cons]

theorem Stmt.renamedAll_eq_map (f : String → String) (ss : List Stmt)
    : Stmt.renamedAll f ss = ss.map (Stmt.renamed f) := by
  induction ss with
  | nil => rfl
  | cons s rest ih => rw [Stmt.renamedAll, ih, List.map_cons]

theorem length_renamedAll (f : String → String) (xs : List Expr)
    : (Expr.renamedAll f xs).length = xs.length := by
  rw [Expr.renamedAll_eq_map, List.length_map]

theorem labelOf?_renamedAll (f : String → String) (callee : String) (args : List Expr)
    : labelOf? callee (Expr.renamedAll f args) = (labelOf? callee args).map f := by
  rcases args with _ | ⟨x, _ | ⟨y, more⟩⟩
  · rfl
  · cases x with
    | var range name =>
        simp only [Expr.renamedAll, Expr.renamed, labelOf?]
        split <;> rfl
    | literal _ _ => rfl
    | attr _ _ _ => rfl
    | call _ _ _ _ => rfl
    | tuple _ _ => rfl
    | compare _ _ _ _ => rfl
  · simp [Expr.renamedAll, labelOf?]

mutual

/-- A renamed expression is well-formed, enters the new names, and has the same code where the
new names stand in for the old ones, by recursion on the expression.
-/
theorem Expr.renamed_spec (keeps : KeepsCallees f) (x : Expr) (formed : x.WellFormed params)
    : (x.renamed f).names = x.names.map f
      ∧ (x.renamed f).literals = x.literals
      ∧ (x.renamed f).WellFormed (params.map f)
      ∧ ∀ l l', Layout.Renames f params x.names l l' → (x.renamed f).code l' = x.code l := by
  cases x with
  | literal range value =>
      exact ⟨rfl, rfl, trivial, fun l l' renames => by
        rw [Expr.renamed, Expr.code, Expr.code, renames.const]⟩
  | var range name =>
      exact ⟨rfl, rfl, List.mem_map_of_mem formed, fun l l' renames => by
        rw [Expr.renamed, Expr.code, Expr.code, renames.slot name formed]⟩
  | attr range object field =>
      obtain ⟨names, literals, wellFormed, code⟩ := Expr.renamed_spec keeps object formed
      refine ⟨by simp [Expr.renamed, Expr.names, names], literals, wellFormed, ?_⟩
      intro l l' renames
      have objectCode := code l l' (renames.mono (by simp [Expr.names]))
      rw [Expr.renamed, Expr.code, Expr.code, objectCode,
        renames.name field (by simp [Expr.names])]
  | call range callee calleeRange args =>
      have same := keeps.callee formed
      cases label : labelOf? callee args with
      | some name =>
          obtain ⟨_, varRange, rfl⟩ := labelOf?_cases label
          have newLabel := labelOf?_renamedAll f callee [.var varRange name]
          rw [label, Option.map_some] at newLabel
          refine ⟨?_, rfl, Or.inl ?_, ?_⟩
          · simp only [Expr.renamed, Expr.names, same, newLabel, label]
            rfl
          · rw [same, newLabel]
            rfl
          · intro l l' renames
            have position := renames.name name (by simp [Expr.names, label])
            simp only [Expr.renamed, Expr.code, same, newLabel, label, position]
      | none =>
          rcases formed with isLabel | ⟨allowed, argsFormed⟩
          · rw [label] at isLabel
            cases isLabel
          have newLabel := labelOf?_renamedAll f callee args
          rw [label, Option.map_none] at newLabel
          obtain ⟨names, literals, wellFormed, code⟩ := Expr.renamedAll_spec keeps args argsFormed
          refine ⟨?_, literals, Or.inr ⟨?_, wellFormed⟩, ?_⟩
          · simp only [Expr.renamed, Expr.names, same, newLabel, label, names]
            rfl
          · rw [same, length_renamedAll]
            exact allowed
          · intro l l' renames
            have argsCode := code l l' (renames.mono (by simp [Expr.names]))
            simp only [Expr.renamed, Expr.code, same, newLabel, label, argsCode,
              length_renamedAll]
  | tuple range items =>
      obtain ⟨fits, itemsFormed⟩ := formed
      obtain ⟨names, literals, wellFormed, code⟩ := Expr.renamedAll_spec keeps items itemsFormed
      refine ⟨names, literals, ⟨by rw [length_renamedAll]; exact fits, wellFormed⟩, ?_⟩
      intro l l' renames
      rw [Expr.renamed, Expr.code, Expr.code, code l l' renames, length_renamedAll]
  | compare range op left right =>
      obtain ⟨leftFormed, rightFormed⟩ := formed
      obtain ⟨names, literals, wellFormed, code⟩ := Expr.renamed_spec keeps left leftFormed
      obtain ⟨names', literals', wellFormed', code'⟩ := Expr.renamed_spec keeps right rightFormed
      refine ⟨?_, ?_, ⟨wellFormed, wellFormed'⟩, ?_⟩
      · simp [Expr.renamed, Expr.names, names, names']
      · simp [Expr.renamed, Expr.literals, literals, literals']
      · intro l l' renames
        have leftCode := code l l' (renames.mono (by simp [Expr.names]))
        have rightCode := code' l l' (renames.mono (by simp [Expr.names]))
        rw [Expr.renamed, Expr.code, Expr.code, leftCode, rightCode]

/-- Renamed expressions are well-formed, enter the new names, and have the same code where the
new names stand in for the old ones.
-/
theorem Expr.renamedAll_spec (keeps : KeepsCallees f) (xs : List Expr)
    (formed : Expr.WellFormedAll params xs)
    : Expr.namesAll (Expr.renamedAll f xs) = (Expr.namesAll xs).map f
      ∧ Expr.literalsAll (Expr.renamedAll f xs) = Expr.literalsAll xs
      ∧ Expr.WellFormedAll (params.map f) (Expr.renamedAll f xs)
      ∧ ∀ l l', Layout.Renames f params (Expr.namesAll xs) l l' →
        Expr.codeAll l' (Expr.renamedAll f xs) = Expr.codeAll l xs := by
  cases xs with
  | nil => exact ⟨rfl, rfl, trivial, fun _ _ _ => rfl⟩
  | cons x rest =>
      obtain ⟨headFormed, restFormed⟩ := formed
      obtain ⟨names, literals, wellFormed, code⟩ := Expr.renamed_spec keeps x headFormed
      obtain ⟨names', literals', wellFormed', code'⟩ := Expr.renamedAll_spec keeps rest restFormed
      refine ⟨?_, ?_, ⟨wellFormed, wellFormed'⟩, ?_⟩
      · simp [Expr.renamedAll, Expr.namesAll, names, names']
      · simp [Expr.renamedAll, Expr.literalsAll, literals, literals']
      · intro l l' renames
        have headCode := code l l' (renames.mono (by simp [Expr.namesAll]))
        have restCode := code' l l' (renames.mono (by simp [Expr.namesAll]))
        rw [Expr.renamedAll, Expr.codeAll, Expr.codeAll, headCode, restCode]

end

mutual

/-- A renamed statement is well-formed, enters the new names, and has the same code where the
new names stand in for the old ones, by recursion on the statement.
-/
theorem Stmt.renamed_spec (keeps : KeepsCallees f) (isGenerator : Bool) (s : Stmt)
    (formed : s.WellFormed params isGenerator)
    : (s.renamed f).names = s.names.map f
      ∧ (s.renamed f).literals = s.literals
      ∧ (s.renamed f).WellFormed (params.map f) isGenerator
      ∧ ∀ l l' start, Layout.Renames f params s.names l l' →
        (s.renamed f).code l' start = s.code l start := by
  cases s with
  | assign range object field value =>
      obtain ⟨valueFormed, objectFormed⟩ := formed
      obtain ⟨names, literals, wellFormed, code⟩ := value.renamed_spec keeps valueFormed
      obtain ⟨names', literals', wellFormed', code'⟩ := object.renamed_spec keeps objectFormed
      refine ⟨?_, ?_, ⟨wellFormed, wellFormed'⟩, ?_⟩
      · simp [Stmt.renamed, Stmt.names, names, names']
      · simp [Stmt.renamed, Stmt.literals, literals, literals']
      · intro l l' start renames
        have valueCode := code l l' (renames.mono (by simp [Stmt.names]))
        have objectCode := code' l l' (renames.mono (by simp [Stmt.names]))
        rw [Stmt.renamed, Stmt.code, Stmt.code, valueCode, objectCode,
          renames.name field (by simp [Stmt.names])]
  | giveBack range value =>
      cases value with
      | none =>
          exact ⟨rfl, rfl, trivial, fun l l' start renames => by
            rw [Stmt.renamed, Stmt.code, Stmt.code, renames.const]⟩
      | some value =>
          obtain ⟨names, literals, wellFormed, code⟩ := value.renamed_spec keeps formed
          refine ⟨names, literals, wellFormed, ?_⟩
          intro l l' start renames
          rw [Stmt.renamed, Stmt.code, Stmt.code, code l l' renames]
  | yield range value =>
      obtain ⟨generates, valueFormed⟩ := formed
      obtain ⟨names, literals, wellFormed, code⟩ := value.renamed_spec keeps valueFormed
      refine ⟨names, literals, ⟨generates, wellFormed⟩, ?_⟩
      intro l l' start renames
      rw [Stmt.renamed, Stmt.code, Stmt.code, code l l' renames]
  | branch range test thenBody elseBody =>
      obtain ⟨testFormed, thenFormed, elseFormed⟩ := formed
      obtain ⟨names, literals, wellFormed, code⟩ := test.renamed_spec keeps testFormed
      obtain ⟨names', literals', wellFormed', code'⟩ :=
        Stmt.renamedAll_spec keeps isGenerator thenBody thenFormed
      obtain ⟨names'', literals'', wellFormed'', code''⟩ :=
        Stmt.renamedAll_spec keeps isGenerator elseBody elseFormed
      refine ⟨?_, ?_, ⟨wellFormed, wellFormed', wellFormed''⟩, ?_⟩
      · simp [Stmt.renamed, Stmt.names, names, names', names'']
      · simp [Stmt.renamed, Stmt.literals, literals, literals', literals'']
      · intro l l' start renames
        have testCode := code l l' (renames.mono (by simp [Stmt.names]))
        have thenCode := fun from' => code' l l' from' (renames.mono (by simp [Stmt.names]))
        have elseCode := fun from' => code'' l l' from' (renames.mono (by simp [Stmt.names]))
        -- Code is laid out differently without an alternative.
        cases elseBody with
        | nil => simp only [Stmt.renamed, Stmt.renamedAll, Stmt.code, testCode, thenCode]
        | cons first rest =>
            rw [Stmt.renamedAll] at elseCode
            simp only [Stmt.renamed, Stmt.renamedAll, Stmt.code, testCode, thenCode, elseCode]
  | discard range value =>
      obtain ⟨names, literals, wellFormed, code⟩ := value.renamed_spec keeps formed
      refine ⟨names, literals, wellFormed, ?_⟩
      intro l l' start renames
      rw [Stmt.renamed, Stmt.code, Stmt.code, code l l' renames]

/-- Renamed statements are well-formed, enter the new names, and have the same code where the
new names stand in for the old ones.
-/
theorem Stmt.renamedAll_spec (keeps : KeepsCallees f) (isGenerator : Bool) (ss : List Stmt)
    (formed : Stmt.WellFormedAll params isGenerator ss)
    : Stmt.namesAll (Stmt.renamedAll f ss) = (Stmt.namesAll ss).map f
      ∧ Stmt.literalsAll (Stmt.renamedAll f ss) = Stmt.literalsAll ss
      ∧ Stmt.WellFormedAll (params.map f) isGenerator (Stmt.renamedAll f ss)
      ∧ ∀ l l' start, Layout.Renames f params (Stmt.namesAll ss) l l' →
        Stmt.codeAll l' start (Stmt.renamedAll f ss) = Stmt.codeAll l start ss := by
  cases ss with
  | nil => exact ⟨rfl, rfl, trivial, fun _ _ _ _ => rfl⟩
  | cons s rest =>
      obtain ⟨headFormed, restFormed⟩ := formed
      obtain ⟨names, literals, wellFormed, code⟩ :=
        Stmt.renamed_spec keeps isGenerator s headFormed
      obtain ⟨names', literals', wellFormed', code'⟩ :=
        Stmt.renamedAll_spec keeps isGenerator rest restFormed
      refine ⟨?_, ?_, ⟨wellFormed, wellFormed'⟩, ?_⟩
      · simp [Stmt.renamedAll, Stmt.namesAll, names, names']
      · simp [Stmt.renamedAll, Stmt.literalsAll, literals, literals']
      · intro l l' start renames
        have headCode := code l l' start (renames.mono (by simp [Stmt.namesAll]))
        have restCode := fun from' => code' l l' from' (renames.mono (by simp [Stmt.namesAll]))
        simp only [Stmt.renamedAll, Stmt.codeAll, headCode, restCode]

end

end Renaming

end Source

/-- The name that a list gives a member is found where the member is, if no other has it. -/
theorem idxOf_map {α β : Type} [DecidableEq α] [DecidableEq β] {f : α → β} {as : List α} {a : α}
    (injective : ∀ b ∈ as, f b = f a → b = a)
    : (as.map f).idxOf (f a) = as.idxOf a := by
  induction as with
  | nil => rfl
  | cons b rest ih =>
      have tail := ih (fun c member => injective c (List.mem_cons_of_mem b member))
      by_cases same : b = a
      · rw [same, List.map_cons, List.idxOf_cons_self, List.idxOf_cons_self]
      · have different : f b ≠ f a :=
          fun sameName => same (injective b List.mem_cons_self sameName)
        rw [List.map_cons, List.idxOf_cons_ne _ different, List.idxOf_cons_ne _ same, tail]

/-- The program with other names in its two tables of names. -/
def Program.renamed (f : String → String) (p : Program) : Program :=
  { p with params := p.params.map f, names := p.names.map f }

-----------------------------------------------------------------------------------------
-- Renaming that keeps distinct names distinct
-----------------------------------------------------------------------------------------

namespace Source.Definition

variable {f : String → String} {d : Definition}

theorem paramNames_renamed (f : String → String) (d : Definition)
    : (d.renamed f).paramNames = d.paramNames.map f := by
  simp [paramNames, renamed, Param.renamed, Function.comp_def]

/-- Where distinct names stay distinct, a definition with other names is accepted, and its
program is the old one with the other names in its tables.
-/
theorem Accepted.renamed (accepted : d.Accepted) (keeps : KeepsCallees f)
    (params : ∀ a ∈ d.paramNames, ∀ b ∈ d.paramNames, f a = f b → a = b)
    (names : ∀ a ∈ d.nameTable, ∀ b ∈ d.nameTable, f a = f b → a = b)
    : (d.renamed f).Accepted ∧ (d.renamed f).program = d.program.renamed f := by
  obtain ⟨bodyNames, literals, wellFormed, code⟩ :=
    Stmt.renamedAll_spec keeps d.isGenerator d.body accepted.wellFormed
  have member (name : String) : name ∈ d.nameTable ↔ name ∈ Stmt.namesAll d.body := by
    simp [nameTable, mem_enterAll]
  have paramNames := paramNames_renamed f d
  -- Names enter the table in the same order, and no two of them become one.
  have nameTable : (d.renamed f).nameTable = d.nameTable.map f := by
    unfold nameTable
    rw [Definition.renamed, bodyNames]
    have injective : ∀ a ∈ [] ++ Stmt.namesAll d.body, ∀ b ∈ [] ++ Stmt.namesAll d.body,
        f a = f b → a = b :=
      fun a inA b inB => names a ((member a).mpr inA) b ((member b).mpr inB)
    exact enterAll_map f injective
  have constTable : (d.renamed f).constTable = d.constTable := by
    unfold constTable
    rw [Definition.renamed, literals]
  have renames : Layout.Renames f d.paramNames (Stmt.namesAll d.body) d.layout
      (d.renamed f).layout := by
    unfold layout
    rw [paramNames, nameTable, constTable]
    refine ⟨?_, ?_, fun _ => rfl⟩
    · intro name isParam
      exact idxOf_map (fun b inB => params b inB name isParam)
    · intro name isName
      exact idxOf_map (fun b inB => names b inB name ((member name).mpr isName))
  have bodyCode : (d.renamed f).bodyCode = d.bodyCode := code _ _ 0 renames
  refine ⟨⟨?_, ?_, ?_, ?_, ?_, ?_⟩, ?_⟩
  · rw [paramNames]
    exact accepted.distinct.map_on params
  · rw [paramNames, List.length_map]
    exact accepted.params_le
  · rw [paramNames]
    exact wellFormed
  · rw [nameTable, List.length_map]
    exact accepted.names_le
  · exact constTable ▸ accepted.consts_le
  · exact bodyCode ▸ accepted.targetsFit
  · unfold program
    rw [paramNames, nameTable, constTable, bodyCode, renames.const]
    simp [Program.renamed, Definition.renamed]

end Source.Definition

end RecordSynth
