import RecordSynth.Proofs.Program.EmissionSteps

/-! Emission goes through exactly on the accepted definitions, and gives back the program that a
definition has by its layout. Both directions follow the trees, one case for each node.
-/

namespace RecordSynth

open Source

namespace Emission

/-- What a call calls is decided by its callee and its arguments alone. -/
theorem callOf_eq_ok_cases {range calleeRange : ByteRange} {callee : String}
    {args : List Expr} {call : Call} (h : callOf range callee calleeRange args = .ok call)
    : (∃ name, labelOf? callee args = some name ∧ call = .label name)
      ∨ (labelOf? callee args = none ∧ callee = "concat" ∧ call = .join)
      ∨ (∃ function,
          labelOf? callee args = none
          ∧ Builtin.ofName? callee = some function
          ∧ args.length = 1
          ∧ call = .builtin function) := by
  unfold callOf at h
  split at h
  · next isLabel =>
    rw [beq_iff_eq] at isLabel
    split at h
    · next range name =>
      cases h
      exact Or.inl ⟨name, by simp [labelOf?, isLabel], rfl⟩
    · cases h
  next notLabel =>
  rw [beq_iff_eq] at notLabel
  have unlabelled : labelOf? callee args = none := by
    unfold labelOf?
    split
    · rw [if_neg notLabel]
    · rfl
  split at h
  · next isJoin =>
    cases h
    exact Or.inr (Or.inl ⟨unlabelled, beq_iff_eq.mp isJoin, rfl⟩)
  split at h
  · cases h
  · next function known =>
    split at h
    · next single =>
      cases h
      exact Or.inr (Or.inr ⟨function, unlabelled, known, single, rfl⟩)
    · cases h

theorem callOf_of_label {callee name : String} {args : List Expr}
    (h : labelOf? callee args = some name) (range calleeRange : ByteRange)
    : callOf range callee calleeRange args = .ok (.label name) := by
  obtain ⟨rfl, varRange, rfl⟩ := labelOf?_cases h
  simp [callOf]

theorem ofName?_nameof : Builtin.ofName? "nameof" = none := by
  decide

theorem ofName?_concat : Builtin.ofName? "concat" = none := by
  decide

theorem callOf_concat (range calleeRange : ByteRange) (args : List Expr)
    : callOf range "concat" calleeRange args = .ok .join := by
  simp [callOf]

theorem callOf_builtin {callee : String} {function : Builtin}
    (known : Builtin.ofName? callee = some function) {args : List Expr}
    (single : args.length = 1) (range calleeRange : ByteRange)
    : callOf range callee calleeRange args = .ok (.builtin function) := by
  have notLabel : callee ≠ "nameof" := by
    rintro rfl
    exact nomatch ofName?_nameof.symm.trans known
  have notJoin : callee ≠ "concat" := by
    rintro rfl
    exact nomatch ofName?_concat.symm.trans known
  simp [callOf, notLabel, notJoin, known, single]

theorem callInstr_concat (count : Nat) : callInstr "concat" count = .buildString count :=
  rfl

theorem callInstr_builtin {callee : String} {function : Builtin}
    (known : Builtin.ofName? callee = some function) (count : Nat)
    : callInstr callee count = .callBuiltin function := by
  simp [callInstr, known]

/-- The argument of a call that spells out a name enters nothing else. -/
theorem namesAll_of_label {callee name : String} {args : List Expr}
    (h : labelOf? callee args = some name)
    : Expr.namesAll args = [] ∧ Expr.literalsAll args = [] := by
  obtain ⟨_, varRange, rfl⟩ := labelOf?_cases h
  exact ⟨rfl, rfl⟩

-----------------------------------------------------------------------------------------
-- What is emitted is well-formed and adds what the layout says
-----------------------------------------------------------------------------------------

mutual

/-- An expression that is emitted is well-formed and adds its names, constants and code, by
recursion on the expression.
-/
theorem expr_adds (params : Params) (e : Emission) (x : Expr) (e' : Emission)
    (h : expr params e x = .ok e')
    : x.WellFormed params.toList
      ∧ Adds params.toList e e' x.names x.literals (fun l => x.code l) := by
  cases x with
  | literal range value => exact ⟨trivial, adds_emitConst h⟩
  | var range name =>
      rw [expr] at h
      split at h
      · next slot found =>
        cases h
        obtain ⟨present, position⟩ := Roster.position?_eq_some_iff_idxOf.mp found
        refine ⟨present, (adds_emit _ e (.loadParam slot)).congr_code ?_⟩
        intro l reads
        rw [Expr.code, reads.slot name present, position]
      · cases h
  | attr range object field =>
      rw [expr] at h
      obtain ⟨e₁, first, second⟩ := bind_eq_ok.mp h
      obtain ⟨wellFormed, adds⟩ := expr_adds params e object e₁ first
      refine ⟨wellFormed, ?_⟩
      simpa only [Expr.names, Expr.literals, List.append_nil, Expr.code]
        using adds.trans (adds_emitWithName second)
  | call range callee calleeRange args =>
      rw [expr] at h
      obtain ⟨call, known, second⟩ := bind_eq_ok.mp h
      rcases callOf_eq_ok_cases known with
        ⟨name, label, rfl⟩ | ⟨unlabelled, rfl, rfl⟩ |
          ⟨function, unlabelled, builtin, single, rfl⟩
      · obtain ⟨noNames, noLiterals⟩ := namesAll_of_label label
        refine ⟨Or.inl (by simp [label]), ?_⟩
        simpa only [Expr.names, Expr.literals, Expr.code, label, noNames, noLiterals,
          Option.toList_some, List.append_nil] using adds_emitWithName second
      · obtain ⟨e₁, first, last⟩ := bind_eq_ok.mp second
        obtain ⟨fits, rfl⟩ := emitCount_eq_ok_iff.mp last
        obtain ⟨wellFormed, adds⟩ := exprs_adds params e args e₁ first
        refine ⟨Or.inr ⟨Or.inl ⟨rfl, fits⟩, wellFormed⟩, ?_⟩
        simpa only [Expr.names, Expr.literals, Expr.code, unlabelled, Option.toList_none,
          List.nil_append, List.append_nil, callInstr_concat]
          using adds.trans (adds_emit _ e₁ (.buildString args.length))
      · obtain ⟨e₁, first, last⟩ := bind_eq_ok.mp second
        cases last
        obtain ⟨wellFormed, adds⟩ := exprs_adds params e args e₁ first
        refine ⟨Or.inr ⟨Or.inr ⟨by simp [builtin], single⟩, wellFormed⟩, ?_⟩
        simpa only [Expr.names, Expr.literals, Expr.code, unlabelled, Option.toList_none,
          List.nil_append, List.append_nil, callInstr_builtin builtin]
          using adds.trans (adds_emit _ e₁ (.callBuiltin function))
  | tuple range items =>
      rw [expr] at h
      obtain ⟨e₁, first, last⟩ := bind_eq_ok.mp h
      obtain ⟨fits, rfl⟩ := emitCount_eq_ok_iff.mp last
      obtain ⟨wellFormed, adds⟩ := exprs_adds params e items e₁ first
      refine ⟨⟨fits, wellFormed⟩, ?_⟩
      simpa only [Expr.names, Expr.literals, Expr.code, List.append_nil]
        using adds.trans (adds_emit _ e₁ (.buildTuple items.length))
  | compare range op left right =>
      rw [expr] at h
      obtain ⟨e₁, first, rest⟩ := bind_eq_ok.mp h
      obtain ⟨e₂, second, last⟩ := bind_eq_ok.mp rest
      cases last
      obtain ⟨leftFormed, leftAdds⟩ := expr_adds params e left e₁ first
      obtain ⟨rightFormed, rightAdds⟩ := expr_adds params e₁ right e₂ second
      refine ⟨⟨leftFormed, rightFormed⟩, ?_⟩
      simpa only [Expr.names, Expr.literals, Expr.code, List.append_nil]
        using leftAdds.trans (rightAdds.trans (adds_emit _ e₂ (.compare op)))

/-- Expressions that are emitted in order are well-formed and add what each of them adds. -/
theorem exprs_adds (params : Params) (e : Emission) (xs : List Expr) (e' : Emission)
    (h : exprs params e xs = .ok e')
    : Expr.WellFormedAll params.toList xs
      ∧ Adds params.toList e e' (Expr.namesAll xs) (Expr.literalsAll xs)
          (fun l => Expr.codeAll l xs) := by
  cases xs with
  | nil =>
      cases h
      exact ⟨trivial, Adds.refl _ e⟩
  | cons x rest =>
      rw [exprs] at h
      obtain ⟨e₁, first, second⟩ := bind_eq_ok.mp h
      obtain ⟨headFormed, headAdds⟩ := expr_adds params e x e₁ first
      obtain ⟨restFormed, restAdds⟩ := exprs_adds params e₁ rest e' second
      exact ⟨⟨headFormed, restFormed⟩, headAdds.trans restAdds⟩

end

section Branches

variable {params : List String} {e e₁ e₂ e₃ e₄ e' : Emission} {range : ByteRange} {test : Expr}
variable {thenBody : List Stmt}

/-- A branch without an alternative adds what its test and its body add, if the place behind it
can be a target.
-/
theorem branch_adds
    (testAdds : Adds params e e₁ test.names test.literals (fun l => test.code l))
    (thenAdds : Adds params (e₁.emit (.jumpIfFalse e₁.code.size)) e₂ (Stmt.namesAll thenBody)
      (Stmt.literalsAll thenBody)
      (fun l => Stmt.codeAll l (e₁.emit (.jumpIfFalse e₁.code.size)).code.size thenBody))
    (thenFits : ∀ l : Layout, l.Reads params e₂ →
      TargetsFit (Stmt.codeAll l (e₁.emit (.jumpIfFalse e₁.code.size)).code.size thenBody))
    (patched : e₂.patchHere e₁.code.size range = .ok e')
    : let s := Stmt.branch range test thenBody []
      Adds params e e' s.names s.literals (fun l => s.code l e.code.size)
      ∧ ∀ l : Layout, l.Reads params e' → TargetsFit (s.code l e.code.size) := by
  intro s
  obtain ⟨below, rfl⟩ := patchHere_eq_ok_iff.mp patched
  refine ⟨?_, ?_⟩
  · simp only [s, Stmt.names, Stmt.literals, Stmt.namesAll, Stmt.literalsAll, List.append_nil]
    refine (testAdds.branch thenAdds).congr_code ?_
    intro l reads
    rw [testAdds.start_body thenAdds (reads.of_tables rfl rfl)]
    rfl
  · intro l reads
    have early : l.Reads params e₂ := reads.of_tables rfl rfl
    have fits := thenFits l early
    rw [testAdds.start_body thenAdds early] at fits
    rw [testAdds.end_body thenAdds early, testAdds.start_body thenAdds early] at below
    refine targetsFit_append.mpr ⟨Expr.targetsFit_code l test, ?_⟩
    exact targetsFit_cons.mpr ⟨fun _ isTarget => Option.mem_some.mp isTarget ▸ below, fits⟩

/-- A branch with an alternative adds what its three parts add, if the alternative and the place
behind it can be targets.
-/
theorem branch_else_adds {first : Stmt} {others : List Stmt}
    (testAdds : Adds params e e₁ test.names test.literals (fun l => test.code l))
    (thenAdds : Adds params (e₁.emit (.jumpIfFalse e₁.code.size)) e₂ (Stmt.namesAll thenBody)
      (Stmt.literalsAll thenBody)
      (fun l => Stmt.codeAll l (e₁.emit (.jumpIfFalse e₁.code.size)).code.size thenBody))
    (thenFits : ∀ l : Layout, l.Reads params e₂ →
      TargetsFit (Stmt.codeAll l (e₁.emit (.jumpIfFalse e₁.code.size)).code.size thenBody))
    (patchedThen
      : (e₂.emit (.jump e₂.code.size)).patchHere e₁.code.size range = .ok e₃)
    (elseAdds : Adds params e₃ e₄ (Stmt.namesAll (first :: others))
      (Stmt.literalsAll (first :: others))
      (fun l => Stmt.codeAll l e₃.code.size (first :: others)))
    (elseFits : ∀ l : Layout, l.Reads params e₄ →
      TargetsFit (Stmt.codeAll l e₃.code.size (first :: others)))
    (patchedElse : e₄.patchHere e₂.code.size range = .ok e')
    : let s := Stmt.branch range test thenBody (first :: others)
      Adds params e e' s.names s.literals (fun l => s.code l e.code.size)
      ∧ ∀ l : Layout, l.Reads params e' → TargetsFit (s.code l e.code.size) := by
  intro s
  obtain ⟨below₂, rfl⟩ := patchHere_eq_ok_iff.mp patchedThen
  obtain ⟨below₄, rfl⟩ := patchHere_eq_ok_iff.mp patchedElse
  have size₂ : (e₂.emit (.jump e₂.code.size)).code.size = e₂.code.size + 1 := by
    simp [emit]
  rw [size₂] at below₂ elseAdds elseFits
  rw [size_patch, size₂] at elseAdds elseFits
  refine ⟨?_, ?_⟩
  · refine (testAdds.branch_else thenAdds elseAdds).congr_code ?_
    intro l reads
    have late : l.Reads params e₄ := reads.of_tables rfl rfl
    have early : l.Reads params e₂ := (elseAdds.reads late).of_tables rfl rfl
    rw [testAdds.end_body thenAdds early, testAdds.start_body thenAdds early]
    rfl
  · -- Both jumps were checked against the code as it was then; what the limits say has to be
    -- read off the final layout.
    intro l reads
    have late : l.Reads params e₄ := reads.of_tables rfl rfl
    have early : l.Reads params e₂ := (elseAdds.reads late).of_tables rfl rfl
    have thenFits := thenFits l early
    have elseFits := elseFits l late
    have end₄ := elseAdds.size_code late
    rw [size_patch, size₂] at end₄
    rw [end₄] at below₄
    rw [testAdds.end_body thenAdds early, testAdds.start_body thenAdds early]
      at below₂ below₄ elseFits
    rw [testAdds.start_body thenAdds early] at thenFits
    refine targetsFit_append.mpr ⟨Expr.targetsFit_code l test, ?_⟩
    refine targetsFit_cons.mpr ⟨fun _ isTarget => Option.mem_some.mp isTarget ▸ below₂, ?_⟩
    refine targetsFit_append.mpr ⟨thenFits, ?_⟩
    exact targetsFit_cons.mpr ⟨fun _ isTarget => Option.mem_some.mp isTarget ▸ below₄, elseFits⟩

end Branches

mutual

/-- A statement that is emitted is well-formed, adds its names, constants and code, and jumps
within the limit, by recursion on the statement.
-/
theorem stmt_adds (params : Params) (isGenerator : Bool) (e : Emission) (s : Stmt)
    (e' : Emission) (h : stmt params isGenerator e s = .ok e')
    : s.WellFormed params.toList isGenerator
      ∧ Adds params.toList e e' s.names s.literals (fun l => s.code l e.code.size)
      ∧ ∀ l : Layout, l.Reads params.toList e' → TargetsFit (s.code l e.code.size) := by
  cases s with
  | assign range object field value =>
      rw [stmt] at h
      obtain ⟨e₁, first, rest⟩ := bind_eq_ok.mp h
      obtain ⟨e₂, second, last⟩ := bind_eq_ok.mp rest
      obtain ⟨valueFormed, valueAdds⟩ := expr_adds params e value e₁ first
      obtain ⟨objectFormed, objectAdds⟩ := expr_adds params e₁ object e₂ second
      refine ⟨⟨valueFormed, objectFormed⟩, ?_, ?_⟩
      · simpa only [Stmt.names, Stmt.literals, Stmt.code, List.append_nil]
          using valueAdds.trans (objectAdds.trans (adds_emitWithName last))
      · intro l _
        refine targetsFit_append.mpr ⟨Expr.targetsFit_code l value, ?_⟩
        exact targetsFit_append.mpr ⟨Expr.targetsFit_code l object, targetsFit_singleton rfl⟩
  | giveBack range value =>
      cases value with
      | none =>
          rw [stmt] at h
          obtain ⟨e₁, first, last⟩ := bind_eq_ok.mp h
          cases last
          refine ⟨trivial, ?_, ?_⟩
          · simpa only [Stmt.names, Stmt.literals, Stmt.code, List.append_nil,
              List.singleton_append] using (adds_emitConst first).trans (adds_emit _ e₁ .giveBack)
          · intro l _
            exact targetsFit_cons.mpr
              ⟨fun _ isTarget => (nomatch isTarget), targetsFit_singleton rfl⟩
      | some value =>
          rw [stmt] at h
          obtain ⟨e₁, first, last⟩ := bind_eq_ok.mp h
          cases last
          obtain ⟨wellFormed, adds⟩ := expr_adds params e value e₁ first
          refine ⟨wellFormed, ?_, ?_⟩
          · simpa only [Stmt.names, Stmt.literals, Stmt.code, List.append_nil]
              using adds.trans (adds_emit _ e₁ .giveBack)
          · intro l _
            exact targetsFit_append.mpr ⟨Expr.targetsFit_code l value, targetsFit_singleton rfl⟩
  | yield range value =>
      rw [stmt] at h
      cases isGenerator with
      | false => cases h
      | true =>
          obtain ⟨e₁, first, last⟩ := bind_eq_ok.mp h
          cases last
          obtain ⟨wellFormed, adds⟩ := expr_adds params e value e₁ first
          refine ⟨⟨rfl, wellFormed⟩, ?_, ?_⟩
          · simpa only [Stmt.names, Stmt.literals, Stmt.code, List.append_nil]
              using adds.trans (adds_emit _ e₁ .yield)
          · intro l _
            exact targetsFit_append.mpr ⟨Expr.targetsFit_code l value, targetsFit_singleton rfl⟩
  | branch range test thenBody elseBody =>
      rw [stmt] at h
      obtain ⟨e₁, first, rest⟩ := bind_eq_ok.mp h
      obtain ⟨e₃, second, last⟩ := bind_eq_ok.mp rest
      obtain ⟨testFormed, testAdds⟩ := expr_adds params e test e₁ first
      obtain ⟨thenFormed, thenAdds, thenFits⟩ :=
        stmts_adds params isGenerator _ thenBody e₃ second
      cases elseBody with
      | nil =>
          exact ⟨⟨testFormed, thenFormed, trivial⟩, branch_adds testAdds thenAdds thenFits last⟩
      | cons firstElse restElse =>
          obtain ⟨e₅, third, rest⟩ := bind_eq_ok.mp last
          obtain ⟨e₆, fourth, last⟩ := bind_eq_ok.mp rest
          obtain ⟨elseFormed, elseAdds, elseFits⟩ :=
            stmts_adds params isGenerator _ (firstElse :: restElse) e₆ fourth
          exact ⟨⟨testFormed, thenFormed, elseFormed⟩,
            branch_else_adds testAdds thenAdds thenFits third elseAdds elseFits last⟩
  | discard range value =>
      rw [stmt] at h
      obtain ⟨e₁, first, last⟩ := bind_eq_ok.mp h
      cases last
      obtain ⟨wellFormed, adds⟩ := expr_adds params e value e₁ first
      refine ⟨wellFormed, ?_, ?_⟩
      · simpa only [Stmt.names, Stmt.literals, Stmt.code, List.append_nil]
          using adds.trans (adds_emit _ e₁ .pop)
      · intro l _
        exact targetsFit_append.mpr ⟨Expr.targetsFit_code l value, targetsFit_singleton rfl⟩

/-- Statements that are emitted in order are well-formed, and add what each of them adds. -/
theorem stmts_adds (params : Params) (isGenerator : Bool) (e : Emission) (ss : List Stmt)
    (e' : Emission) (h : stmts params isGenerator e ss = .ok e')
    : Stmt.WellFormedAll params.toList isGenerator ss
      ∧ Adds params.toList e e' (Stmt.namesAll ss) (Stmt.literalsAll ss)
          (fun l => Stmt.codeAll l e.code.size ss)
      ∧ ∀ l : Layout, l.Reads params.toList e' → TargetsFit (Stmt.codeAll l e.code.size ss) := by
  cases ss with
  | nil =>
      cases h
      exact ⟨trivial, Adds.refl _ e, fun l _ => by simp [Stmt.codeAll, TargetsFit]⟩
  | cons s rest =>
      rw [stmts] at h
      obtain ⟨e₁, first, second⟩ := bind_eq_ok.mp h
      obtain ⟨headFormed, headAdds, headFits⟩ := stmt_adds params isGenerator e s e₁ first
      obtain ⟨restFormed, restAdds, restFits⟩ :=
        stmts_adds params isGenerator e₁ rest e' second
      refine ⟨⟨headFormed, restFormed⟩, ?_, ?_⟩
      · refine (headAdds.trans restAdds).congr_code ?_
        intro l reads
        simp only [Stmt.codeAll, headAdds.size_code (restAdds.reads reads)]
      · intro l reads
        have tailFits := restFits l reads
        rw [headAdds.size_code (restAdds.reads reads)] at tailFits
        simp only [Stmt.codeAll, targetsFit_append]
        exact ⟨headFits l (restAdds.reads reads), tailFits⟩

end

-----------------------------------------------------------------------------------------
-- What is well-formed is emitted, if there is room for it
-----------------------------------------------------------------------------------------

mutual

/-- A well-formed expression is emitted if its names and constants fit into the tables. -/
theorem expr_succeeds (params : Params) (e : Emission) (x : Expr)
    (formed : x.WellFormed params.toList) (fits : e.Fits x.names x.literals)
    : ∃ e', expr params e x = .ok e' := by
  cases x with
  | literal range value =>
      rw [expr]
      exact emitConst_succeeds range fits
  | var range name =>
      have found := Roster.position?_eq_some_iff_idxOf.mpr ⟨formed, rfl⟩
      exact ⟨_, by rw [expr, found]⟩
  | attr range object field =>
      rw [Expr.names, Expr.literals, ← List.append_nil object.literals] at fits
      obtain ⟨e₁, first⟩ := expr_succeeds params e object formed fits.left
      obtain ⟨_, adds⟩ := expr_adds params e object e₁ first
      obtain ⟨e₂, second⟩ := emitWithName_succeeds .loadAttr range (fits.right adds)
      exact ⟨e₂, by rw [expr, first]; exact second⟩
  | call range callee calleeRange args =>
      rw [expr]
      cases label : labelOf? callee args with
      | some name =>
          obtain ⟨noNames, noLiterals⟩ := namesAll_of_label label
          rw [Expr.names, Expr.literals, label, noNames, noLiterals] at fits
          rw [callOf_of_label label]
          exact emitWithName_succeeds .loadName range fits
      | none =>
          have argsFit : e.Fits (Expr.namesAll args) (Expr.literalsAll args) := by
            simpa only [Expr.names, Expr.literals, label, Option.toList_none, List.nil_append]
              using fits
          rcases formed with isLabel | ⟨allowed, argsFormed⟩
          · rw [label] at isLabel
            cases isLabel
          obtain ⟨e₁, first⟩ := exprs_succeeds params e args argsFormed argsFit
          rcases allowed with ⟨rfl, below⟩ | ⟨known, single⟩
          · rw [callOf_concat]
            refine ⟨e₁.emit (.buildString args.length), ?_⟩
            exact bind_eq_ok.mpr ⟨_, rfl,
              bind_eq_ok.mpr ⟨e₁, first, emitCount_eq_ok_iff.mpr ⟨below, rfl⟩⟩⟩
          · obtain ⟨function, builtin⟩ := Option.isSome_iff_exists.mp known
            rw [callOf_builtin builtin single]
            refine ⟨e₁.emit (.callBuiltin function), ?_⟩
            exact bind_eq_ok.mpr ⟨_, rfl, bind_eq_ok.mpr ⟨e₁, first, rfl⟩⟩
  | tuple range items =>
      obtain ⟨below, itemsFormed⟩ := formed
      obtain ⟨e₁, first⟩ := exprs_succeeds params e items itemsFormed fits
      refine ⟨e₁.emit (.buildTuple items.length), ?_⟩
      rw [expr]
      exact bind_eq_ok.mpr ⟨e₁, first, emitCount_eq_ok_iff.mpr ⟨below, rfl⟩⟩
  | compare range op left right =>
      obtain ⟨leftFormed, rightFormed⟩ := formed
      obtain ⟨e₁, first⟩ := expr_succeeds params e left leftFormed fits.left
      obtain ⟨_, adds⟩ := expr_adds params e left e₁ first
      obtain ⟨e₂, second⟩ := expr_succeeds params e₁ right rightFormed (fits.right adds)
      refine ⟨e₂.emit (.compare op), ?_⟩
      rw [expr]
      exact bind_eq_ok.mpr ⟨e₁, first, bind_eq_ok.mpr ⟨e₂, second, rfl⟩⟩

/-- Well-formed expressions are emitted if their names and constants fit into the tables. -/
theorem exprs_succeeds (params : Params) (e : Emission) (xs : List Expr)
    (formed : Expr.WellFormedAll params.toList xs)
    (fits : e.Fits (Expr.namesAll xs) (Expr.literalsAll xs))
    : ∃ e', exprs params e xs = .ok e' := by
  cases xs with
  | nil => exact ⟨e, rfl⟩
  | cons x rest =>
      obtain ⟨headFormed, restFormed⟩ := formed
      obtain ⟨e₁, first⟩ := expr_succeeds params e x headFormed fits.left
      obtain ⟨_, adds⟩ := expr_adds params e x e₁ first
      obtain ⟨e₂, second⟩ := exprs_succeeds params e₁ rest restFormed (fits.right adds)
      refine ⟨e₂, ?_⟩
      rw [exprs]
      exact bind_eq_ok.mpr ⟨e₁, first, second⟩

end

mutual

/-- A well-formed statement is emitted if its names and constants fit into the tables and its
jumps stay within the limit.
-/
theorem stmt_succeeds (params : Params) (isGenerator : Bool) (e : Emission) (s : Stmt)
    (formed : s.WellFormed params.toList isGenerator) (fits : e.Fits s.names s.literals)
    (l : Layout) (jumps : TargetsFit (s.code l e.code.size))
    : ∃ e', stmt params isGenerator e s = .ok e' := by
  cases s with
  | assign range object field value =>
      obtain ⟨valueFormed, objectFormed⟩ := formed
      rw [Stmt.names, Stmt.literals, ← List.append_nil object.literals] at fits
      obtain ⟨e₁, first⟩ := expr_succeeds params e value valueFormed fits.left
      obtain ⟨_, valueAdds⟩ := expr_adds params e value e₁ first
      have rest := fits.right valueAdds
      obtain ⟨e₂, second⟩ := expr_succeeds params e₁ object objectFormed rest.left
      obtain ⟨_, objectAdds⟩ := expr_adds params e₁ object e₂ second
      obtain ⟨e₃, third⟩ := emitWithName_succeeds .storeAttr range (rest.right objectAdds)
      refine ⟨e₃, ?_⟩
      rw [stmt]
      exact bind_eq_ok.mpr ⟨e₁, first, bind_eq_ok.mpr ⟨e₂, second, third⟩⟩
  | giveBack range value =>
      cases value with
      | none =>
          obtain ⟨e₁, first⟩ := emitConst_succeeds range fits
          refine ⟨e₁.emit .giveBack, ?_⟩
          rw [stmt]
          exact bind_eq_ok.mpr ⟨e₁, first, rfl⟩
      | some value =>
          obtain ⟨e₁, first⟩ := expr_succeeds params e value formed fits
          refine ⟨e₁.emit .giveBack, ?_⟩
          rw [stmt]
          exact bind_eq_ok.mpr ⟨e₁, first, rfl⟩
  | yield range value =>
      obtain ⟨rfl, valueFormed⟩ := formed
      obtain ⟨e₁, first⟩ := expr_succeeds params e value valueFormed fits
      refine ⟨e₁.emit .yield, ?_⟩
      rw [stmt]
      exact bind_eq_ok.mpr ⟨e₁, first, rfl⟩
  | branch range test thenBody elseBody =>
      obtain ⟨testFormed, thenFormed, elseFormed⟩ := formed
      obtain ⟨e₁, first⟩ := expr_succeeds params e test testFormed fits.left
      obtain ⟨_, testAdds⟩ := expr_adds params e test e₁ first
      have size₁ := testAdds.size_of_length (fun l l' => Expr.length_code l l' test) l
      have start : (e₁.emit (.jumpIfFalse e₁.code.size)).code.size
          = e.code.size + (test.code l).length + 1 := by
        simp [emit, size₁]
      have fits₁ := fits.right testAdds
      have bodiesFit : (e₁.emit (.jumpIfFalse e₁.code.size)).Fits
          (Stmt.namesAll thenBody ++ Stmt.namesAll elseBody)
          (Stmt.literalsAll thenBody ++ Stmt.literalsAll elseBody) :=
        ⟨fits₁.names, fits₁.consts⟩
      -- The limits are those of the code by any layout, since its length depends on none.
      have thenJumps : TargetsFit (Stmt.codeAll l
          (e₁.emit (.jumpIfFalse e₁.code.size)).code.size thenBody) := by
        rw [start]
        cases elseBody <;> simp only [Stmt.code, targetsFit_append, targetsFit_cons] at jumps
        · exact jumps.2.2
        · exact jumps.2.2.1
      obtain ⟨e₂, second⟩ :=
        stmts_succeeds params isGenerator _ thenBody thenFormed bodiesFit.left l thenJumps
      obtain ⟨_, thenAdds, _⟩ := stmts_adds params isGenerator _ thenBody e₂ second
      have size₂ := thenAdds.size_of_length (fun l l' => Stmt.length_codeAll l l' _ thenBody) l
      rw [start] at size₂
      cases elseBody with
      | nil =>
          simp only [Stmt.code, targetsFit_append, targetsFit_cons] at jumps
          obtain ⟨_, below, _⟩ := jumps
          refine ⟨e₂.patch e₁.code.size e₂.code.size, ?_⟩
          rw [stmt]
          refine bind_eq_ok.mpr ⟨e₁, first, bind_eq_ok.mpr ⟨e₂, second, ?_⟩⟩
          exact patchHere_eq_ok_iff.mpr ⟨size₂ ▸ below _ rfl, rfl⟩
      | cons firstElse restElse =>
          simp only [Stmt.code, targetsFit_append, targetsFit_cons] at jumps
          obtain ⟨_, below₃, _, below₅, elseJumps⟩ := jumps
          have size₃ : (e₂.emit (.jump e₂.code.size)).code.size = e₂.code.size + 1 := by
            simp [emit]
          have below₃' := below₃ _ rfl
          rw [← size₂, ← size₃] at below₃'
          have elseFits := bodiesFit.right thenAdds
          let e₃ := (e₂.emit (.jump e₂.code.size)).patch e₁.code.size
            (e₂.emit (.jump e₂.code.size)).code.size
          have size₄ : e₃.code.size = e₂.code.size + 1 := by
            simp only [e₃, size_patch, size₃]
          rw [← size₂, ← size₄] at elseJumps below₅
          obtain ⟨e₅, fourth⟩ :=
            stmts_succeeds params isGenerator e₃ (firstElse :: restElse) elseFormed
              ⟨elseFits.names, elseFits.consts⟩ l elseJumps
          obtain ⟨_, elseAdds, _⟩ := stmts_adds params isGenerator e₃ _ e₅ fourth
          have size₅ := elseAdds.size_of_length
            (fun l l' => Stmt.length_codeAll l l' _ (firstElse :: restElse)) l
          refine ⟨e₅.patch e₂.code.size e₅.code.size, ?_⟩
          rw [stmt]
          refine bind_eq_ok.mpr ⟨e₁, first, bind_eq_ok.mpr ⟨e₂, second, ?_⟩⟩
          refine bind_eq_ok.mpr ⟨e₃, patchHere_eq_ok_iff.mpr ⟨below₃', rfl⟩, ?_⟩
          refine bind_eq_ok.mpr ⟨e₅, fourth, patchHere_eq_ok_iff.mpr ⟨?_, rfl⟩⟩
          exact size₅ ▸ below₅ _ rfl
  | discard range value =>
      obtain ⟨e₁, first⟩ := expr_succeeds params e value formed fits
      refine ⟨e₁.emit .pop, ?_⟩
      rw [stmt]
      exact bind_eq_ok.mpr ⟨e₁, first, rfl⟩

/-- Well-formed statements are emitted if what they enter fits into the tables and their jumps
stay within the limit.
-/
theorem stmts_succeeds (params : Params) (isGenerator : Bool) (e : Emission) (ss : List Stmt)
    (formed : Stmt.WellFormedAll params.toList isGenerator ss)
    (fits : e.Fits (Stmt.namesAll ss) (Stmt.literalsAll ss))
    (l : Layout) (jumps : TargetsFit (Stmt.codeAll l e.code.size ss))
    : ∃ e', stmts params isGenerator e ss = .ok e' := by
  cases ss with
  | nil => exact ⟨e, rfl⟩
  | cons s rest =>
      obtain ⟨headFormed, restFormed⟩ := formed
      simp only [Stmt.codeAll, targetsFit_append] at jumps
      obtain ⟨headJumps, restJumps⟩ := jumps
      obtain ⟨e₁, first⟩ :=
        stmt_succeeds params isGenerator e s headFormed fits.left l headJumps
      obtain ⟨_, adds, _⟩ := stmt_adds params isGenerator e s e₁ first
      have size₁ := adds.size_of_length (fun l l' => Stmt.length_code l l' _ s) l
      obtain ⟨e₂, second⟩ :=
        stmts_succeeds params isGenerator e₁ rest restFormed (fits.right adds) l
          (size₁ ▸ restJumps)
      refine ⟨e₂, ?_⟩
      rw [stmts]
      exact bind_eq_ok.mpr ⟨e₁, first, second⟩

end

end Emission

end RecordSynth
