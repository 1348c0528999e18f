import RecordSynth.Program.Emission
import RecordSynth.Proofs.Program.FirstUse

/-! The program of a definition, said without emission. Its tables hold names and constants in
the order of first use, and its code is laid out in reading order over given positions of
names and constants, with jump targets computed from the code that is jumped over.
-/

namespace RecordSynth

/-- Where the entries of a program's tables are. -/
structure Layout where
  slot : String → Nat
  name : String → Nat
  const : Literal → Nat

/-- The layout of tables: each entry is at its first place. -/
def Layout.ofTables (params names : List String) (consts : List Literal) : Layout :=
  ⟨params.idxOf, names.idxOf, consts.idxOf⟩

/-- The instruction that a jump goes to. -/
def Instr.target? : Instr → Option Nat
  | .jump target => some target
  | .jumpIfFalse target => some target
  | _ => none

/-- Each jump of the code goes to an instruction within the limit. -/
def TargetsFit (code : List Instr) : Prop :=
  ∀ instr ∈ code, ∀ target ∈ instr.target?, target < targetLimit

theorem targetsFit_append {left right : List Instr}
    : TargetsFit (left ++ right) ↔ TargetsFit left ∧ TargetsFit right := by
  simp only [TargetsFit, List.mem_append, or_imp, forall_and]

theorem targetsFit_cons {instr : Instr} {rest : List Instr}
    : TargetsFit (instr :: rest)
      ↔ (∀ target ∈ instr.target?, target < targetLimit) ∧ TargetsFit rest := by
  simp only [TargetsFit, List.mem_cons, or_imp, forall_and, forall_eq]

theorem targetsFit_singleton {instr : Instr} (straight : instr.target? = none)
    : TargetsFit [instr] := by
  intro found member target isTarget
  rw [List.mem_singleton.mp member, straight] at isTarget
  cases isTarget

-----------------------------------------------------------------------------------------
-- Names, constants and code of the trees
-----------------------------------------------------------------------------------------

namespace Source

/-- The name that a call spells out, if it is such a call. -/
def labelOf? (callee : String) (args : List Expr) : Option String :=
  match args with
  | [.var _ name] => if callee = "nameof" then some name else none
  | _ => none

/-- A call that spells out a name has that name as its only argument. -/
theorem labelOf?_cases {callee : String} {args : List Expr} {name : String}
    (label : labelOf? callee args = some name)
    : callee = "nameof" ∧ ∃ range, args = [.var range name] := by
  unfold labelOf? at label
  split at label
  · next range found =>
    split at label
    · next isLabel =>
      cases label
      exact ⟨isLabel, range, rfl⟩
    · cases label
  · cases label

theorem labelOf?_of_ne {callee : String} (other : callee ≠ "nameof") (args : List Expr)
    : labelOf? callee args = none := by
  unfold labelOf?
  split
  · exact if_neg other
  · rfl

/-- The instruction of a call that is not about a name. -/
def callInstr (callee : String) (count : Nat) : Instr :=
  match Builtin.ofName? callee with
  | some function => .callBuiltin function
  | none => .buildString count

/-- Texts are joined by one function, and each builtin function takes one argument. -/
def CallAllowed (callee : String) (count : Nat) : Prop :=
  (callee = "concat" ∧ count < operandLimit)
  ∨ ((Builtin.ofName? callee).isSome ∧ count = 1)

mutual

/-- The names that an expression enters into the table, in order. -/
def Expr.names : Expr → List String
  | .literal _ _ => []
  | .var _ _ => []
  | .attr _ object field => object.names ++ [field]
  | .call _ callee _ args => (labelOf? callee args).toList ++ Expr.namesAll args
  | .tuple _ items => Expr.namesAll items
  | .compare _ _ left right => left.names ++ right.names

/-- The names that expressions enter into the table, in order. -/
def Expr.namesAll : List Expr → List String
  | [] => []
  | x :: xs => x.names ++ Expr.namesAll xs

end

mutual

/-- The constants that an expression enters into the table, in order. -/
def Expr.literals : Expr → List Literal
  | .literal _ value => [value]
  | .var _ _ => []
  | .attr _ object _ => object.literals
  | .call _ _ _ args => Expr.literalsAll args
  | .tuple _ items => Expr.literalsAll items
  | .compare _ _ left right => left.literals ++ right.literals

/-- The constants that expressions enter into the table, in order. -/
def Expr.literalsAll : List Expr → List Literal
  | [] => []
  | x :: xs => x.literals ++ Expr.literalsAll xs

end

mutual

/-- The instructions that leave the value of an expression on the stack. -/
def Expr.code (l : Layout) : Expr → List Instr
  | .literal _ value => [.loadConst (l.const value)]
  | .var _ name => [.loadParam (l.slot name)]
  | .attr _ object field => object.code l ++ [.loadAttr (l.name field)]
  | .call _ callee _ args =>
      match labelOf? callee args with
      | some name => [.loadName (l.name name)]
      | none => Expr.codeAll l args ++ [callInstr callee args.length]
  | .tuple _ items => Expr.codeAll l items ++ [.buildTuple items.length]
  | .compare _ op left right => left.code l ++ (right.code l ++ [.compare op])

/-- The instructions that leave the values of expressions on the stack, the last one on top. -/
def Expr.codeAll (l : Layout) : List Expr → List Instr
  | [] => []
  | x :: xs => x.code l ++ Expr.codeAll l xs

end

mutual

/-- Variables are parameters, calls are allowed, and tuples are not too large. -/
def Expr.WellFormed (params : List String) : Expr → Prop
  | .literal _ _ => True
  | .var _ name => name ∈ params
  | .attr _ object _ => object.WellFormed params
  | .call _ callee _ args =>
      (labelOf? callee args).isSome
      ∨ (CallAllowed callee args.length ∧ Expr.WellFormedAll params args)
  | .tuple _ items => items.length < operandLimit ∧ Expr.WellFormedAll params items
  | .compare _ _ left right => left.WellFormed params ∧ right.WellFormed params

/-- Each of the expressions is well-formed. -/
def Expr.WellFormedAll (params : List String) : List Expr → Prop
  | [] => True
  | x :: xs => x.WellFormed params ∧ Expr.WellFormedAll params xs

end

mutual

/-- The names that a statement enters into the table, the value's before the object's. -/
def Stmt.names : Stmt → List String
  | .assign _ object field value => value.names ++ (object.names ++ [field])
  | .giveBack _ none => []
  | .giveBack _ (some value) => value.names
  | .yield _ value => value.names
  | .branch _ test thenBody elseBody =>
      test.names ++ (Stmt.namesAll thenBody ++ Stmt.namesAll elseBody)
  | .discard _ value => value.names

/-- The names that statements enter into the table, in order. -/
def Stmt.namesAll : List Stmt → List String
  | [] => []
  | s :: ss => s.names ++ Stmt.namesAll ss

end

mutual

/-- The constants that a statement enters into the table. A bare return loads one of its own. -/
def Stmt.literals : Stmt → List Literal
  | .assign _ object _ value => value.literals ++ object.literals
  | .giveBack _ none => [.none]
  | .giveBack _ (some value) => value.literals
  | .yield _ value => value.literals
  | .branch _ test thenBody elseBody =>
      test.literals ++ (Stmt.literalsAll thenBody ++ Stmt.literalsAll elseBody)
  | .discard _ value => value.literals

/-- The constants that statements enter into the table, in order. -/
def Stmt.literalsAll : List Stmt → List Literal
  | [] => []
  | s :: ss => s.literals ++ Stmt.literalsAll ss

end

mutual

/-- The instructions of a statement whose first one is at `start`. -/
def Stmt.code (l : Layout) (start : Nat) : Stmt → List Instr
  | .assign _ object field value =>
      value.code l ++ (object.code l ++ [.storeAttr (l.name field)])
  | .giveBack _ none => [.loadConst (l.const .none), .giveBack]
  | .giveBack _ (some value) => value.code l ++ [.giveBack]
  | .yield _ value => value.code l ++ [.yield]
  | .branch _ test thenBody [] =>
      let testCode := test.code l
      let thenCode := Stmt.codeAll l (start + testCode.length + 1) thenBody
      let afterThen := start + testCode.length + 1 + thenCode.length
      testCode ++ (.jumpIfFalse afterThen :: thenCode)
  | .branch _ test thenBody (first :: rest) =>
      let testCode := test.code l
      let thenCode := Stmt.codeAll l (start + testCode.length + 1) thenBody
      let afterThen := start + testCode.length + 1 + thenCode.length
      let elseCode := Stmt.codeAll l (afterThen + 1) (first :: rest)
      let afterElse := afterThen + 1 + elseCode.length
      testCode ++ (.jumpIfFalse (afterThen + 1) :: (thenCode ++ (.jump afterElse :: elseCode)))
  | .discard _ value => value.code l ++ [.pop]

/-- The instructions of statements, one after the other. -/
def Stmt.codeAll (l : Layout) (start : Nat) : List Stmt → List Instr
  | [] => []
  | s :: ss =>
      let code := s.code l start
      code ++ Stmt.codeAll l (start + code.length) ss

end

mutual

/-- Expressions are well-formed, and only a generator yields. -/
def Stmt.WellFormed (params : List String) (isGenerator : Bool) : Stmt → Prop
  | .assign _ object _ value => value.WellFormed params ∧ object.WellFormed params
  | .giveBack _ none => True
  | .giveBack _ (some value) => value.WellFormed params
  | .yield _ value => isGenerator = true ∧ value.WellFormed params
  | .branch _ test thenBody elseBody =>
      test.WellFormed params
      ∧ Stmt.WellFormedAll params isGenerator thenBody
      ∧ Stmt.WellFormedAll params isGenerator elseBody
  | .discard _ value => value.WellFormed params

/-- Each of the statements is well-formed. -/
def Stmt.WellFormedAll (params : List String) (isGenerator : Bool) : List Stmt → Prop
  | [] => True
  | s :: ss => s.WellFormed params isGenerator ∧ Stmt.WellFormedAll params isGenerator ss

end

-----------------------------------------------------------------------------------------
-- Lists of trees are treated one tree after the other
-----------------------------------------------------------------------------------------

theorem Expr.namesAll_eq_flatMap (xs : List Expr)
    : Expr.namesAll xs = xs.flatMap Expr.names := by
  induction xs with
  | nil => rfl
  | cons x rest ih => rw [Expr.namesAll, ih, List.flatMap_cons]

theorem Expr.literalsAll_eq_flatMap (xs : List Expr)
    : Expr.literalsAll xs = xs.flatMap Expr.literals := by
  induction xs with
  | nil => rfl
  | cons x rest ih => rw [Expr.literalsAll, ih, List.flatMap_cons]

theorem Expr.wellFormedAll_iff {params : List String} {xs : List Expr}
    : Expr.WellFormedAll params xs ↔ ∀ x ∈ xs, x.WellFormed params := by
  induction xs with
  | nil => simp [Expr.WellFormedAll]
  | cons x rest ih => rw [Expr.WellFormedAll, ih, List.forall_mem_cons]

theorem Stmt.namesAll_eq_flatMap (ss : List Stmt)
    : Stmt.namesAll ss = ss.flatMap Stmt.names := by
  induction ss with
  | nil => rfl
  | cons s rest ih => rw [Stmt.namesAll, ih, List.flatMap_cons]

theorem Stmt.literalsAll_eq_flatMap (ss : List Stmt)
    : Stmt.literalsAll ss = ss.flatMap Stmt.literals := by
  induction ss with
  | nil => rfl
  | cons s rest ih => rw [Stmt.literalsAll, ih, List.flatMap_cons]

theorem Stmt.wellFormedAll_iff {params : List String} {isGenerator : Bool} {ss : List Stmt}
    : Stmt.WellFormedAll params isGenerator ss ↔ ∀ s ∈ ss, s.WellFormed params isGenerator := by
  induction ss with
  | nil => simp [Stmt.WellFormedAll]
  | cons s rest ih => rw [Stmt.WellFormedAll, ih, List.forall_mem_cons]

-----------------------------------------------------------------------------------------
-- Lengths and jumps are the same for all layouts
-----------------------------------------------------------------------------------------

mutual

/-- An expression has no jumps, by recursion on the expression. -/
theorem Expr.targets_code (l : Layout) (x : Expr)
    : ∀ instr ∈ x.code l, instr.target? = none := by
  cases x with
  | literal range value => simp [Expr.code, Instr.target?]
  | var range name => simp [Expr.code, Instr.target?]
  | attr range object field =>
      simpa [Expr.code, or_imp, forall_and, Instr.target?] using Expr.targets_code l object
  | call range callee calleeRange args =>
      rw [Expr.code]
      split
      · simp [Instr.target?]
      · have callInstr_target : (callInstr callee args.length).target? = none := by
          unfold callInstr
          split <;> rfl
        simpa [or_imp, forall_and, callInstr_target] using Expr.targets_codeAll l args
  | tuple range items =>
      simpa [Expr.code, or_imp, forall_and, Instr.target?] using Expr.targets_codeAll l items
  | compare range op left right =>
      have leftTargets := Expr.targets_code l left
      have rightTargets := Expr.targets_code l right
      simpa [Expr.code, or_imp, forall_and, Instr.target?] using ⟨leftTargets, rightTargets⟩

/-- Expressions have no jumps. -/
theorem Expr.targets_codeAll (l : Layout) (xs : List Expr)
    : ∀ instr ∈ Expr.codeAll l xs, instr.target? = none := by
  cases xs with
  | nil => simp [Expr.codeAll]
  | cons x rest =>
      have headTargets := Expr.targets_code l x
      have restTargets := Expr.targets_codeAll l rest
      simpa [Expr.codeAll, or_imp, forall_and] using ⟨headTargets, restTargets⟩

end

mutual

/-- How much code an expression has does not depend on where its names are. -/
theorem Expr.length_code (l l' : Layout) (x : Expr)
    : (x.code l).length = (x.code l').length := by
  cases x with
  | literal range value => rfl
  | var range name => rfl
  | attr range object field => simp [Expr.code, Expr.length_code l l' object]
  | call range callee calleeRange args =>
      rw [Expr.code, Expr.code]
      split
      · rfl
      · simp [Expr.length_codeAll l l' args]
  | tuple range items => simp [Expr.code, Expr.length_codeAll l l' items]
  | compare range op left right =>
      simp [Expr.code, Expr.length_code l l' left, Expr.length_code l l' right]

/-- How much code expressions have does not depend on where their names are. -/
theorem Expr.length_codeAll (l l' : Layout) (xs : List Expr)
    : (Expr.codeAll l xs).length = (Expr.codeAll l' xs).length := by
  cases xs with
  | nil => rfl
  | cons x rest =>
      simp [Expr.codeAll, Expr.length_code l l' x, Expr.length_codeAll l l' rest]

end

theorem Expr.targetsFit_code (l : Layout) (x : Expr) : TargetsFit (x.code l) := by
  intro instr member target isTarget
  rw [Expr.targets_code l x instr member] at isTarget
  cases isTarget

/-- As far as jumps go, the code of an expression is its length. -/
theorem Expr.map_target_code (l : Layout) (x : Expr)
    : (x.code l).map Instr.target? = List.replicate (x.code l).length none := by
  rw [List.eq_replicate_iff]
  refine ⟨List.length_map _, ?_⟩
  intro target member
  obtain ⟨instr, inCode, rfl⟩ := List.mem_map.mp member
  exact Expr.targets_code l x instr inCode

mutual

/-- The targets of a statement's jumps, and with them the length of its code, do not depend on
where its names are.
-/
theorem Stmt.targets_code (l l' : Layout) (start : Nat) (s : Stmt)
    : (s.code l start).map Instr.target? = (s.code l' start).map Instr.target? := by
  cases s with
  | assign range object field value =>
      simp only [Stmt.code, List.map_append, Expr.map_target_code l value,
        Expr.map_target_code l' value, Expr.map_target_code l object,
        Expr.map_target_code l' object, Expr.length_code l l' value,
        Expr.length_code l l' object]
      rfl
  | giveBack range value =>
      cases value with
      | none => rfl
      | some value =>
          simp only [Stmt.code, List.map_append, Expr.map_target_code, Expr.length_code l l' value]
  | yield range value =>
      simp only [Stmt.code, List.map_append, Expr.map_target_code, Expr.length_code l l' value]
  | branch range test thenBody elseBody =>
      have thenTargets := Stmt.targets_codeAll l l' (start + (test.code l).length + 1) thenBody
      have thenLength := congrArg List.length thenTargets
      rw [List.length_map, List.length_map] at thenLength
      cases elseBody with
      | nil =>
          simp only [Stmt.code, List.map_append, List.map_cons, Expr.map_target_code, thenTargets,
            thenLength, Expr.length_code l' l test, Instr.target?]
      | cons first rest =>
          -- The alternative starts behind the body, so the lengths in front have to agree first.
          have elseTargets := Stmt.targets_codeAll l l'
            (start + (test.code l).length + 1
              + (Stmt.codeAll l' (start + (test.code l).length + 1) thenBody).length + 1)
            (first :: rest)
          have elseLength := congrArg List.length elseTargets
          rw [List.length_map, List.length_map] at elseLength
          simp only [Stmt.code, List.map_append, List.map_cons, Expr.map_target_code, thenTargets,
            thenLength, elseTargets, elseLength, Expr.length_code l' l test, Instr.target?]
  | discard range value =>
      simp only [Stmt.code, List.map_append, Expr.map_target_code, Expr.length_code l l' value]

/-- The targets of the jumps of statements do not depend on where their names are. -/
theorem Stmt.targets_codeAll (l l' : Layout) (start : Nat) (ss : List Stmt)
    : (Stmt.codeAll l start ss).map Instr.target?
      = (Stmt.codeAll l' start ss).map Instr.target? := by
  cases ss with
  | nil => rfl
  | cons s rest =>
      have headTargets := Stmt.targets_code l l' start s
      have headLength := congrArg List.length headTargets
      rw [List.length_map, List.length_map] at headLength
      have restTargets := Stmt.targets_codeAll l l' (start + (s.code l' start).length) rest
      simp only [Stmt.codeAll, List.map_append, headTargets, headLength, restTargets]

end

theorem Stmt.length_code (l l' : Layout) (start : Nat) (s : Stmt)
    : (s.code l start).length = (s.code l' start).length := by
  simpa using congrArg List.length (Stmt.targets_code l l' start s)

theorem Stmt.length_codeAll (l l' : Layout) (start : Nat) (ss : List Stmt)
    : (Stmt.codeAll l start ss).length = (Stmt.codeAll l' start ss).length := by
  simpa using congrArg List.length (Stmt.targets_codeAll l l' start ss)

/-- The jumps of statements fit if those of each statement do, wherever it starts. -/
theorem Stmt.targetsFit_codeAll {l : Layout} {start : Nat} {ss : List Stmt}
    (fits : ∀ s ∈ ss, ∀ start, TargetsFit (s.code l start))
    : TargetsFit (Stmt.codeAll l start ss) := by
  induction ss generalizing start with
  | nil => exact nofun
  | cons s rest ih =>
      obtain ⟨headFits, restFits⟩ := List.forall_mem_cons.mp fits
      exact targetsFit_append.mpr ⟨headFits start, ih restFits⟩

-----------------------------------------------------------------------------------------
-- The program of a definition
-----------------------------------------------------------------------------------------

namespace Definition

/-- The names of the parameters. -/
def paramNames (d : Definition) : List String :=
  d.params.map Param.name

/-- The attributes and spelled-out names in the order of first use. -/
def nameTable (d : Definition) : List String :=
  enterAll [] (Stmt.namesAll d.body)

/-- The constants in the order of first use, that of the closing return included. -/
def constTable (d : Definition) : List Literal :=
  enterAll [] (Stmt.literalsAll d.body ++ [.none])

/-- Where the definition's names and constants are. -/
def layout (d : Definition) : Layout :=
  .ofTables d.paramNames d.nameTable d.constTable

/-- The instructions of the body. -/
def bodyCode (d : Definition) : List Instr :=
  Stmt.codeAll d.layout 0 d.body

/-- The program of the definition: the body and a closing return. -/
def program (d : Definition) : Program where
  name := d.name
  params := d.paramNames.toArray
  names := d.nameTable.toArray
  consts := d.constTable.toArray
  code := (d.bodyCode ++ [Instr.loadConst (d.layout.const .none), Instr.giveBack]).toArray
  isGenerator := d.isGenerator

/-- The definitions that have a program: well-formed ones whose tables and jump targets stay
within their limits.
-/
structure Accepted (d : Definition) : Prop where
  distinct : d.paramNames.Nodup
  params_le : d.paramNames.length ≤ operandLimit
  wellFormed : Stmt.WellFormedAll d.paramNames d.isGenerator d.body
  names_le : d.nameTable.length ≤ operandLimit
  consts_le : d.constTable.length ≤ operandLimit
  targetsFit : TargetsFit d.bodyCode

end Definition

end Source

end RecordSynth
