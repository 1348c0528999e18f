import RecordSynth.Proofs.Program.Compilation

/-! What a definition mentions of its tables, place by place in the order in which code is emitted:
constants, parameters and names. The tables of its program are these mentions without later
repetitions, and the instructions that refer to a table refer to what is mentioned, in order.
-/

namespace RecordSynth

/-- The instruction refers to an entry of a table. -/
def Instr.refers : Instr → Bool
  | loadConst _ | loadParam _ | loadAttr _ | storeAttr _ | loadName _ => true
  | _ => false

namespace Source

-----------------------------------------------------------------------------------------
-- Mentions
-----------------------------------------------------------------------------------------

/-- What is mentioned at one place: a constant, a parameter, an attribute that is read or set, or a
name that is spelled out.
-/
inductive Mention where
  | const (value : Literal)
  | param (name : String)
  | read (field : String)
  | set (field : String)
  | label (name : String)
  deriving DecidableEq

namespace Mention

/-- The name that is mentioned, other than that of a parameter. -/
def name? : Mention → Option String
  | read name | set name | label name => some name
  | _ => none

/-- The constant that is mentioned. -/
def const? : Mention → Option Literal
  | const value => some value
  | _ => none

/-- The instruction for what is mentioned. -/
def instr (l : Layout) : Mention → Instr
  | const value => .loadConst (l.const value)
  | param name => .loadParam (l.slot name)
  | read field => .loadAttr (l.name field)
  | set field => .storeAttr (l.name field)
  | label name => .loadName (l.name name)

end Mention

mutual

/-- What an expression mentions. A call that spells out a name mentions nothing else. -/
def Expr.mentions : Expr → List Mention
  | .literal _ value => [.const value]
  | .var _ name => [.param name]
  | .attr _ object field => object.mentions ++ [.read field]
  | .call _ callee _ args =>
      match labelOf? callee args with
      | some name => [.label name]
      | none => Expr.mentionsAll args
  | .tuple _ items => Expr.mentionsAll items
  | .compare _ _ left right => left.mentions ++ right.mentions

/-- What expressions mention, from left to right. -/
def Expr.mentionsAll : List Expr → List Mention
  | [] => []
  | x :: xs => x.mentions ++ Expr.mentionsAll xs

end

mutual

/-- What a statement mentions. An assignment mentions its value before its object, and a bare return
mentions the constant that it gives back.
-/
def Stmt.mentions : Stmt → List Mention
  | .assign _ object field value => value.mentions ++ (object.mentions ++ [.set field])
  | .giveBack _ none => [.const .none]
  | .giveBack _ (some value) => value.mentions
  | .yield _ value => value.mentions
  | .branch _ test thenBody elseBody =>
      test.mentions ++ (Stmt.mentionsAll thenBody ++ Stmt.mentionsAll elseBody)
  | .discard _ value => value.mentions

/-- What statements mention, from top to bottom. -/
def Stmt.mentionsAll : List Stmt → List Mention
  | [] => []
  | s :: ss => s.mentions ++ Stmt.mentionsAll ss

end

/-- What a definition mentions: what its body does, and the constant of the closing return. -/
def Definition.mentions (d : Definition) : List Mention :=
  Stmt.mentionsAll d.body ++ [.const .none]

-----------------------------------------------------------------------------------------
-- Mentions account for names, constants and code
-----------------------------------------------------------------------------------------

/-- The mentions are what the names and the constants are entered for, and what the instructions
that refer to a table are emitted for.
-/
structure Accounts (l : Layout) (mentions : List Mention) (names : List String)
    (literals : List Literal) (code : List Instr) : Prop where
  names : mentions.filterMap Mention.name? = names
  literals : mentions.filterMap Mention.const? = literals
  code : code.filter Instr.refers = mentions.map (Mention.instr l)

section Accounts

variable {l : Layout} {mentions mentions' : List Mention} {names names' : List String}
  {literals literals' : List Literal} {code code' : List Instr}

theorem accounts_nil : Accounts l [] [] [] [] :=
  ⟨rfl, rfl, rfl⟩

/-- One part of a function after another. -/
theorem Accounts.append (first : Accounts l mentions names literals code)
    (second : Accounts l mentions' names' literals' code')
    : Accounts l (mentions ++ mentions') (names ++ names') (literals ++ literals')
        (code ++ code') where
  names := by rw [List.filterMap_append, first.names, second.names]
  literals := by rw [List.filterMap_append, first.literals, second.literals]
  code := by rw [List.filter_append, List.map_append, first.code, second.code]

/-- An instruction that refers to no table needs no mention, also in front of the code. -/
theorem Accounts.cons (accounts : Accounts l mentions names literals code) (instr : Instr)
    (plain : instr.refers = false)
    : Accounts l mentions names literals (instr :: code) where
  names := accounts.names
  literals := accounts.literals
  code := by simpa [plain] using accounts.code

/-- An instruction that refers to no table needs no mention. -/
theorem Accounts.concat (accounts : Accounts l mentions names literals code) (instr : Instr)
    (plain : instr.refers = false)
    : Accounts l mentions names literals (code ++ [instr]) where
  names := accounts.names
  literals := accounts.literals
  code := by simpa [plain] using accounts.code

/-- A constant is loaded where it is mentioned. -/
theorem Accounts.const (value : Literal)
    : Accounts l [.const value] [] [value] [.loadConst (l.const value)] :=
  ⟨rfl, rfl, rfl⟩

/-- An attribute is read from what the code in front computes. -/
theorem Accounts.read (accounts : Accounts l mentions names literals code) (field : String)
    : Accounts l (mentions ++ [.read field]) (names ++ [field]) literals
        (code ++ [.loadAttr (l.name field)]) := by
  have read : Accounts l [.read field] [field] [] [.loadAttr (l.name field)] := ⟨rfl, rfl, rfl⟩
  simpa only [List.append_nil] using accounts.append read

/-- An attribute is set of what the code in front computes. -/
theorem Accounts.set (accounts : Accounts l mentions names literals code) (field : String)
    : Accounts l (mentions ++ [.set field]) (names ++ [field]) literals
        (code ++ [.storeAttr (l.name field)]) := by
  have set : Accounts l [.set field] [field] [] [.storeAttr (l.name field)] := ⟨rfl, rfl, rfl⟩
  simpa only [List.append_nil] using accounts.append set

end Accounts

section Trees

variable (l : Layout)

mutual

/-- The mentions of an expression account for it, by recursion on the expression. -/
theorem Expr.accounts (x : Expr) : Accounts l x.mentions x.names x.literals (x.code l) := by
  cases x with
  | literal range value => exact .const value
  | var range name => exact ⟨rfl, rfl, rfl⟩
  | attr range object field => exact object.accounts.read field
  | call range callee calleeRange args =>
      rw [Expr.mentions, Expr.names, Expr.literals, Expr.code]
      cases label : labelOf? callee args with
      | some name =>
          obtain ⟨noNames, noLiterals⟩ := Emission.namesAll_of_label label
          rw [noNames, noLiterals]
          exact ⟨rfl, rfl, rfl⟩
      | none =>
          have plain : (callInstr callee args.length).refers = false := by
            unfold callInstr
            split <;> rfl
          exact (Expr.accountsAll args).concat _ plain
  | tuple range items => exact (Expr.accountsAll items).concat (.buildTuple _) rfl
  | compare range op left right =>
      exact left.accounts.append (right.accounts.concat (.compare op) rfl)

theorem Expr.accountsAll (xs : List Expr)
    : Accounts l (Expr.mentionsAll xs) (Expr.namesAll xs) (Expr.literalsAll xs)
        (Expr.codeAll l xs) := by
  cases xs with
  | nil => exact accounts_nil
  | cons x rest => exact x.accounts.append (Expr.accountsAll rest)

end

mutual

/-- The mentions of a statement account for it, wherever its code starts. -/
theorem Stmt.accounts (start : Nat) (s : Stmt)
    : Accounts l s.mentions s.names s.literals (s.code l start) := by
  cases s with
  | assign range object field value =>
      exact (value.accounts l).append ((object.accounts l).set field)
  | giveBack range value =>
      cases value with
      | none => exact (Accounts.const .none).concat .giveBack rfl
      | some value => exact (value.accounts l).concat .giveBack rfl
  | yield range value => exact (value.accounts l).concat .yield rfl
  | branch range test thenBody elseBody =>
      cases elseBody with
      | nil =>
          simp only [Stmt.mentions, Stmt.names, Stmt.literals, Stmt.mentionsAll, Stmt.namesAll,
            Stmt.literalsAll, List.append_nil]
          exact (test.accounts l).append
            ((Stmt.accountsAll _ thenBody).cons (.jumpIfFalse _) rfl)
      | cons first rest =>
          refine (test.accounts l).append (Accounts.cons ?_ (.jumpIfFalse _) rfl)
          exact (Stmt.accountsAll _ thenBody).append
            ((Stmt.accountsAll _ (first :: rest)).cons (.jump _) rfl)
  | discard range value => exact (value.accounts l).concat .pop rfl

theorem Stmt.accountsAll (start : Nat) (ss : List Stmt)
    : Accounts l (Stmt.mentionsAll ss) (Stmt.namesAll ss) (Stmt.literalsAll ss)
        (Stmt.codeAll l start ss) := by
  cases ss with
  | nil => exact accounts_nil
  | cons s rest => exact (Stmt.accounts start s).append (Stmt.accountsAll _ rest)

end

end Trees

-----------------------------------------------------------------------------------------
-- What a well-formed tree mentions is in the tables
-----------------------------------------------------------------------------------------

section WellFormed

variable {params : List String} {isGenerator : Bool} {name : String}

mutual

/-- A well-formed expression mentions only parameters that there are. -/
theorem Expr.mem_params (x : Expr) (formed : x.WellFormed params)
    (mentioned : .param name ∈ x.mentions)
    : name ∈ params := by
  cases x with
  | literal range value => simp [Expr.mentions] at mentioned
  | var range other =>
      cases List.mem_singleton.mp mentioned
      exact formed
  | attr range object field =>
      exact object.mem_params formed (by simpa [Expr.mentions] using mentioned)
  | call range callee calleeRange args =>
      rw [Expr.mentions] at mentioned
      cases label : labelOf? callee args with
      | some spelled => simp [label] at mentioned
      | none =>
          obtain ⟨-, argsFormed⟩ := formed.resolve_left (by simp [label])
          exact Expr.mem_paramsAll args argsFormed (by simpa [label] using mentioned)
  | tuple range items => exact Expr.mem_paramsAll items formed.2 mentioned
  | compare range op left right =>
      rcases List.mem_append.mp mentioned with inLeft | inRight
      · exact left.mem_params formed.1 inLeft
      · exact right.mem_params formed.2 inRight

theorem Expr.mem_paramsAll (xs : List Expr) (formed : Expr.WellFormedAll params xs)
    (mentioned : .param name ∈ Expr.mentionsAll xs)
    : name ∈ params := by
  cases xs with
  | nil => cases mentioned
  | cons x rest =>
      rcases List.mem_append.mp mentioned with inFirst | inRest
      · exact x.mem_params formed.1 inFirst
      · exact Expr.mem_paramsAll rest formed.2 inRest

end

mutual

/-- A well-formed statement mentions only parameters that there are. -/
theorem Stmt.mem_params (s : Stmt) (formed : s.WellFormed params isGenerator)
    (mentioned : .param name ∈ s.mentions)
    : name ∈ params := by
  cases s with
  | assign range object field value =>
      rcases List.mem_append.mp mentioned with inValue | inObject
      · exact value.mem_params formed.1 inValue
      · exact object.mem_params formed.2 (by simpa using inObject)
  | giveBack range value =>
      cases value with
      | none => simp [Stmt.mentions] at mentioned
      | some value => exact value.mem_params formed mentioned
  | yield range value => exact value.mem_params formed.2 mentioned
  | branch range test thenBody elseBody =>
      obtain ⟨testFormed, thenFormed, elseFormed⟩ := formed
      rcases List.mem_append.mp mentioned with inTest | inBodies
      · exact test.mem_params testFormed inTest
      · rcases List.mem_append.mp inBodies with inThen | inElse
        · exact Stmt.mem_paramsAll thenBody thenFormed inThen
        · exact Stmt.mem_paramsAll elseBody elseFormed inElse
  | discard range value => exact value.mem_params formed mentioned

theorem Stmt.mem_paramsAll (ss : List Stmt) (formed : Stmt.WellFormedAll params isGenerator ss)
    (mentioned : .param name ∈ Stmt.mentionsAll ss)
    : name ∈ params := by
  cases ss with
  | nil => cases mentioned
  | cons s rest =>
      rcases List.mem_append.mp mentioned with inFirst | inRest
      · exact s.mem_params formed.1 inFirst
      · exact Stmt.mem_paramsAll rest formed.2 inRest

end

end WellFormed

namespace Definition

/-- The mentions of a definition account for its program. -/
theorem accounts (d : Definition)
    : Accounts d.layout d.mentions (Stmt.namesAll d.body) (Stmt.literalsAll d.body ++ [.none])
        d.program.code.toList := by
  have closing : Accounts d.layout [.const .none] [] [.none]
      [.loadConst (d.layout.const .none), .giveBack] :=
    (Accounts.const .none).concat .giveBack rfl
  simpa [program, bodyCode, mentions]
    using (Stmt.accountsAll d.layout 0 d.body).append closing

/-- The names of a program are those that are mentioned, in the order of first use. -/
theorem nameTable_eq (d : Definition)
    : d.nameTable = (d.mentions.filterMap Mention.name?).eraseDups := by
  rw [nameTable, enterAll_empty, d.accounts.names]

/-- The constants of a program are those that are mentioned, in the order of first use. -/
theorem constTable_eq (d : Definition)
    : d.constTable = (d.mentions.filterMap Mention.const?).eraseDups := by
  rw [constTable, enterAll_empty, d.accounts.literals]

end Definition

end Source

-----------------------------------------------------------------------------------------
-- Instructions refer to what is mentioned
-----------------------------------------------------------------------------------------

namespace Program

/-- An entry is found where the table has it first. -/
theorem getElem?_toArray_idxOf {α : Type} [DecidableEq α] {table : List α} {a : α}
    (present : a ∈ table)
    : table.toArray[table.idxOf a]? = some a := by
  rw [List.getElem?_toArray]
  exact List.getElem?_idxOf present

/-- What an instruction refers to: the entry at its position in the table that it is about. -/
def mention? (p : Program) : Instr → Option Source.Mention
  | .loadConst i => p.consts[i]?.map .const
  | .loadParam i => p.params[i]?.map .param
  | .loadAttr i => p.names[i]?.map .read
  | .storeAttr i => p.names[i]?.map .set
  | .loadName i => p.names[i]?.map .label
  | _ => none

/-- The tables of a definition have what it mentions where its layout says. -/
theorem mention?_instr {d : Source.Definition} (accepted : d.Accepted) {m : Source.Mention}
    (mentioned : m ∈ d.mentions)
    : d.program.mention? (m.instr d.layout) = some m := by
  have named {name : String} (isName : m.name? = some name)
      : d.program.names[d.layout.name name]? = some name := by
    have present : name ∈ d.nameTable := by
      rw [Source.Definition.nameTable, mem_enterAll, ← d.accounts.names, List.mem_filterMap]
      exact .inr ⟨m, mentioned, isName⟩
    exact getElem?_toArray_idxOf present
  cases m with
  | const value =>
      have present : value ∈ d.constTable := by
        rw [Source.Definition.constTable, mem_enterAll, ← d.accounts.literals, List.mem_filterMap]
        exact .inr ⟨.const value, mentioned, rfl⟩
      have found : d.program.consts[d.layout.const value]? = some value :=
        getElem?_toArray_idxOf present
      exact congrArg (Option.map Source.Mention.const) found
  | param name =>
      have inBody : .param name ∈ Source.Stmt.mentionsAll d.body := by
        simpa [Source.Definition.mentions] using mentioned
      have found : d.program.params[d.layout.slot name]? = some name :=
        getElem?_toArray_idxOf (Source.Stmt.mem_paramsAll d.body accepted.wellFormed inBody)
      exact congrArg (Option.map Source.Mention.param) found
  | read field => exact congrArg (Option.map Source.Mention.read) (named rfl)
  | set field => exact congrArg (Option.map Source.Mention.set) (named rfl)
  | label name => exact congrArg (Option.map Source.Mention.label) (named rfl)

/-- The tables of a compiled definition are in the order of first use. Its parameters are those of
the definition, its names are the attributes and the spelled-out names that are mentioned, and its
constants are those that are mentioned, later repetitions left out. The instructions that refer to a
table refer, in order, to what the definition mentions.
-/
theorem tables_of_ofDefinition {d : Source.Definition} {p : Program}
    (compiled : ofDefinition d = .ok p)
    : p.params.toList = d.params.map Source.Param.name
      ∧ p.names.toList = (d.mentions.filterMap Source.Mention.name?).eraseDups
      ∧ p.consts.toList = (d.mentions.filterMap Source.Mention.const?).eraseDups
      ∧ (p.params.toList.Nodup ∧ p.names.toList.Nodup ∧ p.consts.toList.Nodup)
      ∧ (p.code.toList.filter Instr.refers).map p.mention? = d.mentions.map some := by
  obtain ⟨accepted, rfl⟩ := ofDefinition_eq_ok_iff.mp compiled
  refine ⟨rfl, d.nameTable_eq, d.constTable_eq, ⟨accepted.distinct, ?_, ?_⟩, ?_⟩
  · exact nodup_enterAll List.nodup_nil _
  · exact nodup_enterAll List.nodup_nil _
  · rw [d.accounts.code, List.map_map]
    exact List.map_congr_left fun m mentioned => mention?_instr accepted mentioned

section Keep

open Source

/-- A function that mentions an attribute first in the value and then in the object of an
assignment, and a name and a constant more than once.
-/
def keep : Definition where
  name := "keep"
  params := [⟨"self", default⟩, ⟨"other", default⟩]
  isGenerator := false
  body := [
    .assign default (.attr default (.var default "self") "cell") "mark"
      (.attr default (.var default "other") "kind"),
    .assign default (.var default "self") "kind" (.literal default (.int 1)),
    .branch default
      (.compare default .equal (.attr default (.var default "self") "mark")
        (.literal default (.int 1)))
      [.giveBack default (some (.call default "nameof" default [.var default "kind"]))] []]
  range := default

theorem accepted_keep : keep.Accepted := by
  have self : "self" ∈ keep.paramNames := by decide
  have other : "other" ∈ keep.paramNames := by decide
  refine ⟨by decide, by decide, ⟨⟨other, self⟩, ⟨trivial, self⟩, ?_, trivial⟩, by decide,
    by decide, ?_⟩
  · exact ⟨⟨self, trivial⟩, ⟨.inl rfl, trivial⟩, trivial⟩
  · unfold TargetsFit
    decide

/-- Witness: the attribute of the assigned value comes before those of the object, and what is
mentioned again has no second entry.
-/
theorem tables_of_ofDefinition_keep
    : ∃ p, ofDefinition keep = .ok p
        ∧ p.params.toList = ["self", "other"]
        ∧ p.names.toList = ["kind", "cell", "mark"]
        ∧ p.consts.toList = [.int 1, .none]
        ∧ (p.code.toList.filter Instr.refers).map p.mention? = keep.mentions.map some := by
  obtain ⟨p, compiled⟩ := ofDefinition_succeeds accepted_keep
  obtain ⟨params, names, consts, -, code⟩ := tables_of_ofDefinition compiled
  exact ⟨p, compiled, params, names.trans (by decide), consts.trans (by decide), code⟩

end Keep

end Program

end RecordSynth
