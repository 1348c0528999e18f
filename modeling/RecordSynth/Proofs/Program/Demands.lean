import RecordSynth.Proofs.Program.Layout

/-! What a definition demands of its compilation, place by place and in the order in which code is
emitted. A demand is met or not by what stands before it: the parameters, and the names and
constants that have been entered into tables. The first one that is not met is the fault.
-/

namespace RecordSynth.Source

-----------------------------------------------------------------------------------------
-- Demands, and the faults of those that are not met
-----------------------------------------------------------------------------------------

/-- What is demanded at one place: that a parameter is new, that a variable is a parameter, that a
call is allowed, that there is room in a table for a name or a constant and in an instruction for a
number of operands, that only a generator yields, or that an instruction can be jumped to.
-/
inductive Demand where
  | param (name : String) (range : ByteRange)
  | var (name : String) (range : ByteRange)
  | call (callee : String) (calleeRange : ByteRange) (args : List Expr) (range : ByteRange)
  | name (name : String) (range : ByteRange)
  | const (value : Literal) (range : ByteRange)
  | operands (count : Nat) (table : Table) (range : ByteRange)
  | generator (range : ByteRange)
  | target (position : Nat) (range : ByteRange)

namespace Demand

/-- The parameter that is introduced. -/
def param? : Demand → Option String
  | param added _ => some added
  | _ => none

/-- The name that is entered into the table. -/
def name? : Demand → Option String
  | name entered _ => some entered
  | _ => none

/-- The constant that is entered into the table. -/
def const? : Demand → Option Literal
  | const entered _ => some entered
  | _ => none

/-- The parameters that demands introduce. -/
def params (demands : List Demand) : List String :=
  demands.filterMap param?

/-- The names in the table after demands. -/
def nameTable (demands : List Demand) : List String :=
  enterAll [] (demands.filterMap name?)

/-- The constants in the table after demands. -/
def constTable (demands : List Demand) : List Literal :=
  enterAll [] (demands.filterMap const?)

theorem filterMap_concat {α : Type} (f : Demand → Option α) (earlier : List Demand)
    (demand : Demand)
    : (earlier ++ [demand]).filterMap f = earlier.filterMap f ++ (f demand).toList := by
  rw [List.filterMap_append]
  cases found : f demand <;> simp [found]

theorem params_concat (earlier : List Demand) (demand : Demand)
    : params (earlier ++ [demand]) = params earlier ++ demand.param?.toList :=
  filterMap_concat param? earlier demand

theorem nameTable_concat (earlier : List Demand) (demand : Demand)
    : nameTable (earlier ++ [demand]) = enterAll (nameTable earlier) demand.name?.toList := by
  rw [nameTable, filterMap_concat, enterAll_append, nameTable]

theorem constTable_concat (earlier : List Demand) (demand : Demand)
    : constTable (earlier ++ [demand]) = enterAll (constTable earlier) demand.const?.toList := by
  rw [constTable, filterMap_concat, enterAll_append, constTable]

/-- The fault of a call that is not allowed: what is spelled out has to be a bare name, texts are
joined by one function, and each builtin function takes one argument.
-/
def callFault? (callee : String) (calleeRange : ByteRange) (args : List Expr)
    (range : ByteRange) : Option Fault :=
  if callee = "nameof" then
    if (labelOf? callee args).isSome then none else some ⟨.labelTarget, range⟩
  else if callee = "concat" then none
  else
    match Builtin.ofName? callee with
    | none => some ⟨.unknownBuiltin callee, calleeRange⟩
    | some function =>
      if args.length = 1 then none
      else some ⟨.builtinArity function.name 1 args.length, range⟩

/-- The fault of a demand that comes after `earlier` ones, unless it is met. -/
def fault? (isGenerator : Bool) (earlier : List Demand) : Demand → Option Fault
  | param added range =>
    if added ∈ params earlier then some ⟨.duplicateParam added, range⟩
    else if (params earlier).length < operandLimit then none
    else some ⟨.tableFull .params, range⟩
  | var used range =>
    if used ∈ params earlier then none else some ⟨.unboundName used, range⟩
  | call callee calleeRange args range => callFault? callee calleeRange args range
  | name entered range =>
    if entered ∈ nameTable earlier ∨ (nameTable earlier).length < operandLimit then none
    else some ⟨.tableFull .names, range⟩
  | const entered range =>
    if entered ∈ constTable earlier ∨ (constTable earlier).length < operandLimit then none
    else some ⟨.tableFull .consts, range⟩
  | operands count table range =>
    if count < operandLimit then none else some ⟨.tableFull table, range⟩
  | generator range => if isGenerator then none else some ⟨.yieldOutsideGenerator, range⟩
  | target position range =>
    if position < targetLimit then none else some ⟨.tableFull .code, range⟩

/-- The fault of the first of the demands that is not met, after `earlier` ones. -/
def firstFault? (isGenerator : Bool) (earlier : List Demand) : List Demand → Option Fault
  | [] => none
  | demand :: rest =>
    (demand.fault? isGenerator earlier).or (firstFault? isGenerator (earlier ++ [demand]) rest)

variable {isGenerator : Bool} {earlier : List Demand}

theorem firstFault?_append (demands more : List Demand)
    : firstFault? isGenerator earlier (demands ++ more)
      = (firstFault? isGenerator earlier demands).or
          (firstFault? isGenerator (earlier ++ demands) more) := by
  induction demands generalizing earlier with
  | nil => rw [List.append_nil]; rfl
  | cons demand rest ih =>
      rw [List.cons_append, firstFault?, firstFault?, ih, Option.or_assoc, List.append_assoc,
        List.singleton_append]

theorem firstFault?_singleton (demand : Demand)
    : firstFault? isGenerator earlier [demand] = demand.fault? isGenerator earlier :=
  Option.or_none

/-- The first fault is that of a demand before which all are met, by induction on the demands. -/
theorem firstFault?_eq_some_iff {demands : List Demand} {fault : Fault}
    : firstFault? isGenerator earlier demands = some fault
      ↔ ∃ met demand rest,
        demands = met ++ demand :: rest
        ∧ firstFault? isGenerator earlier met = none
        ∧ demand.fault? isGenerator (earlier ++ met) = some fault := by
  constructor
  · intro isFault
    induction demands generalizing earlier with
    | nil => cases isFault
    | cons demand rest ih =>
        rcases Option.or_eq_some_iff.mp isFault with isFault | ⟨isMet, later⟩
        · exact ⟨[], demand, rest, rfl, rfl, by rwa [List.append_nil]⟩
        · obtain ⟨met, first, others, rfl, free, isFault⟩ := ih later
          refine ⟨demand :: met, first, others, rfl, Option.or_eq_none_iff.mpr ⟨isMet, free⟩, ?_⟩
          rwa [List.append_assoc, List.singleton_append] at isFault
  · rintro ⟨met, demand, rest, rfl, free, isFault⟩
    rw [firstFault?_append, free, Option.none_or, firstFault?, isFault, Option.some_or]

/-- There is no fault exactly if every demand is met. -/
theorem firstFault?_eq_none_iff {demands : List Demand}
    : firstFault? isGenerator earlier demands = none
      ↔ ∀ met demand rest, demands = met ++ demand :: rest →
        demand.fault? isGenerator (earlier ++ met) = none := by
  constructor
  · rintro free met demand rest rfl
    rw [firstFault?_append, Option.or_eq_none_iff] at free
    exact (Option.or_eq_none_iff.mp free.2).1
  · intro all
    refine Option.eq_none_iff_forall_ne_some.mpr fun fault isFault => ?_
    obtain ⟨met, demand, rest, split, -, isFault⟩ := firstFault?_eq_some_iff.mp isFault
    rw [all met demand rest split] at isFault
    cases isFault

end Demand

-----------------------------------------------------------------------------------------
-- The demands of trees
-----------------------------------------------------------------------------------------

mutual

/-- What an expression demands. A call is looked at before its arguments, and operands are counted
after them.
-/
def Expr.demands : Expr → List Demand
  | .literal range value => [.const value range]
  | .var range name => [.var name range]
  | .attr range object field => object.demands ++ [.name field range]
  | .call range callee calleeRange args =>
    .call callee calleeRange args range ::
      match labelOf? callee args with
      | some name => [.name name range]
      | none =>
        Expr.demandsAll args
        ++ if callee = "concat" then [.operands args.length .concat range] else []
  | .tuple range items => Expr.demandsAll items ++ [.operands items.length .tuple range]
  | .compare _ _ left right => left.demands ++ right.demands

/-- What expressions demand, in order. -/
def Expr.demandsAll : List Expr → List Demand
  | [] => []
  | x :: xs => x.demands ++ Expr.demandsAll xs

end

mutual

/-- What a statement demands whose first instruction is at `start`. An assignment demands what its
value does before what its object does, and a branch demands to jump behind its bodies.
-/
def Stmt.demands (l : Layout) (start : Nat) : Stmt → List Demand
  | .assign range object field value =>
    value.demands ++ (object.demands ++ [.name field range])
  | .giveBack range none => [.const .none range]
  | .giveBack _ (some value) => value.demands
  | .yield range value => .generator range :: value.demands
  | .branch range test thenBody [] =>
    let startThen := start + (test.code l).length + 1
    let afterThen := startThen + (Stmt.codeAll l startThen thenBody).length
    test.demands ++ (Stmt.demandsAll l startThen thenBody ++ [.target afterThen range])
  | .branch range test thenBody (first :: rest) =>
    let startThen := start + (test.code l).length + 1
    let startElse := startThen + (Stmt.codeAll l startThen thenBody).length + 1
    let afterElse := startElse + (Stmt.codeAll l startElse (first :: rest)).length
    test.demands
    ++ (Stmt.demandsAll l startThen thenBody
      ++ ([.target startElse range]
        ++ (Stmt.demandsAll l startElse (first :: rest) ++ [.target afterElse range])))
  | .discard _ value => value.demands

/-- What statements demand, one after the other, whether or not they can be reached. -/
def Stmt.demandsAll (l : Layout) (start : Nat) : List Stmt → List Demand
  | [] => []
  | s :: ss => s.demands l start ++ Stmt.demandsAll l (start + (s.code l start).length) ss

end

/-- What a definition demands: new parameters, what its body demands, and a constant for the closing
return.
-/
def Definition.demands (d : Definition) : List Demand :=
  d.params.map (fun p => .param p.name p.range)
  ++ (Stmt.demandsAll d.layout 0 d.body ++ [.const .none d.range])

end RecordSynth.Source
