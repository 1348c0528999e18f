import RecordSynth.Proofs.Program.FaultPlaces
import RecordSynth.Proofs.Program.Operands
import RecordSynth.Proofs.Template.Specialization

/-! How many fields a template can have. A template asks for nothing but room: whatever the number
of fields, it compiles or one of its tables is full. Which of both is decided by the capacity of its
behavior, and a program that is compiled has each of its operands as a whole.
-/

namespace RecordSynth

namespace Source

-----------------------------------------------------------------------------------------
-- Definitions that ask for room only
-----------------------------------------------------------------------------------------

namespace Demand

variable {params : List String} {isGenerator : Bool} {earlier demands : List Demand}
  {fault : Fault}

/-- Nothing but a limit can stand in the way of the demand, once the parameters are there. -/
def AsksRoom (params : List String) (isGenerator : Bool) : Demand → Prop
  | param _ _ => False
  | var used _ => used ∈ params
  | call callee calleeRange args range => callFault? callee calleeRange args range = none
  | generator _ => isGenerator = true
  | name _ _ | const _ _ | operands _ _ _ | target _ _ => True

/-- Who asks for room only and is refused is refused because a table is full. -/
theorem AsksRoom.tableFull {demand : Demand} (asks : demand.AsksRoom params isGenerator)
    (bound : params ⊆ Demand.params earlier)
    (isFault : demand.fault? isGenerator earlier = some fault)
    : ∃ table, fault.cause = .tableFull table := by
  cases demand with
  | param added range => exact asks.elim
  | var used range => exact absurd isFault (by simp [fault?, bound asks])
  | call callee calleeRange args range =>
      have met : callFault? callee calleeRange args range = none := asks
      exact absurd isFault (by simp [fault?, met])
  | generator range =>
      have met : isGenerator = true := asks
      exact absurd isFault (by simp [fault?, met])
  | name entered range | const entered range | operands count table range
  | target position range =>
      obtain ⟨-, isFull⟩ := Option.ite_none_left_eq_some.mp isFault
      obtain rfl := Option.some.inj isFull
      exact ⟨_, rfl⟩

/-- The first refusal of demands that ask for room only is about a full table. -/
theorem tableFull_of_asksRoom
    (asks : ∀ demand ∈ demands, demand.AsksRoom params isGenerator)
    (bound : params ⊆ Demand.params earlier)
    (isFault : firstFault? isGenerator earlier demands = some fault)
    : ∃ table, fault.cause = .tableFull table := by
  obtain ⟨met, demand, rest, rfl, -, isFault⟩ := firstFault?_eq_some_iff.mp isFault
  have stillBound : params ⊆ Demand.params (earlier ++ met) := by
    intro name inParams
    rw [Demand.params, List.filterMap_append]
    exact List.mem_append_left _ (bound inParams)
  have member : demand ∈ met ++ demand :: rest := by simp
  exact (asks demand member).tableFull stillBound isFault

theorem params_map_param (ps : List Param)
    : Demand.params (ps.map fun p => .param p.name p.range) = ps.map Param.name := by
  simp [Demand.params, List.filterMap_map, Function.comp_def, param?]

/-- Distinct parameters are refused only if there are too many of them. -/
theorem tableFull_of_nodup {ps : List Param} (distinct : (ps.map Param.name).Nodup)
    (isFault : firstFault? isGenerator [] (ps.map fun p => .param p.name p.range) = some fault)
    : ∃ table, fault.cause = .tableFull table := by
  obtain ⟨met, demand, rest, split, -, isFault⟩ := firstFault?_eq_some_iff.mp isFault
  obtain ⟨before, after, rfl, rfl, isRest⟩ := List.map_eq_append_iff.mp split
  obtain ⟨p, others, rfl, rfl, rfl⟩ := List.map_eq_cons_iff.mp isRest
  rw [List.map_append, List.map_cons] at distinct
  have fresh : p.name ∉ before.map Param.name := by
    intro present
    exact (List.nodup_append.mp distinct).2.2 _ present _ List.mem_cons_self rfl
  rw [List.nil_append, fault?, params_map_param, if_neg fresh] at isFault
  obtain ⟨-, isFull⟩ := Option.ite_none_left_eq_some.mp isFault
  obtain rfl := Option.some.inj isFull
  exact ⟨_, rfl⟩

end Demand

/-- A definition that asks for room only and is not accepted fails because a table is full. -/
theorem Definition.tableFull_of_not_accepted {d : Definition} (distinct : d.paramNames.Nodup)
    (asks : ∀ demand ∈ Stmt.demandsAll d.layout 0 d.body,
      demand.AsksRoom d.paramNames d.isGenerator)
    (refused : ¬d.Accepted)
    : ∃ fault table, Program.ofDefinition d = .error fault ∧ fault.cause = .tableFull table := by
  cases result : Program.ofDefinition d with
  | ok p => exact absurd (Program.ofDefinition_eq_ok_iff.mp result).1 refused
  | error fault =>
      have isFault := Program.ofDefinition_eq_error_iff.mp result
      rw [Definition.demands, Demand.firstFault?_append, List.nil_append] at isFault
      rcases Option.or_eq_some_iff.mp isFault with inParams | ⟨-, inBody⟩
      · obtain ⟨table, isFull⟩ := Demand.tableFull_of_nodup distinct inParams
        exact ⟨fault, table, rfl, isFull⟩
      · have allAsk : ∀ demand ∈ Stmt.demandsAll d.layout 0 d.body ++ [.const .none d.range],
            demand.AsksRoom d.paramNames d.isGenerator := by
          intro demand member
          rcases List.mem_append.mp member with isDemand | isNone
          · exact asks demand isDemand
          · obtain rfl := List.mem_singleton.mp isNone
            trivial
        have bound : d.paramNames
            ⊆ Demand.params (d.params.map fun p => .param p.name p.range) := by
          rw [Demand.params_map_param]
          exact List.Subset.refl _
        obtain ⟨table, isFull⟩ := Demand.tableFull_of_asksRoom allAsk bound inBody
        exact ⟨fault, table, rfl, isFull⟩

/-- The written text of a definition fails for the cause for which the definition fails. -/
theorem Definition.Writable.cause_ofText {d : Definition} (writable : d.Writable)
    : (Program.ofText (textOf d.written)).mapError Fault.cause
      = (Program.ofDefinition d).mapError Fault.cause := by
  obtain ⟨d', same, compiled⟩ := writable.program_ofText
  rw [compiled]
  exact Program.mapError_cause_ofDefinition same

/-- A program has none but whole operands: it is laid out from its source text without a limit, and
all of its operands are below the limit anyway.
-/
theorem operand_lt_of_ofText {source : String} {p : Program}
    (compiled : Program.ofText source = .ok p)
    : ∃ d, Definition.ofText source = .ok d ∧ p = d.program
        ∧ ∀ instr ∈ p.code, ∀ operand, instr.operand? = some operand → operand < operandLimit := by
  obtain ⟨d, isRead, compiled⟩ := bind_eq_ok.mp compiled
  obtain ⟨accepted, rfl⟩ := Program.ofDefinition_eq_ok_iff.mp compiled
  exact ⟨d, isRead, rfl, fun _ member _ isOperand => accepted.operand_lt member isOperand⟩

-----------------------------------------------------------------------------------------
-- Trees that ask for room only
-----------------------------------------------------------------------------------------

/-- All that the expression demands is room. -/
def Expr.AsksRoom (params : List String) (isGenerator : Bool) (x : Expr) : Prop :=
  ∀ demand ∈ x.demands, demand.AsksRoom params isGenerator

section Trees

variable {params : List String} {isGenerator : Bool}

theorem Expr.asksRoom_demandsAll {xs : List Expr}
    (each : ∀ x ∈ xs, x.AsksRoom params isGenerator)
    : ∀ demand ∈ Expr.demandsAll xs, demand.AsksRoom params isGenerator := by
  induction xs with
  | nil => nofun
  | cons x rest ih =>
      obtain ⟨first, others⟩ := List.forall_mem_cons.mp each
      intro demand member
      rcases List.mem_append.mp member with isFirst | isLater
      · exact first demand isFirst
      · exact ih others demand isLater

/-- Statements ask for room only if each of them does, wherever its code starts. -/
theorem Stmt.asksRoom_demandsAll {l : Layout} {ss : List Stmt} (start : Nat)
    (each : ∀ s ∈ ss, ∀ start, ∀ demand ∈ s.demands l start,
      demand.AsksRoom params isGenerator)
    : ∀ demand ∈ Stmt.demandsAll l start ss, demand.AsksRoom params isGenerator := by
  induction ss generalizing start with
  | nil => nofun
  | cons s rest ih =>
      obtain ⟨first, others⟩ := List.forall_mem_cons.mp each
      intro demand member
      rcases List.mem_append.mp member with isFirst | isLater
      · exact first start demand isFirst
      · exact ih _ others demand isLater

end Trees

end Source

namespace Template

open Source

section Demands

variable {params fields : List String} {isGenerator : Bool}

theorem asksRoom_named {name : String} (isParam : name ∈ params)
    : (named name).AsksRoom params isGenerator := by
  rintro demand (_ | ⟨_, ⟨⟩⟩)
  exact isParam

theorem asksRoom_constant (text : String) : (constant text).AsksRoom params isGenerator := by
  rintro demand (_ | ⟨_, ⟨⟩⟩)
  trivial

theorem asksRoom_fieldOf {receiver : String} (field : String) (isParam : receiver ∈ params)
    : (fieldOf receiver field).AsksRoom params isGenerator := by
  rintro demand (_ | ⟨_, _ | ⟨_, ⟨⟩⟩⟩)
  · exact isParam
  · trivial

theorem asksRoom_label (field : String)
    : (callTo "nameof" [named field]).AsksRoom params isGenerator := by
  rintro demand (_ | ⟨_, _ | ⟨_, ⟨⟩⟩⟩)
  · rfl
  · trivial

theorem asksRoom_tupleOf {receiver : String} (fields : List String)
    (isParam : receiver ∈ params)
    : (tupleOf receiver fields).AsksRoom params isGenerator := by
  intro demand member
  rcases List.mem_append.mp member with inItems | isCount
  · refine Expr.asksRoom_demandsAll ?_ demand inItems
    intro x isItem
    obtain ⟨field, -, rfl⟩ := List.mem_map.mp isItem
    exact asksRoom_fieldOf field isParam
  · obtain rfl := List.mem_singleton.mp isCount
    trivial

theorem asksRoom_joined {args : List Expr} (asks : ∀ x ∈ args, x.AsksRoom params isGenerator)
    : (callTo "concat" args).AsksRoom params isGenerator := by
  intro demand member
  simp only [callTo, Expr.demands, labelOf?_of_ne (by decide : "concat" ≠ "nameof"), if_true,
    List.mem_cons, List.mem_append, List.not_mem_nil, or_false] at member
  rcases member with rfl | inArgs | rfl
  · rfl
  · exact Expr.asksRoom_demandsAll asks demand inArgs
  · trivial

theorem asksRoom_builtin {callee : String} {x : Expr} (known : (Builtin.ofName? callee).isSome)
    (asks : x.AsksRoom params isGenerator)
    : (callTo callee [x]).AsksRoom params isGenerator := by
  obtain ⟨function, isFunction⟩ := Option.isSome_iff_exists.mp known
  have notLabel : callee ≠ "nameof" := by
    rintro rfl
    cases isFunction
  have notJoin : callee ≠ "concat" := by
    rintro rfl
    cases isFunction
  intro demand member
  simp only [callTo, Expr.demands, labelOf?_of_ne notLabel, if_neg notJoin, List.append_nil,
    List.mem_cons] at member
  rcases member with rfl | inArg
  · simp [Demand.AsksRoom, Demand.callFault?, notLabel, notJoin, isFunction]
  · refine Expr.asksRoom_demandsAll ?_ demand inArg
    intro arg isArg
    exact List.mem_singleton.mp isArg ▸ asks

theorem asksRoom_allParts (isParam : "self" ∈ params)
    : ∀ x ∈ allParts fields, x.AsksRoom params isGenerator := by
  refine forall_allParts (asksRoom_constant _) ?_ ?_
  · intro field _ x inParts
    simp only [displayParts, List.mem_cons, List.not_mem_nil, or_false] at inParts
    rcases inParts with rfl | rfl | rfl
    · exact asksRoom_label field
    · exact asksRoom_constant "="
    · exact asksRoom_builtin rfl (asksRoom_fieldOf field isParam)
  · intro group _ parts
    exact asksRoom_joined parts

/-- The body of a template asks for room only, whatever the number of fields. -/
theorem asksRoom_body (behavior : Behavior) (fields : List String) (l : Layout)
    : ∀ demand ∈ Stmt.demandsAll l 0 (body behavior fields),
        demand.AsksRoom (parameters behavior fields) (behavior == .iteration) := by
  refine Stmt.asksRoom_demandsAll 0 ?_
  intro s member start demand isDemand
  cases behavior with
  | construct =>
      obtain ⟨field, inFields, rfl⟩ := List.mem_map.mp member
      rcases List.mem_append.mp isDemand with inValue | behind
      · exact asksRoom_named (List.mem_cons_of_mem "self" inFields) demand inValue
      rcases List.mem_append.mp behind with inObject | isName
      · exact asksRoom_named List.mem_cons_self demand inObject
      · obtain rfl := List.mem_singleton.mp isName
        trivial
  | display =>
      have self : "self" ∈ parameters .display fields := List.mem_cons_self
      obtain rfl := List.mem_singleton.mp member
      refine asksRoom_joined ?_ demand isDemand
      simp only [List.forall_mem_cons, List.forall_mem_append]
      exact ⟨asksRoom_builtin rfl (asksRoom_named self), asksRoom_constant "(",
        asksRoom_allParts self, asksRoom_constant ")", nofun⟩
  | equality =>
      have self : "self" ∈ parameters .equality fields := by simp [parameters]
      have other : "other" ∈ parameters .equality fields := by simp [parameters]
      simp only [body, List.mem_cons, List.not_mem_nil, or_false] at member
      rcases member with rfl | rfl
      · rcases List.mem_append.mp isDemand with inTest | behind
        · rcases List.mem_append.mp inTest with inLeft | inRight
          · exact asksRoom_builtin rfl (asksRoom_named self) demand inLeft
          · exact asksRoom_builtin rfl (asksRoom_named other) demand inRight
        rcases List.mem_append.mp behind with inThen | isTarget
        · simp only [Stmt.demandsAll, Stmt.demands, Expr.demands, List.append_nil] at inThen
          rcases List.mem_append.mp inThen with inLeft | inRight
          · exact asksRoom_tupleOf fields self demand inLeft
          · exact asksRoom_tupleOf fields other demand inRight
        · obtain rfl := List.mem_singleton.mp isTarget
          trivial
      · obtain rfl := List.mem_singleton.mp isDemand
        trivial
  | iteration =>
      obtain ⟨field, -, rfl⟩ := List.mem_map.mp member
      rcases List.mem_cons.mp isDemand with rfl | inValue
      · rfl
      · exact asksRoom_fieldOf field List.mem_cons_self demand inValue
  | hashing =>
      obtain rfl := List.mem_singleton.mp member
      exact asksRoom_builtin rfl (asksRoom_tupleOf fields List.mem_cons_self) demand isDemand

end Demands

-----------------------------------------------------------------------------------------
-- Capacity
-----------------------------------------------------------------------------------------

section Capacity

variable {fields : List String}

/-- A template over more fields than its capacity is not accepted: construction has too many
parameters, equality and hashing too long a tuple, and the others too many names.
-/
theorem not_accepted_tree {behavior : Behavior} (distinct : fields.Nodup)
    (beyond : capacity behavior < fields.length)
    : ¬(tree behavior fields).Accepted := by
  intro accepted
  have names : fields.length ≤ operandLimit := by
    simpa only [nameTable_tree behavior distinct] using accepted.names_le
  have formed := Stmt.wellFormedAll_iff.mp accepted.wellFormed
  have tuple {receiver : String} (formed : (tupleOf receiver fields).WellFormed
      (tree behavior fields).paramNames)
      : fields.length ≤ maxFields := by
    simpa [tupleOf, maxFields, operandLimit, Nat.lt_succ_iff] using formed.1
  cases behavior with
  | construct =>
      have params : (parameters .construct fields).length ≤ operandLimit := by
        simpa only [paramNames_tree] using accepted.params_le
      exact absurd (Nat.le_of_succ_le_succ params) (Nat.not_le.mpr beyond)
  | display | iteration => exact absurd names (Nat.not_le.mpr beyond)
  | equality =>
      obtain ⟨-, thenFormed, -⟩ := formed _ List.mem_cons_self
      obtain ⟨⟨left, -⟩, -⟩ := thenFormed
      exact absurd (tuple left) (Nat.not_le.mpr beyond)
  | hashing =>
      rcases formed _ List.mem_cons_self with label | ⟨-, inTuple, -⟩
      · cases label
      · exact absurd (tuple inTuple) (Nat.not_le.mpr beyond)

variable (behavior : Behavior) {n : Nat}

/-- Standard templates compile within their capacity. -/
theorem ofText_standard_of_le (fits : n ≤ capacity behavior)
    : Program.ofText (standard behavior n) = .ok (tree behavior (placeholders n)).program := by
  have accepted : (tree behavior (placeholders n)).Accepted :=
    accepted_tree behavior ((length_placeholders n).le.trans fits) (nodup_placeholders n)
      (fun _ => self_not_mem_placeholders n)
  have writable := writable_tree behavior (isFreeWord_of_mem_placeholders n)
  calc
    Program.ofText (standard behavior n)
        = Program.ofText (textOf (tree behavior (placeholders n)).written) :=
      congrArg Program.ofText (textOf_tree behavior (placeholders n)).symm
    _ = .ok (tree behavior (placeholders n)).program :=
      (Program.ofText_textOf_iff writable).mpr ⟨accepted, rfl⟩

/-- Standard templates beyond their capacity do not compile, because a table is full. -/
theorem ofText_standard_of_lt (beyond : capacity behavior < n)
    : ∃ table range, Program.ofText (standard behavior n) = .error ⟨.tableFull table, range⟩ := by
  have distinct : (tree behavior (placeholders n)).paramNames.Nodup := by
    rw [paramNames_tree]
    exact nodup_parameters behavior (nodup_placeholders n) (fun _ => self_not_mem_placeholders n)
  have asks := asksRoom_body behavior (placeholders n) (tree behavior (placeholders n)).layout
  rw [← paramNames_tree] at asks
  have refused : ¬(tree behavior (placeholders n)).Accepted :=
    not_accepted_tree (nodup_placeholders n) ((length_placeholders n).symm ▸ beyond)
  obtain ⟨fault, table, fails, isFull⟩ :=
    Definition.tableFull_of_not_accepted distinct asks refused
  have cause := (writable_tree behavior (isFreeWord_of_mem_placeholders n)).cause_ofText
  rw [textOf_tree, fails] at cause
  change (Program.ofText (standard behavior n)).mapError Fault.cause = .error fault.cause at cause
  cases result : Program.ofText (standard behavior n) with
  | ok p =>
      rw [result] at cause
      cases cause
  | error fault' =>
      rw [result] at cause
      have isCause : fault'.cause = .tableFull table := (Except.error.inj cause).trans isFull
      exact ⟨table, fault'.range, by rw [← isCause]⟩

/-- The program of a standard template binds as many fields as it has. -/
theorem arity_program_tree (within : n ≤ placeholderLimit)
    : (tree behavior (placeholders n)).program.arity = .ok n := by
  refine Program.arity_eq_ok_iff.mpr ⟨[], [], ?_, nofun, nofun, within⟩
  simpa [Program.table, Definition.program, placeholders]
    using nameTable_tree behavior (nodup_placeholders n)

/-- The capacity of a behavior is exact. Up to it the standard template compiles, with the
placeholders for its names and as many fields to bind, and beyond it a table is full. The most
fields over which all behaviors compile are the most that a behavior binds. No operand of any
program is cut off.
-/
theorem ofText_standard_iff_le_capacity (n : Nat)
    : ((∃ p, Program.ofText (standard behavior n) = .ok p ∧ p.arity = .ok n
          ∧ p.names.toList = placeholders n)
        ↔ n ≤ capacity behavior)
      ∧ ((∃ table range,
            Program.ofText (standard behavior n) = .error ⟨.tableFull table, range⟩)
        ↔ capacity behavior < n)
      ∧ ((∀ each, ∃ p, Program.ofText (standard each n) = .ok p) ↔ n ≤ maxFields)
      ∧ ∀ source p, Program.ofText source = .ok p →
        ∃ d, Definition.ofText source = .ok d ∧ p = d.program
          ∧ ∀ instr ∈ p.code, ∀ operand,
            instr.operand? = some operand → operand < operandLimit := by
  have le_of_ok {each : Behavior} {p : Program}
      (compiled : Program.ofText (standard each n) = .ok p)
      : n ≤ capacity each := by
    refine Nat.le_of_not_lt ?_
    intro beyond
    obtain ⟨table, range, fails⟩ := ofText_standard_of_lt each beyond
    rw [compiled] at fails
    cases fails
  refine ⟨⟨?_, ?_⟩, ⟨?_, ofText_standard_of_lt behavior⟩, ⟨?_, ?_⟩, ?_⟩
  · rintro ⟨p, compiled, -⟩
    exact le_of_ok compiled
  · intro fits
    have within : n ≤ placeholderLimit := (fits.trans (capacity_le behavior)).trans (by decide)
    exact ⟨_, ofText_standard_of_le behavior fits, arity_program_tree behavior within,
      nameTable_tree behavior (nodup_placeholders n)⟩
  · rintro ⟨table, range, fails⟩
    refine Nat.lt_of_not_le ?_
    intro fits
    rw [ofText_standard_of_le behavior fits] at fails
    cases fails
  · intro all
    obtain ⟨p, compiled⟩ := all .construct
    exact le_of_ok compiled
  · intro fits each
    exact ⟨_, ofText_standard_of_le each (fits.trans (maxFields_le_capacity each))⟩
  · intro source p compiled
    exact operand_lt_of_ofText compiled

end Capacity

end Template

end RecordSynth
