import RecordSynth.Proofs.Program.Rebinding
import RecordSynth.Proofs.Template.Trees

/-! What the trees of the templates have in common: they can be written down, they compile for as
many fields as a behavior binds, and other field names give the tree with these names.
-/

namespace RecordSynth

/-- A definition that can be written down is compiled from its text, up to places. -/
theorem Source.Definition.Writable.program_ofText {d : Source.Definition} (writable : d.Writable)
    : ∃ d', d'.erased = d.erased
        ∧ Program.ofText (Source.textOf d.written) = Program.ofDefinition d' := by
  obtain ⟨d', same, read⟩ := writable.ofText_textOf
  refine ⟨d', same, ?_⟩
  rw [Program.ofText, read]
  rfl

/-- What a definition that can be written down compiles to. -/
theorem Program.ofText_textOf_iff {d : Source.Definition} (writable : d.Writable) {p : Program}
    : Program.ofText (Source.textOf d.written) = .ok p ↔ d.Accepted ∧ p = d.program := by
  obtain ⟨d', same, compiled⟩ := writable.program_ofText
  rw [compiled, Program.ofDefinition_eq_ok_iff, ← d'.accepted_erased_iff, ← d'.program_erased,
    same, d.accepted_erased_iff, d.program_erased]

namespace Template

open Source

/-- The names that templates use for something else than a field. -/
def reserved : List String :=
  ["self", "other", "nameof", "concat", "type", "typename", "repr", "hash"]

/-- The constants of templates. -/
def templateConstants : List Literal :=
  [.str "(", .str "=", .str ", ", .str ")", .notApplicable, .none]

-----------------------------------------------------------------------------------------
-- What a display joins
-----------------------------------------------------------------------------------------

section Groups

theorem mem_separated {groups : List (List Expr)} {x : Expr} (member : x ∈ separated groups)
    : x = constant ", " ∨ ∃ group ∈ groups, x ∈ group := by
  induction groups with
  | nil => cases member
  | cons group rest ih =>
      cases rest with
      | nil => exact Or.inr ⟨group, List.mem_cons_self, by simpa [separated] using member⟩
      | cons next more =>
          rw [separated_cons (List.cons_ne_nil next more)] at member
          rcases List.mem_append.mp member with inGroup | behind
          · exact Or.inr ⟨group, List.mem_cons_self, inGroup⟩
          · rcases List.mem_cons.mp behind with isComma | inRest
            · exact Or.inl isComma
            · rcases ih inRest with isComma | ⟨other, inOthers, inOther⟩
              · exact Or.inl isComma
              · exact Or.inr ⟨other, List.mem_cons_of_mem group inOthers, inOther⟩

theorem mem_groupParts {fields : List String} {x : Expr} (member : x ∈ groupParts fields)
    : x = constant ", " ∨ ∃ field ∈ fields, x ∈ displayParts field := by
  rcases mem_separated member with isComma | ⟨group, inGroups, inGroup⟩
  · exact Or.inl isComma
  · obtain ⟨field, inFields, rfl⟩ := List.mem_map.mp inGroups
    exact Or.inr ⟨field, inFields, inGroup⟩

/-- The members of the groups of a list are those of the list. -/
theorem mem_of_mem_groupsOf {α : Type} {size : Nat} {xs group : List α} {x : α}
    (inGroups : group ∈ groupsOf size xs) (inGroup : x ∈ group)
    : x ∈ xs := by
  rw [← flatten_groupsOf size xs]
  exact List.mem_flatten_of_mem inGroups inGroup

/-- A display joins the parts of fields, commas, or the joined parts of groups of fields. -/
theorem mem_allParts {fields : List String} {x : Expr} (member : x ∈ allParts fields)
    : x = constant ", "
      ∨ (∃ field ∈ fields, x ∈ displayParts field)
      ∨ ∃ group ∈ groupsOf displayGroup fields, x = callTo "concat" (groupParts group) := by
  unfold allParts at member
  split at member
  · cases member
  · next group isGroups =>
    rcases mem_groupParts member with isComma | ⟨field, inGroup, inParts⟩
    · exact Or.inl isComma
    · have inFields : field ∈ fields :=
        mem_of_mem_groupsOf (isGroups ▸ List.mem_cons_self) inGroup
      exact Or.inr (Or.inl ⟨field, inFields, inParts⟩)
  · rcases mem_separated member with isComma | ⟨parts, inParts, isPart⟩
    · exact Or.inl isComma
    · obtain ⟨group, inGroups, rfl⟩ := List.mem_map.mp inParts
      exact Or.inr (Or.inr ⟨group, inGroups, List.mem_singleton.mp isPart⟩)

/-- How a property of the parts of fields carries over to what a display joins. -/
theorem forall_allParts {fields : List String} {holds : Expr → Prop}
    (comma : holds (constant ", "))
    (parts : ∀ field ∈ fields, ∀ x ∈ displayParts field, holds x)
    (joined : ∀ group ∈ groupsOf displayGroup fields, (∀ x ∈ groupParts group, holds x)
      → holds (callTo "concat" (groupParts group)))
    : ∀ x ∈ allParts fields, holds x := by
  intro x member
  rcases mem_allParts member with rfl | ⟨field, inFields, inParts⟩ | ⟨group, inGroups, rfl⟩
  · exact comma
  · exact parts field inFields x inParts
  · refine joined group inGroups ?_
    intro part inGroup
    rcases mem_groupParts inGroup with rfl | ⟨field, inFields, inParts⟩
    · exact comma
    · exact parts field (mem_of_mem_groupsOf inGroups inFields) part inParts

end Groups

-----------------------------------------------------------------------------------------
-- Templates can be written down
-----------------------------------------------------------------------------------------

section Writing

theorem isFreeWord_of_reserved {name : String} (fixed : name ∈ reserved) : IsFreeWord name := by
  revert name
  decide

theorem writable_named {name : String} (free : IsFreeWord name) : (named name).Writable :=
  free

theorem writable_fieldOf {receiver field : String} (receiverFree : receiver ∈ reserved)
    (free : IsFreeWord field)
    : (fieldOf receiver field).Writable :=
  ⟨isFreeWord_of_reserved receiverFree, free⟩

theorem writable_callTo {callee : String} {args : List Expr} (fixed : callee ∈ reserved)
    (argsWritable : ∀ x ∈ args, x.Writable)
    : (callTo callee args).Writable :=
  ⟨isFreeWord_of_reserved fixed, Expr.writableAll_iff.mpr argsWritable⟩

theorem writable_tupleOf {receiver : String} {fields : List String}
    (fixed : receiver ∈ reserved) (free : ∀ field ∈ fields, IsFreeWord field)
    : (tupleOf receiver fields).Writable := by
  refine Expr.writableAll_iff.mpr ?_
  intro x member
  obtain ⟨field, inFields, rfl⟩ := List.mem_map.mp member
  exact writable_fieldOf fixed (free field inFields)

theorem writable_allParts {fields : List String} (free : ∀ field ∈ fields, IsFreeWord field)
    : ∀ x ∈ allParts fields, x.Writable := by
  refine forall_allParts trivial ?_ ?_
  · intro field inFields x inParts
    have fieldFree := free field inFields
    simp only [displayParts, List.mem_cons, List.not_mem_nil, or_false] at inParts
    rcases inParts with rfl | rfl | rfl
    · exact writable_callTo (by decide) (by simpa using writable_named fieldFree)
    · trivial
    · exact writable_callTo (by decide) (by simpa using writable_fieldOf (by decide) fieldFree)
  · intro group _ parts
    exact writable_callTo (by decide) parts

/-- A template over names that lex as identifiers can be written down. -/
theorem writable_tree (behavior : Behavior) {fields : List String}
    (free : ∀ field ∈ fields, IsFreeWord field)
    : (tree behavior fields).Writable := by
  have self : IsFreeWord "self" := by decide
  have other : IsFreeWord "other" := by decide
  refine ⟨?_, ?_, Stmt.writableAll_iff.mpr ?_⟩
  · have free : IsFreeWord behavior.methodName := by
      cases behavior <;> decide
    exact free
  · intro p member
    obtain ⟨name, isParam, rfl⟩ := List.mem_map.mp member
    cases behavior with
    | construct =>
        rcases List.mem_cons.mp isParam with rfl | inFields
        · exact self
        · exact free name inFields
    | equality =>
        have names : name = "self" ∨ name = "other" := by simpa [parameters] using isParam
        rcases names with rfl | rfl
        · exact self
        · exact other
    | display => exact List.mem_singleton.mp isParam ▸ self
    | iteration => exact List.mem_singleton.mp isParam ▸ self
    | hashing => exact List.mem_singleton.mp isParam ▸ self
  · intro s member
    cases behavior with
    | construct =>
        obtain ⟨field, inFields, rfl⟩ := List.mem_map.mp member
        exact ⟨self, free field inFields, free field inFields⟩
    | display =>
        obtain rfl := List.mem_singleton.mp member
        refine writable_callTo (by decide) ?_
        simp only [List.forall_mem_cons, List.forall_mem_append]
        refine ⟨?_, trivial, writable_allParts free, trivial, List.forall_mem_nil _⟩
        exact writable_callTo (by decide) (by simpa using writable_named self)
    | equality =>
        have typeOf (name : String) (isFree : IsFreeWord name)
            : (callTo "type" [named name]).Writable :=
          writable_callTo (by decide) (by simpa using writable_named isFree)
        have selfTuple := @writable_tupleOf "self" fields (by decide) free
        have otherTuple := @writable_tupleOf "other" fields (by decide) free
        simp only [tree, body, List.mem_cons, List.not_mem_nil, or_false] at member
        rcases member with rfl | rfl
        · exact ⟨⟨typeOf _ self, typeOf _ other⟩, ⟨⟨selfTuple, otherTuple⟩, trivial⟩, trivial⟩
        · trivial
    | iteration =>
        obtain ⟨field, inFields, rfl⟩ := List.mem_map.mp member
        exact writable_fieldOf (by decide) (free field inFields)
    | hashing =>
        obtain rfl := List.mem_singleton.mp member
        exact writable_callTo (by decide) (by simpa using writable_tupleOf (by decide) free)

end Writing

-----------------------------------------------------------------------------------------
-- Names and constants of templates
-----------------------------------------------------------------------------------------

section Tables

theorem names_callTo {callee : String} (args : List Expr) (fixed : callee ≠ "nameof")
    : (callTo callee args).names = args.flatMap Expr.names := by
  rw [callTo, Expr.names, labelOf?_of_ne fixed, Expr.namesAll_eq_flatMap]
  rfl

theorem names_displayParts (field : String)
    : (displayParts field).flatMap Expr.names = [field, field] := by
  simp [displayParts, callTo, named, constant, fieldOf, Expr.names, Expr.namesAll, labelOf?]

/-- Commas enter no names. -/
theorem names_separated (groups : List (List Expr))
    : (separated groups).flatMap Expr.names
      = groups.flatMap fun group => group.flatMap Expr.names := by
  induction groups with
  | nil => rfl
  | cons group rest ih =>
      cases rest with
      | nil => simp [separated]
      | cons next more =>
          rw [separated_cons (List.cons_ne_nil next more), List.flatMap_append,
            List.flatMap_cons, ih, List.flatMap_cons]
          rfl

theorem names_groupParts (fields : List String)
    : (groupParts fields).flatMap Expr.names = fields.flatMap fun field => [field, field] := by
  rw [groupParts, names_separated, List.flatMap_map]
  simp only [names_displayParts]

/-- A display enters each field twice, however the fields are grouped. -/
theorem names_allParts (fields : List String)
    : (allParts fields).flatMap Expr.names = fields.flatMap fun field => [field, field] := by
  have together := flatten_groupsOf displayGroup fields
  unfold allParts
  cases isGroups : groupsOf displayGroup fields with
  | nil =>
      rw [isGroups] at together
      rw [← together]
      rfl
  | cons group rest =>
      rw [isGroups] at together
      cases rest with
      | nil =>
          have single : group = fields := by simpa using together
          rw [single]
          exact names_groupParts fields
      | cons next more =>
          have joined (parts : List String)
              : [callTo "concat" (groupParts parts)].flatMap Expr.names
                = parts.flatMap fun field => [field, field] := by
            rw [List.flatMap_singleton, names_callTo _ (by decide), names_groupParts]
          dsimp only
          rw [names_separated, List.flatMap_map]
          simp only [joined]
          rw [← together, List.flatten_eq_flatMap, List.flatMap_assoc]
          rfl

theorem names_tupleOf (receiver : String) (fields : List String)
    : (tupleOf receiver fields).names = fields := by
  rw [tupleOf, Expr.names, Expr.namesAll_eq_flatMap, List.flatMap_map]
  simp [fieldOf, named, Expr.names]

/-- The table of names of a template is the list of fields. -/
theorem nameTable_tree (behavior : Behavior) {fields : List String} (distinct : fields.Nodup)
    : (tree behavior fields).nameTable = fields := by
  have once : enterAll [] fields = fields := enterAll_of_nodup distinct
  unfold Definition.nameTable
  rw [Stmt.namesAll_eq_flatMap]
  cases behavior with
  | construct =>
      have names : (body .construct fields).flatMap Stmt.names = fields := by
        simp [body, named, Stmt.names, Expr.names, List.flatMap_map]
      rw [tree, names]
      exact once
  | display =>
      have names : (body .display fields).flatMap Stmt.names
          = fields.flatMap fun field => [field, field] := by
        rw [body, List.flatMap_singleton, Stmt.names, names_callTo _ (by decide),
          List.flatMap_cons, List.flatMap_cons, List.flatMap_append, names_allParts,
          names_callTo _ (by decide)]
        simp [constant, named, Expr.names]
      rw [tree, names]
      exact enterAll_twice distinct
  | equality =>
      have names : (body .equality fields).flatMap Stmt.names = fields ++ fields := by
        simp [body, named, Stmt.names, Stmt.namesAll, Expr.names, names_callTo, names_tupleOf]
      rw [tree, names, enterAll_append, once]
      exact enterAll_of_subset (fun _ member => member)
  | iteration =>
      have names : (body .iteration fields).flatMap Stmt.names = fields := by
        simp [body, named, fieldOf, Stmt.names, Expr.names, List.flatMap_map]
      rw [tree, names]
      exact once
  | hashing =>
      have names : (body .hashing fields).flatMap Stmt.names = fields := by
        simp [body, Stmt.names, names_callTo, names_tupleOf]
      rw [tree, names]
      exact once

theorem literals_callTo (callee : String) (args : List Expr)
    : (callTo callee args).literals = args.flatMap Expr.literals := by
  rw [callTo, Expr.literals, Expr.literalsAll_eq_flatMap]

theorem literals_tupleOf (receiver : String) (fields : List String)
    : (tupleOf receiver fields).literals = [] := by
  rw [tupleOf, Expr.literals, Expr.literalsAll_eq_flatMap, List.flatMap_map]
  simp [fieldOf, named, Expr.literals]

theorem literals_allParts (fields : List String)
    : ∀ x ∈ allParts fields, x.literals ⊆ templateConstants := by
  refine forall_allParts (by decide) ?_ ?_
  · intro field _ x inParts
    simp only [displayParts, List.mem_cons, List.not_mem_nil, or_false] at inParts
    rcases inParts with rfl | rfl | rfl
    · simp [literals_callTo, named, Expr.literals]
    · decide
    · simp [literals_callTo, fieldOf, named, Expr.literals]
  · intro group _ parts
    rw [literals_callTo]
    intro value member
    obtain ⟨x, inParts, inLiterals⟩ := List.mem_flatMap.mp member
    exact parts x inParts inLiterals

/-- A template uses few constants, whatever the fields. -/
theorem literals_body (behavior : Behavior) (fields : List String)
    : Stmt.literalsAll (body behavior fields) ⊆ templateConstants := by
  rw [Stmt.literalsAll_eq_flatMap]
  cases behavior with
  | construct =>
      intro value member
      simp [body, named, Stmt.literals, Expr.literals, List.flatMap_map] at member
  | display =>
      have parts : (allParts fields).flatMap Expr.literals ⊆ templateConstants := by
        intro value member
        obtain ⟨x, inParts, inLiterals⟩ := List.mem_flatMap.mp member
        exact literals_allParts fields x inParts inLiterals
      simpa [body, Stmt.literals, literals_callTo, named, constant, Expr.literals,
        templateConstants] using parts
  | equality =>
      simp [body, Stmt.literals, Stmt.literalsAll, Expr.literals, literals_callTo,
        literals_tupleOf, named, templateConstants]
  | iteration =>
      intro value member
      simp [body, fieldOf, named, Stmt.literals, Expr.literals, List.flatMap_map] at member
  | hashing => simp [body, Stmt.literals, literals_callTo, literals_tupleOf]

theorem length_constTable_tree (behavior : Behavior) (fields : List String)
    : (tree behavior fields).constTable.length ≤ operandLimit := by
  have distinct : (tree behavior fields).constTable.Nodup := nodup_enterAll List.nodup_nil _
  have subset : (tree behavior fields).constTable ⊆ templateConstants := by
    intro value member
    rcases mem_enterAll.mp member with none | added
    · cases none
    · rcases List.mem_append.mp added with inBody | isNone
      · exact literals_body behavior fields inBody
      · rw [List.mem_singleton.mp isNone]
        decide
  exact (distinct.length_le_of_subset subset).trans (by decide)

end Tables

-----------------------------------------------------------------------------------------
-- Displays stay within the limits
-----------------------------------------------------------------------------------------

section Sizes

/-- Groups but the last one are full, by the recursion of the grouping. -/
theorem length_groupsFrom {α : Type} {size : Nat} (positive : 0 < size) (done : List (List α))
    (xs : List α)
    : size * (groupsFrom size done xs).length < size * done.length + xs.length + size := by
  fun_induction groupsFrom size done xs with
  | case1 done => simpa using positive
  | case2 done x xs ih =>
      rw [List.length_cons, List.length_drop, Nat.mul_add, Nat.mul_one] at ih
      rw [List.length_cons]
      -- A group that is not full is the last one.
      by_cases full : size - 1 ≤ xs.length
      · omega
      · have fewer : (groupsFrom size ((x :: xs.take (size - 1)) :: done)
            (xs.drop (size - 1))).length ≤ done.length + 1 := by
          have below : size * (groupsFrom size ((x :: xs.take (size - 1)) :: done)
              (xs.drop (size - 1))).length < size * (done.length + 1 + 1) := by
            rw [Nat.mul_add, Nat.mul_add, Nat.mul_one]
            omega
          have := Nat.lt_of_mul_lt_mul_left below
          omega
        have atMost := Nat.mul_le_mul_left size fewer
        rw [Nat.mul_add, Nat.mul_one] at atMost
        omega

theorem length_separated {groups : List (List Expr)} {size : Nat}
    (small : ∀ group ∈ groups, group.length ≤ size)
    : (separated groups).length ≤ (size + 1) * groups.length := by
  induction groups with
  | nil => simp [separated]
  | cons group rest ih =>
      obtain ⟨head, others⟩ := List.forall_mem_cons.mp small
      cases rest with
      | nil =>
          simp only [separated, List.intercalate_singleton, List.length_singleton]
          omega
      | cons next more =>
          have behind := ih others
          rw [separated_cons (List.cons_ne_nil next more), List.length_append, List.length_cons,
            List.length_cons, Nat.mul_add]
          omega

theorem length_groupParts {fields : List String} (few : fields.length ≤ displayGroup)
    : (groupParts fields).length ≤ 4 * displayGroup := by
  have parts : ∀ group ∈ fields.map displayParts, group.length ≤ 3 := by
    simp [displayParts]
  have length := length_separated parts
  rw [List.length_map] at length
  exact length.trans (Nat.mul_le_mul_left 4 few)

/-- A display joins no more than it can, also for as many fields as a table has room for. -/
theorem length_allParts {fields : List String} (fits : fields.length ≤ operandLimit)
    : (allParts fields).length ≤ 4 * displayGroup := by
  have positive : 0 < displayGroup := by decide
  have small : ∀ group ∈ groupsOf displayGroup fields, group.length ≤ displayGroup :=
    length_of_mem_groupsOf positive
  have groups := length_groupsFrom positive [] fields
  unfold allParts
  split
  · simp
  · next group isGroups => exact length_groupParts (small group (by simp [isGroups]))
  · have joined : ∀ parts ∈ (groupsOf displayGroup fields).map
        (fun group => [callTo "concat" (groupParts group)]), parts.length ≤ 1 := by
      simp
    have length := length_separated joined
    rw [List.length_map] at length
    -- Each group takes one place and one comma, and there are few enough groups.
    rw [groupsOf] at length ⊢
    simp only [displayGroup, operandLimit, List.length_nil] at *
    omega

end Sizes

-----------------------------------------------------------------------------------------
-- Templates compile
-----------------------------------------------------------------------------------------

/-- The most fields over which the template of a behavior compiles. A table has room for one field
more than a behavior binds, but not with a receiver in front of it, and a tuple has not.
-/
def capacity : Behavior → Nat
  | .construct | .equality | .hashing => maxFields
  | .display | .iteration => operandLimit

theorem maxFields_le_capacity (behavior : Behavior) : maxFields ≤ capacity behavior := by
  cases behavior <;> decide

theorem capacity_le (behavior : Behavior) : capacity behavior ≤ operandLimit := by
  cases behavior <;> decide

section Acceptance

variable {params fields : List String}

theorem wellFormed_joined {args : List Expr} (few : args.length < operandLimit)
    (formed : ∀ x ∈ args, x.WellFormed params)
    : (callTo "concat" args).WellFormed params :=
  Or.inr ⟨Or.inl ⟨rfl, few⟩, Expr.wellFormedAll_iff.mpr formed⟩

theorem wellFormed_builtin {callee : String} {x : Expr}
    (known : (Builtin.ofName? callee).isSome) (formed : x.WellFormed params)
    : (callTo callee [x]).WellFormed params :=
  Or.inr ⟨Or.inr ⟨known, rfl⟩, formed, trivial⟩

theorem wellFormed_tupleOf {receiver : String} (isParam : receiver ∈ params)
    (fits : fields.length ≤ maxFields)
    : (tupleOf receiver fields).WellFormed params := by
  refine ⟨?_, Expr.wellFormedAll_iff.mpr ?_⟩
  · rw [List.length_map]
    exact Nat.lt_of_le_of_lt fits (by decide)
  · intro x member
    obtain ⟨field, _, rfl⟩ := List.mem_map.mp member
    exact isParam

theorem wellFormed_allParts (isParam : "self" ∈ params)
    : ∀ x ∈ allParts fields, x.WellFormed params := by
  refine forall_allParts trivial ?_ ?_
  · intro field _ x inParts
    simp only [displayParts, List.mem_cons, List.not_mem_nil, or_false] at inParts
    rcases inParts with rfl | rfl | rfl
    · exact Or.inl rfl
    · trivial
    · exact wellFormed_builtin rfl isParam
  · intro group inGroups parts
    have small := length_of_mem_groupsOf (by decide) group inGroups
    exact wellFormed_joined (Nat.lt_of_le_of_lt (length_groupParts small) (by decide)) parts

theorem wellFormed_body (behavior : Behavior) (fits : fields.length ≤ capacity behavior)
    : Stmt.WellFormedAll (parameters behavior fields) (behavior == .iteration)
        (body behavior fields) := by
  rw [Stmt.wellFormedAll_iff]
  intro s member
  cases behavior with
  | construct =>
      obtain ⟨field, inFields, rfl⟩ := List.mem_map.mp member
      exact ⟨List.mem_cons_of_mem "self" inFields, List.mem_cons_self⟩
  | display =>
      have self : "self" ∈ parameters .display fields := List.mem_cons_self
      obtain rfl := List.mem_singleton.mp member
      refine wellFormed_joined ?_ ?_
      · have length := length_allParts fits
        simp only [List.length_cons, List.length_append, List.length_nil]
        exact Nat.lt_of_le_of_lt (by omega) (by decide : 4 * displayGroup + 3 < operandLimit)
      · simp only [List.forall_mem_cons, List.forall_mem_append]
        exact ⟨wellFormed_builtin rfl self, trivial, wellFormed_allParts self, trivial, nofun⟩
  | equality =>
      have self : "self" ∈ parameters .equality fields := by simp [parameters]
      have other : "other" ∈ parameters .equality fields := by simp [parameters]
      simp only [body, List.mem_cons, List.not_mem_nil, or_false] at member
      rcases member with rfl | rfl
      · refine ⟨⟨wellFormed_builtin rfl self, wellFormed_builtin rfl other⟩, ⟨?_, trivial⟩,
          trivial⟩
        exact ⟨wellFormed_tupleOf self fits, wellFormed_tupleOf other fits⟩
      · trivial
  | iteration =>
      obtain ⟨field, _, rfl⟩ := List.mem_map.mp member
      exact ⟨rfl, List.mem_cons_self⟩
  | hashing =>
      obtain rfl := List.mem_singleton.mp member
      exact wellFormed_builtin rfl (wellFormed_tupleOf List.mem_cons_self fits)

/-- Code for one value after the other grows by what the code of each value takes. -/
theorem length_codeAll_fields (l : Layout) (receiver : String) (fields : List String)
    : (Expr.codeAll l (fields.map (fieldOf receiver))).length = 2 * fields.length := by
  induction fields with
  | nil => rfl
  | cons field rest ih =>
      rw [List.map_cons, Expr.codeAll, List.length_append, ih, List.length_cons]
      simp only [fieldOf, named, Expr.code, List.length_append, List.length_singleton]
      omega

theorem targetsFit_straight {l : Layout} {x : Expr} {last : Instr}
    (straight : last.target? = none)
    : TargetsFit (x.code l ++ [last]) :=
  targetsFit_append.mpr ⟨x.targetsFit_code l, targetsFit_singleton straight⟩

/-- Only equality jumps, and not far: over the comparison of two tuples. -/
theorem targetsFit_bodyCode (behavior : Behavior) (fits : fields.length ≤ operandLimit)
    : TargetsFit (tree behavior fields).bodyCode := by
  unfold Definition.bodyCode
  generalize (tree behavior fields).layout = l
  cases behavior with
  | construct =>
      refine Stmt.targetsFit_codeAll ?_
      intro s member start
      obtain ⟨field, _, rfl⟩ := List.mem_map.mp member
      exact targetsFit_append.mpr ⟨Expr.targetsFit_code l _, targetsFit_straight rfl⟩
  | display =>
      refine Stmt.targetsFit_codeAll ?_
      intro s member start
      obtain rfl := List.mem_singleton.mp member
      exact targetsFit_straight rfl
  | equality =>
      have tupleLength (receiver : String)
          : ((tupleOf receiver fields).code l).length = 2 * fields.length + 1 := by
        rw [tupleOf, Expr.code, List.length_append, length_codeAll_fields]
        rfl
      have typeLength (name : String) : ((callTo "type" [named name]).code l).length = 2 := rfl
      simp only [tree, body, Stmt.codeAll, Stmt.code, List.append_nil]
      refine targetsFit_append.mpr ⟨targetsFit_append.mpr ⟨Expr.targetsFit_code l _,
        targetsFit_cons.mpr ⟨?_, targetsFit_straight rfl⟩⟩, targetsFit_straight rfl⟩
      intro target isTarget
      obtain rfl := Option.some.inj isTarget
      simp only [Expr.code, List.length_append, List.length_singleton, tupleLength, typeLength]
      simp only [operandLimit, targetLimit] at *
      omega
  | iteration =>
      refine Stmt.targetsFit_codeAll ?_
      intro s member start
      obtain ⟨field, _, rfl⟩ := List.mem_map.mp member
      exact targetsFit_straight rfl
  | hashing =>
      refine Stmt.targetsFit_codeAll ?_
      intro s member start
      obtain rfl := List.mem_singleton.mp member
      exact targetsFit_straight rfl

theorem paramNames_tree (behavior : Behavior) (fields : List String)
    : (tree behavior fields).paramNames = parameters behavior fields := by
  simp [Definition.paramNames, tree, Function.comp_def]

theorem nodup_parameters (behavior : Behavior) (distinct : fields.Nodup)
    (receiver : behavior = .construct → "self" ∉ fields)
    : (parameters behavior fields).Nodup := by
  cases behavior with
  | construct => exact List.nodup_cons.mpr ⟨receiver rfl, distinct⟩
  | equality => simp [parameters]
  | _ => exact List.nodup_singleton _

theorem length_parameters_le (behavior : Behavior) (fits : fields.length ≤ capacity behavior)
    : (parameters behavior fields).length ≤ operandLimit := by
  cases behavior with
  | construct => exact Nat.succ_le_succ fits
  | equality => exact (by decide : 2 ≤ operandLimit)
  | _ => exact (by decide : 1 ≤ operandLimit)

/-- Templates over no more fields than their capacity compile. -/
theorem accepted_tree (behavior : Behavior) (fits : fields.length ≤ capacity behavior)
    (distinct : fields.Nodup) (receiver : behavior = .construct → "self" ∉ fields)
    : (tree behavior fields).Accepted := by
  have inTable := fits.trans (capacity_le behavior)
  refine ⟨?_, ?_, ?_, ?_, length_constTable_tree behavior fields,
    targetsFit_bodyCode behavior inTable⟩
  · rw [paramNames_tree]
    exact nodup_parameters behavior distinct receiver
  · rw [paramNames_tree]
    exact length_parameters_le behavior fits
  · rw [paramNames_tree]
    exact wellFormed_body behavior fits
  · rw [nameTable_tree behavior distinct]
    exact inTable

/-- The fields of a template leave room for its receiver, by name and by number. -/
structure Fit (behavior : Behavior) (fields : List String) : Prop where
  fits : fields.length ≤ maxFields
  distinct : fields.Nodup
  receiver : behavior = .construct → "self" ∉ fields

theorem Fit.parameters {behavior : Behavior} (fit : Fit behavior fields)
    : (parameters behavior fields).Nodup
      ∧ (parameters behavior fields).length ≤ operandLimit :=
  ⟨nodup_parameters behavior fit.distinct fit.receiver,
    length_parameters_le behavior (fit.fits.trans (maxFields_le_capacity behavior))⟩

theorem Fit.accepted {behavior : Behavior} (fit : Fit behavior fields)
    : (tree behavior fields).Accepted :=
  accepted_tree behavior (fit.fits.trans (maxFields_le_capacity behavior)) fit.distinct
    fit.receiver

end Acceptance

-----------------------------------------------------------------------------------------
-- Templates with other fields
-----------------------------------------------------------------------------------------

section Renaming

variable {f : String → String}

theorem renamed_callTo (callee : String) (args : List Expr)
    : (callTo callee args).renamed f = callTo (f callee) (args.map (Expr.renamed f)) := by
  rw [callTo, Expr.renamed, Expr.renamedAll_eq_map, callTo]

theorem renamed_tupleOf (receiver : String) (fields : List String)
    : (tupleOf receiver fields).renamed f = tupleOf (f receiver) (fields.map f) := by
  rw [tupleOf, Expr.renamed, Expr.renamedAll_eq_map, tupleOf, List.map_map, List.map_map]
  rfl

/-- Groups of renamed fields are the renamed groups, by the recursion of the grouping. -/
theorem groupsFrom_map {α β : Type} (g : α → β) (size : Nat) (done : List (List α))
    (xs : List α)
    : groupsFrom size (done.map (List.map g)) (xs.map g)
      = (groupsFrom size done xs).map (List.map g) := by
  fun_induction groupsFrom size done xs with
  | case1 done => simp [groupsFrom]
  | case2 done x xs ih =>
      rw [List.map_cons, groupsFrom, ← ih]
      simp

theorem groupsOf_map {α β : Type} (g : α → β) (size : Nat) (xs : List α)
    : groupsOf size (xs.map g) = (groupsOf size xs).map (List.map g) :=
  groupsFrom_map g size [] xs

theorem renamed_separated (groups : List (List Expr))
    : (separated groups).map (Expr.renamed f)
      = separated (groups.map (List.map (Expr.renamed f))) := by
  induction groups with
  | nil => rfl
  | cons group rest ih =>
      cases rest with
      | nil => simp [separated]
      | cons next more =>
          have others : (next :: more).map (List.map (Expr.renamed f)) ≠ [] := by
            simp
          rw [separated_cons (List.cons_ne_nil next more), List.map_append, List.map_cons, ih]
          exact (separated_cons others).symm

variable (keeps : ∀ name ∈ reserved, f name = name)

include keeps

theorem renamed_displayParts (field : String)
    : (displayParts field).map (Expr.renamed f) = displayParts (f field) := by
  simp [displayParts, renamed_callTo, named, constant, fieldOf, Expr.renamed,
    keeps "self" (by decide), keeps "nameof" (by decide), keeps "repr" (by decide)]

theorem renamed_groupParts (fields : List String)
    : (groupParts fields).map (Expr.renamed f) = groupParts (fields.map f) := by
  rw [groupParts, renamed_separated, groupParts, List.map_map, List.map_map]
  congr 2
  funext field
  exact renamed_displayParts keeps field

theorem renamed_allParts (fields : List String)
    : (allParts fields).map (Expr.renamed f) = allParts (fields.map f) := by
  unfold allParts
  rw [groupsOf_map]
  rcases groupsOf displayGroup fields with _ | ⟨group, _ | ⟨next, more⟩⟩
  · rfl
  · exact renamed_groupParts keeps group
  · have joined (parts : List String)
        : [callTo "concat" (groupParts parts)].map (Expr.renamed f)
          = [callTo "concat" (groupParts (parts.map f))] := by
      rw [List.map_singleton, renamed_callTo, renamed_groupParts keeps,
        keeps "concat" (by decide)]
    have groups : ((group :: next :: more).map
          fun group => [callTo "concat" (groupParts group)]).map (List.map (Expr.renamed f))
        = ((group :: next :: more).map (List.map f)).map
          fun group => [callTo "concat" (groupParts group)] := by
      rw [List.map_map, List.map_map]
      exact List.map_congr_left (fun parts _ => joined parts)
    exact (renamed_separated _).trans (congrArg separated groups)

/-- A template with other fields is the template of the other fields. -/
theorem renamed_tree (behavior : Behavior) (fields : List String)
    : (tree behavior fields).renamed f = tree behavior (fields.map f) := by
  have self := keeps "self" (by decide)
  have other := keeps "other" (by decide)
  have params : (tree behavior fields).params.map (Param.renamed f)
      = (tree behavior (fields.map f)).params := by
    cases behavior <;> simp [tree, parameters, Param.renamed, self, other]
  have body : Stmt.renamedAll f (body behavior fields) = body behavior (fields.map f) := by
    rw [Stmt.renamedAll_eq_map]
    cases behavior with
    | construct => simp [body, named, Stmt.renamed, Expr.renamed, self]
    | display =>
        simp [body, Stmt.renamed, renamed_callTo, named, constant, Expr.renamed, self,
          renamed_allParts keeps, keeps "concat" (by decide), keeps "typename" (by decide)]
    | equality =>
        simp [body, Stmt.renamed, Stmt.renamedAll, renamed_callTo, renamed_tupleOf, named,
          Expr.renamed, self, other, keeps "type" (by decide)]
    | iteration => simp [body, fieldOf, named, Stmt.renamed, Expr.renamed, self]
    | hashing =>
        simp [body, Stmt.renamed, renamed_callTo, renamed_tupleOf, self,
          keeps "hash" (by decide)]
  rw [Definition.renamed, params]
  exact congrArg (fun body => (⟨_, _, _, body, _⟩ : Definition)) body

end Renaming

end Template

end RecordSynth
