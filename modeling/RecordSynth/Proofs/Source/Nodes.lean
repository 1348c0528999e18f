import RecordSynth.Proofs.Source.ViablePrefix

/-! The nodes of trees and where they stand. Whatever tokens form a node, some of them that stand
together form each of its children. So every node of a tree that is read stands from the first of
its tokens to the last one, and around its children.
-/

namespace RecordSynth.Source

-----------------------------------------------------------------------------------------
-- Nodes
-----------------------------------------------------------------------------------------

/-- A node of a tree: an expression, a statement, an identifier that is a parameter or is called, or
a definition.
-/
inductive Node where
  | expr (x : Expr)
  | stmt (s : Stmt)
  | ident (name : String) (range : ByteRange)
  | definition (d : Definition)

namespace Node

/-- Where the node stands. -/
def range : Node → ByteRange
  | expr x => x.range
  | stmt s => s.range
  | ident _ range => range
  | definition d => d.range

/-- The nodes that the node is put together from. -/
def children : Node → List Node
  | expr (.literal _ _) | expr (.var _ _) => []
  | expr (.attr _ object _) => [expr object]
  | expr (.call _ callee calleeRange args) => ident callee calleeRange :: args.map expr
  | expr (.tuple _ items) => items.map expr
  | expr (.compare _ _ left right) => [expr left, expr right]
  | stmt (.assign _ object _ value) => [expr object, expr value]
  | stmt (.giveBack _ value) => value.toList.map expr
  | stmt (.yield _ value) => [expr value]
  | stmt (.branch _ test thenBody elseBody) => expr test :: (thenBody ++ elseBody).map stmt
  | stmt (.discard _ value) => [expr value]
  | ident _ _ => []
  | definition d => d.params.map (fun p => ident p.name p.range) ++ d.body.map stmt

/-- The node is the root of a tree or anywhere below it. -/
inductive Within (node : Node) : Node → Prop
  | self : node.Within node
  | child {root child : Node} (isChild : child ∈ root.children) (below : node.Within child)
    : node.Within root

/-- The tokens form the node. -/
def FormedBy (ts : List PlacedToken) : Node → Prop
  | expr x => Forms ts (.expr x)
  | stmt s => Forms ts (.stmt s)
  | ident name range => ∃ t, ts = [t] ∧ t.token = .ident name ∧ t.range = range
  | definition d => FormsDefinition ts d

theorem children_placedAt (x : Expr) (range : ByteRange)
    : (expr (x.placedAt range)).children = (expr x).children := by
  cases x <;> rfl

end Node

-----------------------------------------------------------------------------------------
-- Children are formed by tokens inside
-----------------------------------------------------------------------------------------

/-- Each of the nodes is formed by some of the tokens, which stand together. -/
def FormedInside (ts : List PlacedToken) (nodes : List Node) : Prop :=
  ∀ node ∈ nodes, ∃ us, us <:+: ts ∧ node.FormedBy us

section Inside

variable {ts us : List PlacedToken} {node : Node} {nodes more : List Node}

theorem formedInside_nil : FormedInside ts [] :=
  nofun

theorem FormedInside.mono (formed : FormedInside us nodes) (inside : us <:+: ts)
    : FormedInside ts nodes := by
  intro node member
  obtain ⟨vs, inUs, formedBy⟩ := formed node member
  exact ⟨vs, inUs.trans inside, formedBy⟩

theorem FormedInside.append (first : FormedInside ts nodes) (second : FormedInside ts more)
    : FormedInside ts (nodes ++ more) := by
  intro node member
  rcases List.mem_append.mp member with isFirst | isSecond
  · exact first node isFirst
  · exact second node isSecond

theorem formedInside_singleton (node : Node) (formed : node.FormedBy us) (inside : us <:+: ts)
    : FormedInside ts [node] :=
  List.forall_mem_singleton.mpr ⟨us, inside, formed⟩

/-- What stands behind another token stands inside. -/
theorem infix_behind (front : List PlacedToken) (t : PlacedToken) (us : List PlacedToken)
    : us <:+: front ++ t :: us :=
  (List.suffix_cons t us).isInfix.trans (List.suffix_append front _).isInfix

end Inside

/-- The nodes of which a phrase is put together: the children of the node that it is, or the nodes
that it lists.
-/
def Phrase.parts : Phrase → List Node
  | .primary x | .operand x | .expr x => (Node.expr x).children
  | .items _ xs => xs.map .expr
  | .stmt s | .branch s => (Node.stmt s).children
  | .block ss | .stmts ss => ss.map .stmt

/-- The parts of a branch with an alternative are formed by the tokens between its words. -/
theorem formedInside_branch {t divider : PlacedToken} {ts us vs : List PlacedToken} {test : Expr}
    {thenBody elseBody : List Stmt} (testFormed : Forms ts (.expr test))
    (thenParts : FormedInside us (thenBody.map .stmt))
    (elseParts : FormedInside vs (elseBody.map .stmt))
    : FormedInside (t :: (ts ++ (us ++ divider :: vs)))
        (.expr test :: (thenBody ++ elseBody).map .stmt) := by
  have tested := formedInside_singleton (.expr test) testFormed ⟨[t], us ++ divider :: vs, rfl⟩
  have thenInside : us <:+: t :: (ts ++ (us ++ divider :: vs)) :=
    (List.prefix_append us _).isInfix.trans (List.suffix_append (t :: ts) _).isInfix
  have elseInside : vs <:+: t :: (ts ++ (us ++ divider :: vs)) :=
    (infix_behind us divider vs).trans (List.suffix_append (t :: ts) _).isInfix
  have bodies := (thenParts.mono thenInside).append (elseParts.mono elseInside)
  simpa using tested.append bodies

/-- What a phrase is put together from is formed by tokens of the phrase, by induction on the
forming.
-/
theorem Forms.parts {ts : List PlacedToken} {phrase : Phrase} (h : Forms ts phrase)
    : FormedInside ts phrase.parts := by
  induction h with
  | literal _ => exact formedInside_nil
  | var _ => exact formedInside_nil
  | @call t start close callee _ _ _ isName _ _ _ ih =>
      have called : FormedInside [t] [.ident callee t.range] :=
        formedInside_singleton _ ⟨t, rfl, isName, rfl⟩ (List.infix_refl _)
      exact (called.mono ⟨[], _, rfl⟩).append (ih.mono ⟨[t, start], [close], rfl⟩)
  | @group start close _ _ _ _ _ ih =>
      rw [Phrase.parts, Node.children_placedAt]
      exact ih.mono ⟨[start], [close], rfl⟩
  | @tuple start close _ _ _ _ _ _ _ ih => exact ih.mono ⟨[start], [close], rfl⟩
  | operand _ ih => exact ih
  | attr formed _ _ _ =>
      exact formedInside_singleton (.expr _) (.expr formed) (List.prefix_append _ _).isInfix
  | expr _ ih => exact ih
  | @compare t ts us _ _ _ left _ right _ _ =>
      exact (formedInside_singleton (.expr _) left (List.prefix_append _ _).isInfix).append
        (formedInside_singleton (.expr _) (.expr right) (infix_behind ts t us))
  | noItems => exact formedInside_nil
  | lastItem formed _ => exact formedInside_singleton (.expr _) formed (List.infix_refl _)
  | @item t ts us _ _ _ first _ _ _ ih =>
      exact (formedInside_singleton (.expr _) first (List.prefix_append _ _).isInfix).append
        (ih.mono (infix_behind ts t us))
  | @assign t close ts us _ _ _ _ _ _ value _ ih _ =>
      -- The object is what the attribute that is assigned is put together from.
      refine (ih.mono (List.prefix_append _ _).isInfix).append
        (formedInside_singleton (.expr _) value ?_)
      exact (List.prefix_append us _).isInfix.trans (infix_behind ts t _)
  | giveBackNone _ _ => exact formedInside_nil
  | @giveBack t close _ _ _ formed _ _ =>
      exact formedInside_singleton (.expr _) formed ⟨[t], [close], rfl⟩
  | @yield t close _ _ _ formed _ _ =>
      exact formedInside_singleton (.expr _) formed ⟨[t], [close], rfl⟩
  | discard formed _ _ =>
      exact formedInside_singleton (.expr _) formed (List.prefix_append _ _).isInfix
  | branch _ ih => exact ih
  | @ifThen t ts us _ _ _ test _ _ ih =>
      have tested := formedInside_singleton (.expr _) test ⟨[t], us, rfl⟩
      have bodies := ih.mono (List.suffix_append (t :: ts) us).isInfix
      simpa [Phrase.parts, Node.children] using tested.append bodies
  | ifElse _ test _ _ _ _ thenParts elseParts => exact formedInside_branch test thenParts elseParts
  | elseIf _ test _ _ nested _ thenParts _ =>
      exact formedInside_branch test thenParts
        (formedInside_singleton (.stmt _) (.branch nested) (List.infix_refl _))
  | @block start close _ _ _ _ _ ih => exact ih.mono ⟨[start], [close], rfl⟩
  | noStmts => exact formedInside_nil
  | nextStmt first _ _ ih =>
      exact (formedInside_singleton (.stmt _) first (List.prefix_append _ _).isInfix).append
        (ih.mono (List.suffix_append _ _).isInfix)

/-- Parameters are formed by one token each. -/
theorem FormsParams.parts {ts : List PlacedToken} {ps : List Param} (h : FormsParams ts ps)
    : FormedInside ts (ps.map fun p => .ident p.name p.range) := by
  induction h with
  | noParams => exact formedInside_nil
  | @lastParam t name isName =>
      exact formedInside_singleton (.ident name t.range) ⟨t, rfl, isName, rfl⟩ (List.infix_refl _)
  | @param t comma name ts ps isName _ _ ih =>
      have first := formedInside_singleton (.ident name t.range) ⟨t, rfl, isName, rfl⟩
        (List.prefix_append [t] (comma :: ts)).isInfix
      exact first.append (ih.mono (List.suffix_append [t, comma] ts).isInfix)

/-- The parameters and the statements of a definition are formed by its tokens. -/
theorem FormsDefinition.parts {ts : List PlacedToken} {d : Definition} (h : FormsDefinition ts d)
    : FormedInside ts (Node.definition d).children := by
  cases h with
  | @definition t start close opening ts us _ _ _ _ _ _ _ params _ body =>
      have tail := List.suffix_append opening (t :: start :: (ts ++ close :: us))
      have inParens : ts <:+: t :: start :: (ts ++ close :: us) := ⟨[t, start], close :: us, rfl⟩
      have behindParens : us <:+: t :: start :: (ts ++ close :: us) :=
        (infix_behind ts close us).trans (List.suffix_append [t, start] _).isInfix
      exact (params.parts.mono (inParens.trans tail.isInfix)).append
        (body.parts.mono (behindParens.trans tail.isInfix))

/-- The children of a node are formed by tokens of the node. -/
theorem Node.FormedBy.children {ts : List PlacedToken} {node : Node} (formed : node.FormedBy ts)
    : FormedInside ts node.children := by
  cases node with
  | expr x => exact Forms.parts formed
  | stmt s => exact Forms.parts formed
  | ident name range => exact formedInside_nil
  | definition d => exact FormsDefinition.parts formed

/-- All nodes below a root are formed by tokens of the root, by induction on the way down. -/
theorem Node.Within.formedBy {ts : List PlacedToken} {node root : Node} (within : node.Within root)
    (formed : root.FormedBy ts)
    : ∃ us, us <:+: ts ∧ node.FormedBy us := by
  induction within generalizing ts with
  | self => exact ⟨ts, List.infix_refl ts, formed⟩
  | child isChild _ ih =>
      obtain ⟨us, inside, childFormed⟩ := formed.children _ isChild
      obtain ⟨vs, further, nodeFormed⟩ := ih childFormed
      exact ⟨vs, further.trans inside, nodeFormed⟩

-----------------------------------------------------------------------------------------
-- Nodes stand from their first token to their last one
-----------------------------------------------------------------------------------------

/-- The inner range lies inside the outer one. -/
structure ByteRange.Covers (outer inner : ByteRange) : Prop where
  start_le : outer.start ≤ inner.start
  le_stop : inner.stop ≤ outer.stop

section Covering

variable {ts us : List PlacedToken} {first last : ByteRange}

/-- A range of tokens covers that of tokens inside. -/
theorem InOrder.covers_spanRange (ordered : InOrder ts) (inside : us <:+: ts) (notEmpty : us ≠ [])
    : (spanRange ts).Covers (spanRange us) := by
  obtain ⟨first, inUs, isFirst⟩ := exists_firstRange notEmpty
  obtain ⟨last, inUs', isLast⟩ := exists_lastRange notEmpty
  constructor
  · rw [spanRange, spanRange, isFirst]
    exact ordered.first_le (inside.subset inUs)
  · rw [spanRange, spanRange, isLast]
    exact ordered.le_last (inside.subset inUs')

/-- Tokens stand on what is merged from the ranges of the first and of the last of them. -/
theorem spans_of_ends (notEmpty : ts ≠ []) (isFirst : firstRange ts = first)
    (isLast : lastRange ts = last)
    : ts ≠ [] ∧ (InOrder ts → first.merge last = spanRange ts) :=
  ⟨notEmpty, fun ordered => isFirst ▸ isLast ▸ ordered.merge_ends notEmpty⟩

/-- The last token is the last one of those that stand behind everything else. -/
theorem lastRange_behind {vs : List PlacedToken} (notEmpty : vs ≠ []) (ts us : List PlacedToken)
    (t : PlacedToken)
    : lastRange (ts ++ (us ++ t :: vs)) = lastRange vs := by
  have tail : us ++ t :: vs ≠ [] := List.append_ne_nil_of_right_ne_nil us (List.cons_ne_nil t vs)
  rw [lastRange_append tail, lastRange_append (List.cons_ne_nil t vs)]
  exact lastRange_append notEmpty [t]

end Covering

/-- The statement that a phrase is stands from the first of the tokens to the last one. -/
def Phrase.Stands (ts : List PlacedToken) : Phrase → Prop
  | .stmt s | .branch s => ts ≠ [] ∧ (InOrder ts → s.range = spanRange ts)
  | _ => True

theorem Forms.block_ne_nil {ts : List PlacedToken} {ss : List Stmt} (h : Forms ts (.block ss))
    : ts ≠ [] := by
  obtain ⟨t, rest, rfl, -⟩ := h.block_begin
  exact List.cons_ne_nil t rest

/-- Statements stand where the tokens do that form them, by induction on the forming. -/
theorem Forms.stands {ts : List PlacedToken} {phrase : Phrase} (h : Forms ts phrase)
    : phrase.Stands ts := by
  induction h with
  | @assign t close ts us _ _ _ _ target _ _ _ _ _ =>
      obtain ⟨notEmpty, -⟩ := target.spans
      have isLast : lastRange (ts ++ t :: (us ++ [close])) = close.range :=
        (lastRange_append (List.cons_ne_nil _ _) ts).trans (lastRange_concat (t :: us) close)
      exact spans_of_ends (List.append_ne_nil_of_left_ne_nil notEmpty _)
        (firstRange_append notEmpty _) isLast
  | giveBackNone _ _ => exact spans_of_ends (List.cons_ne_nil _ _) rfl rfl
  | @giveBack t close ts _ _ _ _ _ =>
      exact spans_of_ends (List.cons_ne_nil _ _) rfl (lastRange_concat (t :: ts) close)
  | @yield t close ts _ _ _ _ _ =>
      exact spans_of_ends (List.cons_ne_nil _ _) rfl (lastRange_concat (t :: ts) close)
  | @discard close ts _ formed _ _ =>
      obtain ⟨notEmpty, -⟩ := formed.spans
      exact spans_of_ends (List.append_ne_nil_of_left_ne_nil notEmpty _)
        (firstRange_append notEmpty _) (lastRange_concat ts close)
  | branch _ ih => exact ih
  | @ifThen t ts us _ _ _ _ body _ _ =>
      exact spans_of_ends (List.cons_ne_nil _ _) rfl (lastRange_append body.block_ne_nil (t :: ts))
  | @ifElse t divider ts us vs _ _ _ _ _ _ _ body _ _ _ =>
      exact spans_of_ends (List.cons_ne_nil _ _) rfl
        (lastRange_behind body.block_ne_nil (t :: ts) us divider)
  | @elseIf t divider ts us vs _ _ _ _ _ _ _ _ _ _ ih =>
      -- The alternative is a statement of its own, which stands up to the last token.
      obtain ⟨notEmpty, nestedStands⟩ := ih
      refine ⟨List.cons_ne_nil _ _, fun ordered => ?_⟩
      have split : t :: (ts ++ (us ++ divider :: vs))
          = [t] ++ ((ts ++ (us ++ [divider])) ++ vs) := by
        simp
      rw [split] at ordered ⊢
      rw [Stmt.range, nestedStands ordered.right.right]
      exact ordered.merge_spanRange (List.cons_ne_nil t []) notEmpty
  | _ => trivial

/-- A definition stands from the first of the tokens that form it to the last one. -/
theorem FormsDefinition.stands {ts : List PlacedToken} {d : Definition} (h : FormsDefinition ts d)
    : ts ≠ [] ∧ (InOrder ts → d.range = spanRange ts) := by
  cases h with
  | @definition t start close opening ts us _ _ isGenerator _ opens _ _ _ _ body =>
      have notEmpty : opening ≠ [] := by
        intro isEmpty
        subst isEmpty
        cases isGenerator <;> cases opens
      have isLast := lastRange_behind body.block_ne_nil (opening ++ [t, start]) ts close
      rw [List.append_assoc] at isLast
      exact spans_of_ends (List.append_ne_nil_of_left_ne_nil notEmpty _)
        (firstRange_append notEmpty _) isLast

/-- A node stands from the first of the tokens that form it to the last one. -/
theorem Node.FormedBy.stands {ts : List PlacedToken} {node : Node} (formed : node.FormedBy ts)
    : ts ≠ [] ∧ (InOrder ts → node.range = spanRange ts) := by
  cases node with
  | expr x => exact Forms.spans formed
  | stmt s => exact Forms.stands formed
  | ident name range =>
      obtain ⟨t, rfl, -, rfl⟩ := formed
      exact ⟨List.cons_ne_nil t [], fun _ => rfl⟩
  | definition d => exact FormsDefinition.stands formed

/-- The tokens form the node, which stands from the first of them to the last one and around its
children.
-/
structure Node.StandsOn (ts : List PlacedToken) (node : Node) : Prop where
  formed : node.FormedBy ts
  notEmpty : ts ≠ []
  range : node.range = spanRange ts
  around : ∀ child ∈ node.children, node.range.Covers child.range

theorem Node.FormedBy.standsOn {ts : List PlacedToken} {node : Node} (formed : node.FormedBy ts)
    (ordered : InOrder ts)
    : node.StandsOn ts := by
  obtain ⟨notEmpty, stands⟩ := formed.stands
  have range := stands ordered
  refine ⟨formed, notEmpty, range, fun child isChild => ?_⟩
  obtain ⟨us, inside, childFormed⟩ := formed.children child isChild
  obtain ⟨notEmpty', childStands⟩ := childFormed.stands
  rw [range, childStands (ordered.inside inside)]
  exact ordered.covers_spanRange inside notEmpty'

-----------------------------------------------------------------------------------------
-- Trees that are read
-----------------------------------------------------------------------------------------

/-- Reading the tokens gives a tree with this root and leaves `rest`. -/
inductive Reader.Builds (stop : ByteRange) (ts : List PlacedToken)
    : Node → List PlacedToken → Prop where
  | primary {x : Expr} {rest : Rest ts.length} (read : primary stop ts = .ok (x, rest))
    : Builds stop ts (.expr x) rest.1
  | operand {x : Expr} {rest : Rest ts.length} (read : operand stop ts = .ok (x, rest))
    : Builds stop ts (.expr x) rest.1
  | expr {x : Expr} {rest : Rest ts.length} (read : expr stop ts = .ok (x, rest))
    : Builds stop ts (.expr x) rest.1
  | stmt {s : Stmt} {rest : Rest ts.length} (read : stmt stop ts = .ok (s, rest))
    : Builds stop ts (.stmt s) rest.1
  | definition {d : Definition} {rest : Rest ts.length} (read : definition stop ts = .ok (d, rest))
    : Builds stop ts (.definition d) rest.1
  | whole {d : Definition} (read : Definition.ofTokens stop ts = .ok d)
    : Builds stop ts (.definition d) []

/-- The root of a tree that is read is formed by the tokens taken for it. -/
theorem Reader.Builds.formedBy {stop : ByteRange} {ts rest : List PlacedToken} {root : Node}
    (built : Builds stop ts root rest)
    : ∃ taken, ts = taken ++ rest ∧ root.FormedBy taken := by
  cases built with
  | primary read =>
      obtain ⟨taken, isWhole, formed⟩ := derives_primary stop ts _ _ read
      exact ⟨taken, isWhole, .expr (.operand formed)⟩
  | operand read =>
      obtain ⟨taken, isWhole, formed⟩ := derives_operand stop ts _ _ read
      exact ⟨taken, isWhole, .expr formed⟩
  | expr read => exact derives_expr stop ts _ _ read
  | stmt read => exact derives_stmt stop ts _ _ read
  | definition read => exact derives_definition stop ts _ _ read
  | whole read =>
      exact ⟨ts, (List.append_nil ts).symm, Definition.forms_of_ofTokens read⟩

end RecordSynth.Source
