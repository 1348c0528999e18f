import RecordSynth.Proofs.Program.FaultPlaces
import RecordSynth.Proofs.Source.Nodes

/-! Faults have a place in the text. Whatever a text is refused for, the range of the fault is a
part of the text: that of a lexeme, of a token or of a node, or the end of the text.
-/

namespace RecordSynth

namespace Source

-----------------------------------------------------------------------------------------
-- Ranges that are parts of a text
-----------------------------------------------------------------------------------------

/-- The range is a part of the text: it ends in the text, not before it starts, and a character of
the text, or the end of the text, is at both of its ends.
-/
structure ByteRange.LiesIn (r : ByteRange) (source : String) : Prop where
  start_le_stop : r.start ≤ r.stop
  stop_le_size : r.stop ≤ source.utf8ByteSize
  start_valid : (⟨r.start⟩ : String.Pos.Raw).IsValid source
  stop_valid : (⟨r.stop⟩ : String.Pos.Raw).IsValid source

section Parts

variable {source : String}

/-- An offset is valid exactly if it is the number of bytes in front of some characters. -/
theorem isValid_iff_toList {offset : Nat}
    : (⟨offset⟩ : String.Pos.Raw).IsValid source
      ↔ ∃ before behind, source.toList = before ++ behind ∧ offset = byteCount before := by
  rw [String.Pos.Raw.isValid_iff_exists_append]
  constructor
  · intro ⟨front, back, whole, isEnd⟩
    refine ⟨front.toList, back.toList, ?_, ?_⟩
    · rw [whole, String.toList_append]
    · rw [byteCount_toList]
      exact congrArg String.Pos.Raw.byteIdx isEnd
  · intro ⟨before, behind, whole, isCount⟩
    refine ⟨String.ofList before, String.ofList behind, ?_, ?_⟩
    · rw [← String.ofList_append, ← whole, String.ofList_toList]
    · have bytes := byteCount_toList (String.ofList before)
      rw [String.toList_ofList] at bytes
      rw [isCount, bytes]
      rfl

theorem liesIn_of_toList {before part behind : List Char}
    (whole : source.toList = before ++ (part ++ behind))
    : (⟨byteCount before, byteCount (before ++ part)⟩ : ByteRange).LiesIn source := by
  have stops : (⟨byteCount (before ++ part)⟩ : String.Pos.Raw).IsValid source :=
    isValid_iff_toList.mpr ⟨before ++ part, behind, by rw [whole, List.append_assoc], rfl⟩
  refine ⟨?_, stops.le_utf8ByteSize, isValid_iff_toList.mpr ⟨before, _, whole, rfl⟩, stops⟩
  rw [byteCount_append]
  exact Nat.le_add_right _ _

/-- Of two parts in front of a text, the one with no more bytes is in front of the other. -/
theorem prefix_of_byteCount_le {before before' whole : List Char} (inFront : before <+: whole)
    (inFront' : before' <+: whole) (le : byteCount before ≤ byteCount before')
    : before <+: before' := by
  rcases List.prefix_or_prefix_of_prefix inFront inFront' with shorter | ⟨more, rfl⟩
  · exact shorter
  · have none : more = [] := by
      by_contra nonempty
      have positive := byteCount_pos nonempty
      rw [byteCount_append] at le
      omega
    rw [none, List.append_nil]

/-- A range that lies in a text has a text of its own. -/
theorem ByteRange.LiesIn.isSome_slice? {r : ByteRange} (lies : r.LiesIn source)
    : (r.slice? source).isSome := by
  obtain ⟨start, stop⟩ := r
  obtain ⟨before, behind, whole, rfl⟩ := isValid_iff_toList.mp lies.start_valid
  obtain ⟨before', behind', whole', rfl⟩ := isValid_iff_toList.mp lies.stop_valid
  obtain ⟨part, rfl⟩ := prefix_of_byteCount_le ⟨behind, whole.symm⟩ ⟨behind', whole'.symm⟩
    lies.start_le_stop
  rw [List.append_assoc] at whole'
  exact Option.isSome_of_eq_some (slice?_of_toList whole')

theorem liesIn_end (source : String)
    : (⟨source.utf8ByteSize, source.utf8ByteSize⟩ : ByteRange).LiesIn source := by
  have atEnd : source.toList = source.toList ++ ([] ++ []) := by simp
  simpa [byteCount_toList] using liesIn_of_toList atEnd

/-- The range of tokens in order lies in a text if those of the tokens do. -/
theorem InOrder.liesIn_spanRange {ts : List PlacedToken} (ordered : InOrder ts) (notEmpty : ts ≠ [])
    (lie : ∀ t ∈ ts, t.range.LiesIn source)
    : (spanRange ts).LiesIn source := by
  obtain ⟨first, inTs, isFirst⟩ := exists_firstRange notEmpty
  obtain ⟨last, inTs', isLast⟩ := exists_lastRange notEmpty
  have starts := ordered.first_le inTs'
  have firstLies := lie first inTs
  have lastLies := lie last inTs'
  rw [isFirst] at starts
  rw [spanRange, isFirst, isLast]
  exact ⟨starts.trans lastLies.start_le_stop, lastLies.stop_le_size, firstLies.start_valid,
    lastLies.stop_valid⟩

-----------------------------------------------------------------------------------------
-- Lexemes and tokens
-----------------------------------------------------------------------------------------

/-- Tokens in their places lie in the text, by induction on the lexemes. -/
theorem Placed.liesIn {before : List Char} {ls : List Lexeme} {ts : List PlacedToken}
    (placed : Placed before ls ts) (whole : source.toList = before ++ ls.flatMap Lexeme.text)
    : ∀ t ∈ ts, t.range.LiesIn source := by
  induction placed with
  | done => exact nofun
  | skip _ _ ih =>
      rw [List.flatMap_cons, ← List.append_assoc] at whole
      exact ih whole
  | token _ range _ ih =>
      rw [List.flatMap_cons] at whole
      refine List.forall_mem_cons.mpr ⟨range ▸ liesIn_of_toList whole, ih ?_⟩
      rw [whole, List.append_assoc]

/-- The first lexeme that is a fault lies in the text, by induction on the lexemes. -/
theorem liesIn_of_collect_error {before : List Char} {ls : List Lexeme} {found : List PlacedToken}
    {fault : Fault} (short : source.utf8ByteSize ≤ maxOffset)
    (whole : source.toList = before ++ ls.flatMap Lexeme.text)
    (failed : PlacedToken.collect (byteCount before) found ls = .error fault)
    : fault.range.LiesIn source := by
  induction ls generalizing before found with
  | nil => cases failed
  | cons l rest ih =>
      rw [List.flatMap_cons] at whole
      rw [PlacedToken.collect, ← byteCount_append] at failed
      have whole' : source.toList = (before ++ l.text) ++ rest.flatMap Lexeme.text := by
        rw [whole, List.append_assoc]
      split at failed
      · cases failed
        have lies := liesIn_of_toList whole
        rw [ByteRange.ofOffsets_eq lies.start_le_stop (lies.stop_le_size.trans short)]
        exact lies
      · exact ih whole' failed
      · exact ih whole' failed

end Parts

section Reading

variable {source : String} {tokens : List PlacedToken} {fault : Fault}

theorem toList_eq_lexemes (source : String)
    : source.toList = [] ++ (Lexeme.ofText source.toList).flatMap Lexeme.text :=
  (Lexeme.flatMap_text_ofText source.toList).symm

/-- The tokens of a text lie in it. -/
theorem PlacedToken.liesIn_of_ofText (short : source.utf8ByteSize ≤ maxOffset)
    (lexed : PlacedToken.ofText source = .ok tokens)
    : ∀ t ∈ tokens, t.range.LiesIn source :=
  (placed_of_ofText short lexed).liesIn (toList_eq_lexemes source)

/-- What is no token lies in the text. -/
theorem PlacedToken.liesIn_of_ofText_error (short : source.utf8ByteSize ≤ maxOffset)
    (failed : PlacedToken.ofText source = .error fault)
    : fault.range.LiesIn source := by
  rw [PlacedToken.ofText] at failed
  cases collected : PlacedToken.collect 0 [] (Lexeme.ofText source.toList) with
  | ok found =>
      rw [collected] at failed
      cases failed
  | error first =>
      rw [collected] at failed
      cases failed
      exact liesIn_of_collect_error short (toList_eq_lexemes source) collected

/-- A node that is formed by tokens of a text lies in the text. -/
theorem Node.FormedBy.liesIn {us : List PlacedToken} {node : Node} (formed : node.FormedBy us)
    (short : source.utf8ByteSize ≤ maxOffset) (lexed : PlacedToken.ofText source = .ok tokens)
    (inside : us <:+: tokens)
    : node.range.LiesIn source := by
  obtain ⟨notEmpty, stands⟩ := formed.stands
  have ordered := (inOrder_of_ofText short lexed).1.inside inside
  rw [stands ordered]
  refine ordered.liesIn_spanRange notEmpty fun t member => ?_
  exact PlacedToken.liesIn_of_ofText short lexed t (inside.subset member)

/-- Where reading fails lies in the text: it is a token, the target of an assignment, a definition
or the end of the text.
-/
theorem Definition.liesIn_of_ofTokens_error (short : source.utf8ByteSize ≤ maxOffset)
    (lexed : PlacedToken.ofText source = .ok tokens)
    (failed : Definition.ofTokens
      (ByteRange.ofOffsets source.utf8ByteSize source.utf8ByteSize) tokens = .error fault)
    : fault.range.LiesIn source := by
  have stopLies : (ByteRange.ofOffsets source.utf8ByteSize source.utf8ByteSize).LiesIn source := by
    rw [ByteRange.ofOffsets_eq (Nat.le_refl _) short]
    exact liesIn_end source
  generalize ByteRange.ofOffsets source.utf8ByteSize source.utf8ByteSize = stop at failed stopLies
  rw [Definition.ofTokens] at failed
  split at failed
  · next first reading =>
    cases failed
    have traced : Reader.Traced stop (Reader.definitionsWay stop []) [] tokens (.error fault) :=
      Reader.traces_definitions tokens admits_sources _
        (by rw [Reader.definitionsWay, reading]; rfl)
    cases traced with
    | @unexpected expected taken rest whole =>
        rw [unexpected_eq]
        cases rest with
        | nil => exact stopLies
        | cons t more => exact PlacedToken.liesIn_of_ofText short lexed t (by simp [whole])
    | @target x front us rest t whole _ formed =>
        have isTarget : (Node.expr x).FormedBy us := formed
        rw [List.nil_append] at whole
        exact isTarget.liesIn short lexed ⟨front, t :: rest, by rw [whole, List.append_assoc]⟩
  · cases failed
  · cases failed
    exact stopLies
  · next first second rest read =>
    cases failed
    obtain ⟨ds, isRead, formed⟩ := Reader.formsAll_of_definitions stop [] tokens read
    obtain rfl : first :: second :: rest = ds := isRead
    obtain _ | @⟨taken, _, _, _, -, others⟩ := formed
    obtain _ | @⟨us, left, _, _, secondFormed, -⟩ := others
    have isSecond : (Node.definition second).FormedBy us := secondFormed
    exact isSecond.liesIn short lexed ⟨taken, left, List.append_assoc _ _ _⟩

end Reading

-----------------------------------------------------------------------------------------
-- Demands are made at nodes
-----------------------------------------------------------------------------------------

/-- The places of a demand: that of what makes it, and that of a function that is called. -/
def Demand.ranges : Demand → List ByteRange
  | .call _ calleeRange _ range => [range, calleeRange]
  | .param _ range | .var _ range | .name _ range | .const _ range | .operands _ _ range
  | .generator range | .target _ range => [range]

/-- A demand that is not met is refused at one of its places. -/
theorem Demand.range_mem_ranges {isGenerator : Bool} {earlier : List Demand} {demand : Demand}
    {fault : Fault} (refused : demand.fault? isGenerator earlier = some fault)
    : fault.range ∈ demand.ranges := by
  cases demand with
  | call callee calleeRange args range =>
      rw [fault?, callFault?] at refused
      split at refused
      · split at refused
        · cases refused
        · cases refused
          exact List.mem_cons_self
      split at refused
      · cases refused
      split at refused
      · cases refused
        exact List.mem_cons_of_mem range List.mem_cons_self
      split at refused
      · cases refused
      · cases refused
        exact List.mem_cons_self
  | param added range =>
      rw [fault?] at refused
      split at refused
      · cases refused
        exact List.mem_cons_self
      split at refused
      · cases refused
      · cases refused
        exact List.mem_cons_self
  | _ =>
      rw [fault?] at refused
      split at refused
      · cases refused
      · cases refused
        exact List.mem_cons_self

/-- Each place of the demands is that of a node of the tree. -/
def Node.Makes (root : Node) (demands : List Demand) : Prop :=
  ∀ demand ∈ demands, ∀ r ∈ demand.ranges, ∃ node : Node, node.Within root ∧ node.range = r

section Demands

variable {root child : Node} {demands more : List Demand}

theorem Node.Makes.append (first : root.Makes demands) (second : root.Makes more)
    : root.Makes (demands ++ more) := by
  intro demand member
  rcases List.mem_append.mp member with isFirst | isSecond
  · exact first demand isFirst
  · exact second demand isSecond

/-- What a child demands is demanded in the tree. -/
theorem Node.Makes.ofChild (made : child.Makes demands) (isChild : child ∈ root.children)
    : root.Makes demands := by
  intro demand member r isPlace
  obtain ⟨node, below, range⟩ := made demand member r isPlace
  exact ⟨node, .child isChild below, range⟩

/-- A demand is made by the root if that is its only place. -/
theorem Node.makes_singleton {demand : Demand} (isPlace : demand.ranges = [root.range])
    : root.Makes [demand] := by
  refine List.forall_mem_singleton.mpr ?_
  rw [isPlace]
  exact List.forall_mem_singleton.mpr ⟨root, .self, rfl⟩

end Demands

section Trees

variable (l : Layout)

mutual

/-- The demands of an expression are made at its nodes, by recursion on the expression. -/
theorem Expr.makes (x : Expr) : (Node.expr x).Makes x.demands := by
  cases x with
  | literal range value => exact Node.makes_singleton rfl
  | var range name => exact Node.makes_singleton rfl
  | attr range object field =>
      exact (object.makes.ofChild List.mem_cons_self).append (Node.makes_singleton rfl)
  | call range callee calleeRange args =>
      have called : (Node.expr (.call range callee calleeRange args)).Makes
          [.call callee calleeRange args range] := by
        have isCallee : Node.ident callee calleeRange
            ∈ (Node.expr (.call range callee calleeRange args)).children := List.mem_cons_self
        refine List.forall_mem_singleton.mpr ?_
        exact List.forall_mem_cons.mpr ⟨⟨_, .self, rfl⟩,
          List.forall_mem_singleton.mpr ⟨_, .child isCallee .self, rfl⟩⟩
      refine called.append ?_
      split
      · exact Node.makes_singleton rfl
      · refine Node.Makes.append ?_ ?_
        · exact Expr.makesAll args fun x member =>
            List.mem_cons_of_mem _ (List.mem_map_of_mem member)
        · split
          · exact Node.makes_singleton rfl
          · exact nofun
  | tuple range items =>
      refine Node.Makes.append ?_ (Node.makes_singleton rfl)
      exact Expr.makesAll items fun x member => List.mem_map_of_mem member
  | compare range op left right =>
      exact (left.makes.ofChild (by simp [Node.children])).append
        (right.makes.ofChild (by simp [Node.children]))

theorem Expr.makesAll (xs : List Expr) {root : Node} (children : ∀ x ∈ xs, .expr x ∈ root.children)
    : root.Makes (Expr.demandsAll xs) := by
  cases xs with
  | nil => exact nofun
  | cons x rest =>
      obtain ⟨first, others⟩ := List.forall_mem_cons.mp children
      exact (x.makes.ofChild first).append (Expr.makesAll rest others)

end

mutual

/-- The demands of a statement are made at its nodes, by recursion on the statement. -/
theorem Stmt.makes (start : Nat) (s : Stmt) : (Node.stmt s).Makes (s.demands l start) := by
  cases s with
  | assign range object field value =>
      have fromValue : (Node.stmt (.assign range object field value)).Makes value.demands :=
        value.makes.ofChild (List.mem_cons_of_mem _ List.mem_cons_self)
      exact fromValue.append
        ((object.makes.ofChild List.mem_cons_self).append (Node.makes_singleton rfl))
  | giveBack range value =>
      cases value with
      | none => exact Node.makes_singleton rfl
      | some value => exact value.makes.ofChild List.mem_cons_self
  | yield range value =>
      have own : (Node.stmt (.yield range value)).Makes [.generator range] :=
        Node.makes_singleton rfl
      exact own.append (value.makes.ofChild List.mem_cons_self)
  | branch range test thenBody elseBody =>
      have fromTest : (Node.stmt (.branch range test thenBody elseBody)).Makes test.demands :=
        test.makes.ofChild List.mem_cons_self
      have fromThen (start : Nat) : (Node.stmt (.branch range test thenBody elseBody)).Makes
          (Stmt.demandsAll l start thenBody) :=
        Stmt.makesAll start thenBody fun s member => by simp [Node.children, member]
      have fromElse (start : Nat) : (Node.stmt (.branch range test thenBody elseBody)).Makes
          (Stmt.demandsAll l start elseBody) :=
        Stmt.makesAll start elseBody fun s member => by simp [Node.children, member]
      cases elseBody with
      | nil => exact fromTest.append ((fromThen _).append (Node.makes_singleton rfl))
      | cons first rest =>
          exact fromTest.append ((fromThen _).append ((Node.makes_singleton rfl).append
            ((fromElse _).append (Node.makes_singleton rfl))))
  | discard range value => exact value.makes.ofChild List.mem_cons_self

theorem Stmt.makesAll (start : Nat) (ss : List Stmt) {root : Node}
    (children : ∀ s ∈ ss, .stmt s ∈ root.children)
    : root.Makes (Stmt.demandsAll l start ss) := by
  cases ss with
  | nil => exact nofun
  | cons s rest =>
      obtain ⟨first, others⟩ := List.forall_mem_cons.mp children
      exact ((Stmt.makes start s).ofChild first).append (Stmt.makesAll _ rest others)

end

/-- The demands of a definition are made at its nodes. -/
theorem Definition.makes (d : Definition) : (Node.definition d).Makes d.demands := by
  refine Node.Makes.append ?_ (Node.Makes.append ?_ (Node.makes_singleton rfl))
  · intro demand member r isPlace
    obtain ⟨p, isParam, rfl⟩ := List.mem_map.mp member
    obtain rfl := List.mem_singleton.mp isPlace
    have isChild : Node.ident p.name p.range ∈ (Node.definition d).children :=
      List.mem_append_left _ (List.mem_map_of_mem isParam)
    exact ⟨_, .child isChild .self, rfl⟩
  · exact Stmt.makesAll d.layout 0 d.body fun s member =>
      List.mem_append_right _ (List.mem_map_of_mem member)

end Trees

end Source

namespace Program

open Source

variable {source : String} {tokens : List PlacedToken} {fault : Fault}

/-- What a definition is refused for is at a node of its tree. -/
theorem exists_node_of_ofDefinition_error {d : Definition} (failed : ofDefinition d = .error fault)
    : ∃ node : Node, node.Within (.definition d) ∧ node.range = fault.range := by
  obtain ⟨met, demand, rest, split, -, refused⟩ :=
    Demand.firstFault?_eq_some_iff.mp (ofDefinition_eq_error_iff.mp failed)
  have member : demand ∈ d.demands := by simp [split]
  exact d.makes demand member fault.range (Demand.range_mem_ranges refused)

/-- Whatever a text is refused for lies in the text. -/
theorem liesIn_of_ofText_error (short : source.utf8ByteSize ≤ maxOffset)
    (failed : ofText source = .error fault)
    : fault.range.LiesIn source := by
  rw [ofText, Definition.ofText] at failed
  cases lexed : PlacedToken.ofText source with
  | error first =>
      simp only [lexed] at failed
      cases failed
      exact PlacedToken.liesIn_of_ofText_error short lexed
  | ok tokens =>
      simp only [lexed] at failed
      cases read : Definition.ofTokens
          (ByteRange.ofOffsets source.utf8ByteSize source.utf8ByteSize) tokens with
      | error first =>
          rw [read] at failed
          cases failed
          exact Definition.liesIn_of_ofTokens_error short lexed read
      | ok d =>
          rw [read] at failed
          obtain ⟨node, within, range⟩ := exists_node_of_ofDefinition_error failed
          have root : (Node.definition d).FormedBy tokens := Definition.forms_of_ofTokens read
          obtain ⟨us, inside, formed⟩ := within.formedBy root
          rw [← range]
          exact formed.liesIn short lexed inside

/-- Ranges are right, in faults and in trees. The range of a fault lies in the text, so that it has
a text. The root of each tree that is read stands from the first of the tokens taken for it to the
last one, parentheses included, and every node of the tree from its own first token to its last one;
each stands around its children.
-/
theorem ranges_of_ofText (short : source.utf8ByteSize ≤ maxOffset)
    : (∀ fault, ofText source = .error fault →
        fault.range.LiesIn source ∧ (fault.range.slice? source).isSome)
      ∧ ∀ tokens, PlacedToken.ofText source = .ok tokens →
        ∀ stop ts root rest, ts <:+ tokens → Reader.Builds stop ts root rest →
          (∃ taken, ts = taken ++ rest ∧ root.StandsOn taken)
          ∧ ∀ node : Node, node.Within root → ∃ us, us <:+: tokens ∧ node.StandsOn us := by
  constructor
  · intro fault failed
    have lies := liesIn_of_ofText_error short failed
    exact ⟨lies, lies.isSome_slice?⟩
  · intro tokens lexed stop ts root rest isSuffix built
    obtain ⟨ordered, -⟩ := inOrder_of_ofText short lexed
    obtain ⟨taken, rfl, formed⟩ := built.formedBy
    have takenInside : taken <:+: tokens := (List.prefix_append taken rest).isInfix.trans
      isSuffix.isInfix
    refine ⟨⟨taken, rfl, formed.standsOn (ordered.inside takenInside)⟩, fun node within => ?_⟩
    obtain ⟨us, inside, nodeFormed⟩ := within.formedBy formed
    have nodeInside := inside.trans takenInside
    exact ⟨us, nodeInside, nodeFormed.standsOn (ordered.inside nodeInside)⟩

section Parentheses

/-- A text in which an attribute is read of a variable in parentheses. -/
def parenthesesText : String :=
  "fn f()\x7b(a).b;\x7d"

/-- The tokens of the text. -/
def parenthesesTokens : List PlacedToken :=
  [⟨.keyword .fn, ⟨0, 2⟩⟩, ⟨.ident "f", ⟨3, 4⟩⟩, ⟨.mark .parenOpen, ⟨4, 5⟩⟩,
    ⟨.mark .parenClose, ⟨5, 6⟩⟩, ⟨.mark .braceOpen, ⟨6, 7⟩⟩, ⟨.mark .parenOpen, ⟨7, 8⟩⟩,
    ⟨.ident "a", ⟨8, 9⟩⟩, ⟨.mark .parenClose, ⟨9, 10⟩⟩, ⟨.mark .dot, ⟨10, 11⟩⟩,
    ⟨.ident "b", ⟨11, 12⟩⟩, ⟨.mark .semicolon, ⟨12, 13⟩⟩, ⟨.mark .braceClose, ⟨13, 14⟩⟩]

/-- The tree of the text. The variable stands where its parentheses do. -/
def parenthesesTree : Definition where
  name := "f"
  params := []
  isGenerator := false
  body := [.discard ⟨7, 13⟩ (.attr ⟨7, 12⟩ (.var ⟨7, 10⟩ "a") "b")]
  range := ⟨0, 14⟩

theorem formsDefinition_parentheses : FormsDefinition parenthesesTokens parenthesesTree := by
  have plain : Forms ((parenthesesTokens.drop 6).take 1) (.expr (.var ⟨8, 9⟩ "a")) :=
    .expr (.operand (.var rfl))
  have group : Forms ((parenthesesTokens.drop 5).take 3) (.operand (.var ⟨7, 10⟩ "a")) :=
    .operand (.group rfl plain rfl)
  have attr : Forms ((parenthesesTokens.drop 5).take 5)
      (.expr (.attr ⟨7, 12⟩ (.var ⟨7, 10⟩ "a") "b")) :=
    .expr (.attr group rfl rfl)
  have body : Forms (parenthesesTokens.drop 4) (.block parenthesesTree.body) :=
    .block rfl (.nextStmt (.discard attr rfl) .noStmts) rfl
  exact @FormsDefinition.definition ⟨.ident "f", ⟨3, 4⟩⟩ ⟨.mark .parenOpen, ⟨4, 5⟩⟩
    ⟨.mark .parenClose, ⟨5, 6⟩⟩ [⟨.keyword .fn, ⟨0, 2⟩⟩] [] (parenthesesTokens.drop 4) "f" [] false
    parenthesesTree.body rfl rfl rfl .noParams rfl body

/-- Witness: a variable that is no parameter, in parentheses, of which an attribute is read. -/
theorem ranges_of_ofText_parentheses
    : ofText parenthesesText = .error ⟨.unboundName "a", ⟨7, 10⟩⟩
      ∧ (⟨7, 10⟩ : ByteRange).LiesIn parenthesesText
      ∧ ((⟨7, 10⟩ : ByteRange).slice? parenthesesText).isSome
      ∧ PlacedToken.ofText parenthesesText = .ok parenthesesTokens
      ∧ Definition.ofText parenthesesText = .ok parenthesesTree
      ∧ ∀ node : Node, node.Within (.definition parenthesesTree) →
        ∃ us, us <:+: parenthesesTokens ∧ node.StandsOn us := by
  have lexed : PlacedToken.ofText parenthesesText = .ok parenthesesTokens := by
    decide +kernel
  have read : Definition.ofTokens ⟨14, 14⟩ parenthesesTokens = .ok parenthesesTree :=
    Definition.ofTokens_eq_ok_iff.mpr formsDefinition_parentheses
  have built : Definition.ofText parenthesesText = .ok parenthesesTree := by
    rw [Definition.ofText, lexed]
    exact read
  have refused : ofDefinition parenthesesTree = .error ⟨.unboundName "a", ⟨7, 10⟩⟩ :=
    ofDefinition_eq_error_iff.mpr (by decide)
  have failed : ofText parenthesesText = .error ⟨.unboundName "a", ⟨7, 10⟩⟩ := by
    rw [ofText, built]
    exact refused
  have short : parenthesesText.utf8ByteSize ≤ maxOffset := by decide
  obtain ⟨faults, trees⟩ := ranges_of_ofText short
  obtain ⟨lies, hasText⟩ := faults _ failed
  obtain ⟨-, nodes⟩ := trees _ lexed _ _ _ _ List.suffix_rfl (.whole read)
  exact ⟨failed, lies, hasText, lexed, built, nodes⟩

end Parentheses

end Program

end RecordSynth
