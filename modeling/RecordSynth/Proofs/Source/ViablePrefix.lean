import RecordSynth.Proofs.Source.Spans
import RecordSynth.Proofs.Source.Tracing

/-! Faults of syntax stand at the earliest token that cannot be right. The tokens before an
unexpected token can be continued to complete definitions, but not with that token. An assignment to
something else than an attribute is found behind a whole expression that a statement begins with.
-/

namespace RecordSynth.Source

open Reader

-----------------------------------------------------------------------------------------
-- Complete definitions are read
-----------------------------------------------------------------------------------------

/-- Where definitions are spelled one after the other, they are formed so. -/
theorem exists_formsAll {ts : List PlacedToken} (complete : ts.map PlacedToken.token ∈ sources)
    : ∃ ds, FormsAll ts ds := by
  obtain ⟨parts, isAll, spelled⟩ := Language.mem_kstar.mp complete
  clear complete
  induction parts generalizing ts with
  | nil =>
      obtain rfl := List.map_eq_nil_iff.mp isAll
      exact ⟨[], .nil⟩
  | cons part parts ih =>
      obtain ⟨⟨d, first⟩, others⟩ := List.forall_mem_cons.mp spelled
      rw [List.flatten_cons] at isAll
      obtain ⟨us, vs, rfl, isFirst, isRest⟩ := List.map_eq_append_iff.mp isAll
      obtain ⟨ds, rest⟩ := ih isRest others
      obtain ⟨d', -, formed⟩ := first.formedBy isFirst
      exact ⟨d' :: ds, .cons formed rest⟩

/-- Some placed tokens spell what is given and begin with a given one, if that is its first. -/
theorem exists_placed {rest : List PlacedToken} {us : List Token}
    (same : us.head? = rest.head?.map PlacedToken.token)
    : ∃ ts : List PlacedToken, ts.map PlacedToken.token = us ∧ ts.head? = rest.head? := by
  have placed (us : List Token)
      : (us.map fun token => (⟨token, default⟩ : PlacedToken)).map PlacedToken.token = us := by
    rw [List.map_map]
    exact List.map_id us
  cases rest with
  | nil =>
      obtain rfl := List.head?_eq_none_iff.mp same
      exact ⟨[], rfl, rfl⟩
  | cons t _ =>
      obtain ⟨more, rfl⟩ := List.head?_eq_some_iff.mp same
      exact ⟨t :: _, congrArg (t.token :: ·) (placed more), rfl⟩

-----------------------------------------------------------------------------------------
-- Where expressions stand
-----------------------------------------------------------------------------------------

/-- The tokens stand behind each other, each of them on at least one byte. -/
structure InOrder (ts : List PlacedToken) : Prop where
  apart : ts.Pairwise fun t t' => t.range.stop ≤ t'.range.start
  nonempty : ∀ t ∈ ts, t.range.start < t.range.stop

theorem inOrder_of_ofText {source : String} {ts : List PlacedToken}
    (short : source.utf8ByteSize ≤ maxOffset) (lexed : PlacedToken.ofText source = .ok ts)
    : InOrder ts ∧ ∀ t ∈ ts, t.range.stop ≤ source.utf8ByteSize := by
  have placed := placed_of_ofText short lexed
  have nonempty : ∀ l ∈ Lexeme.ofText source.toList, l.text ≠ [] :=
    fun l member => Lexeme.text_ne_nil_of_mem_ofText member
  refine ⟨⟨placed.pairwise nonempty, ?_⟩, ?_⟩
  · exact fun t member => (placed.range_bounds nonempty t member).2.1
  · intro t member
    have stops := (placed.range_bounds nonempty t member).2.2
    rwa [byteCount_lexemes] at stops

namespace InOrder

variable {ts us vs : List PlacedToken}

theorem left (h : InOrder (us ++ vs)) : InOrder us :=
  ⟨(List.pairwise_append.mp h.apart).1,
    fun t member => h.nonempty t (List.mem_append_left vs member)⟩

theorem right (h : InOrder (us ++ vs)) : InOrder vs :=
  ⟨(List.pairwise_append.mp h.apart).2.1,
    fun t member => h.nonempty t (List.mem_append_right us member)⟩

theorem inside (h : InOrder ts) (inside : us <:+: ts) : InOrder us := by
  obtain ⟨front, back, rfl⟩ := inside
  exact h.left.right

/-- The first of the tokens begins before all others. -/
theorem first_le (h : InOrder ts) {t : PlacedToken} (member : t ∈ ts)
    : (firstRange ts).start ≤ t.range.start := by
  cases ts with
  | nil => cases member
  | cons first rest =>
      rcases List.mem_cons.mp member with rfl | behind
      · exact Nat.le_refl _
      · have inner := h.nonempty first List.mem_cons_self
        exact inner.le.trans ((List.pairwise_cons.mp h.apart).1 t behind)

/-- The last of the tokens ends behind all others. -/
theorem le_last (h : InOrder ts) {t : PlacedToken} (member : t ∈ ts)
    : t.range.stop ≤ (lastRange ts).stop := by
  obtain ⟨front, last, rfl⟩ : ∃ front last, ts = front ++ [last] :=
    ⟨_, _, (List.dropLast_append_getLast (List.ne_nil_of_mem member)).symm⟩
  rw [lastRange_concat]
  rcases List.mem_append.mp member with inFront | isLast
  · have apart := (List.pairwise_append.mp h.apart).2.2 t inFront last
      (List.mem_singleton_self last)
    exact apart.trans (h.right.nonempty last (List.mem_singleton_self last)).le
  · obtain rfl := List.mem_singleton.mp isLast
    exact Nat.le_refl _

end InOrder

/-- The range from the first of the tokens to the last one. -/
def spanRange (ts : List PlacedToken) : ByteRange :=
  ⟨(firstRange ts).start, (lastRange ts).stop⟩

section Spans

variable {ts us vs : List PlacedToken}

theorem firstRange_append (notEmpty : us ≠ []) (vs : List PlacedToken)
    : firstRange (us ++ vs) = firstRange us := by
  rw [firstRange, List.head?_append_of_ne_nil _ notEmpty]
  rfl

theorem lastRange_append (notEmpty : vs ≠ []) (us : List PlacedToken)
    : lastRange (us ++ vs) = lastRange vs := by
  rw [lastRange, List.getLast?_append_of_ne_nil _ notEmpty]
  rfl

theorem exists_firstRange (notEmpty : ts ≠ []) : ∃ t ∈ ts, firstRange ts = t.range :=
  ⟨ts.head notEmpty, List.head_mem notEmpty,
    by rw [firstRange, List.head?_eq_some_head notEmpty]; rfl⟩

theorem exists_lastRange (notEmpty : ts ≠ []) : ∃ t ∈ ts, lastRange ts = t.range :=
  ⟨ts.getLast notEmpty, List.getLast_mem notEmpty,
    by rw [lastRange, List.getLast?_eq_some_getLast notEmpty]; rfl⟩

/-- The ranges of two runs of tokens cover what is between them as well. -/
theorem InOrder.merge_spanRange (h : InOrder (us ++ (ts ++ vs))) (first : us ≠ [])
    (last : vs ≠ [])
    : (spanRange us).merge (spanRange vs) = spanRange (us ++ (ts ++ vs)) := by
  have apart : ∀ t ∈ us, ∀ t' ∈ vs, t.range.stop ≤ t'.range.start := by
    intro t member t' member'
    exact (List.pairwise_append.mp h.apart).2.2 t member t' (List.mem_append_right ts member')
  obtain ⟨a, inFront, isFirst⟩ := exists_firstRange first
  obtain ⟨b, inFront', isLast⟩ := exists_lastRange first
  obtain ⟨c, behind, isFirst'⟩ := exists_firstRange last
  obtain ⟨d, behind', isLast'⟩ := exists_lastRange last
  have starts := apart a inFront c behind
  have stops := apart b inFront' d behind'
  have inner := h.left.nonempty a inFront
  have inner' := h.right.right.nonempty d behind'
  have notEmpty : ts ++ vs ≠ [] := List.append_ne_nil_of_right_ne_nil ts last
  simp only [ByteRange.merge, spanRange, firstRange_append first, lastRange_append notEmpty,
    lastRange_append last, isFirst, isLast, isFirst', isLast', ByteRange.mk.injEq]
  omega

/-- The ranges of the first and of the last token, merged, are the range of all. -/
theorem InOrder.merge_ends (h : InOrder ts) (notEmpty : ts ≠ [])
    : (firstRange ts).merge (lastRange ts) = spanRange ts := by
  obtain ⟨first, inTs, isFirst⟩ := exists_firstRange notEmpty
  obtain ⟨last, inTs', isLast⟩ := exists_lastRange notEmpty
  have starts := h.first_le inTs'
  have stops := h.le_last inTs
  rw [← isLast] at starts
  rw [← isFirst] at stops
  simp only [ByteRange.merge, spanRange, ByteRange.mk.injEq]
  exact ⟨Nat.min_eq_left starts, Nat.max_eq_right stops⟩

/-- What the tokens form stands from the first of them to the last one. -/
def Phrase.Spans (ts : List PlacedToken) : Phrase → Prop
  | .primary x | .operand x | .expr x => ts ≠ [] ∧ (InOrder ts → x.range = spanRange ts)
  | _ => True

/-- Expressions stand where the tokens do that form them, by induction on the forming. -/
theorem Forms.spans {phrase : Phrase} (h : Forms ts phrase) : phrase.Spans ts := by
  induction h with
  | literal _ => exact ⟨List.cons_ne_nil _ _, fun _ => rfl⟩
  | var _ => exact ⟨List.cons_ne_nil _ _, fun _ => rfl⟩
  | @call t start close callee ts comma args _ _ _ _ _ =>
      refine ⟨List.cons_ne_nil _ _, fun ordered => ?_⟩
      exact @InOrder.merge_spanRange (start :: ts) [t] [close] ordered nofun nofun
  | @group start close ts x _ _ _ _ =>
      refine ⟨List.cons_ne_nil _ _, fun ordered => ?_⟩
      rw [Expr.range_placedAt]
      exact @InOrder.merge_spanRange ts [start] [close] ordered nofun nofun
  | @tuple start close ts comma xs _ _ _ _ _ =>
      refine ⟨List.cons_ne_nil _ _, fun ordered => ?_⟩
      exact @InOrder.merge_spanRange ts [start] [close] ordered nofun nofun
  | operand _ ih => exact ih
  | @attr dot t ts x field _ _ _ ih =>
      obtain ⟨notEmpty, range⟩ := ih
      refine ⟨List.append_ne_nil_of_left_ne_nil notEmpty _, fun ordered => ?_⟩
      rw [Expr.range, range ordered.left]
      exact @InOrder.merge_spanRange [dot] ts [t] ordered notEmpty nofun
  | expr _ ih => exact ih
  | @compare t ts us op left right _ _ _ ihLeft ihRight =>
      obtain ⟨notEmpty, range⟩ := ihLeft
      obtain ⟨notEmpty', range'⟩ := ihRight
      refine ⟨List.append_ne_nil_of_left_ne_nil notEmpty _, fun ordered => ?_⟩
      have behind : InOrder ([t] ++ us) := ordered.right
      rw [Expr.range, range ordered.left, range' behind.right]
      exact @InOrder.merge_spanRange [t] ts us ordered notEmpty notEmpty'
  | _ => trivial

end Spans

-----------------------------------------------------------------------------------------
-- Faults of syntax
-----------------------------------------------------------------------------------------

/-- The tokens that end at the offset or before it. -/
def upTo (offset : Nat) (ts : List PlacedToken) : List PlacedToken :=
  ts.filter fun t => t.range.stop ≤ offset

/-- A fault at the first of the tokens `after`, or at the end of input: the tokens before it can be
continued to complete definitions, but not with `found`, which stands there. If no token is left,
they are not complete either.
-/
structure EarliestFault (stop : ByteRange) (tokens : List PlacedToken) (range : ByteRange)
    (found : Option Token) : Prop where
  place : ∃ after, tokens = upTo range.start tokens ++ after ∧ range = startRange stop after
    ∧ found = after.head?.map PlacedToken.token
  completable : Completable ((upTo range.start tokens).map PlacedToken.token)
  impossible : ∀ more, (upTo range.start tokens).map PlacedToken.token ++ more ∈ sources →
    more.head? ≠ found

/-- An assignment to the expression at the range, which is no attribute access: a statement could
begin with this expression, and `=` follows it.
-/
structure TargetFault (tokens : List PlacedToken) (range : ByteRange) : Prop where
  place : ∃ before target assign after x,
    tokens = before ++ (target ++ assign :: after) ∧ before ++ target = upTo range.stop tokens
      ∧ (∀ us ∈ spellings .stmt, Completable (before.map PlacedToken.token ++ us))
      ∧ Forms target (.expr x) ∧ (∀ range object field, x ≠ .attr range object field)
      ∧ x.range = range ∧ range = spanRange target ∧ assign.token = .mark .assign
  completable : Completable ((upTo range.stop tokens).map PlacedToken.token)

section Faults

variable {stop : ByteRange} {before after ts : List PlacedToken}

theorem upTo_of_split {offset : Nat} (ends : ∀ t ∈ before, t.range.stop ≤ offset)
    (later : ∀ t ∈ after, offset < t.range.stop)
    : upTo offset (before ++ after) = before := by
  have none : after.filter (fun t => t.range.stop ≤ offset) = [] := by
    refine List.filter_eq_nil_iff.mpr fun t member => ?_
    simpa using later t member
  have all : before.filter (fun t => t.range.stop ≤ offset) = before := by
    refine List.filter_eq_self.mpr fun t member => ?_
    simpa using ends t member
  rw [upTo, List.filter_append, none, all, List.append_nil]

/-- What ends up to where the next tokens begin is what stands before them. -/
theorem upTo_startRange (ordered : InOrder (before ++ after))
    (inText : ∀ t ∈ before ++ after, t.range.stop ≤ stop.start)
    : upTo (startRange stop after).start (before ++ after) = before := by
  refine upTo_of_split ?_ ?_
  · intro t member
    cases after with
    | nil => exact inText t (List.mem_append_left [] member)
    | cons next rest =>
        exact (List.pairwise_append.mp ordered.apart).2.2 t member next List.mem_cons_self
  · intro t member
    have inner := ordered.right.nonempty t member
    cases after with
    | nil => cases member
    | cons next rest =>
        rcases List.mem_cons.mp member with rfl | behind
        · exact inner
        · have apart := (List.pairwise_cons.mp ordered.right.apart).1 t behind
          have inner' := ordered.right.nonempty next List.mem_cons_self
          exact Nat.lt_of_lt_of_le inner' (Nat.le_trans apart inner.le)

/-- What ends up to where the last of some tokens does is these tokens. -/
theorem upTo_lastRange (ordered : InOrder (before ++ after)) (notEmpty : before ≠ [])
    : upTo (lastRange before).stop (before ++ after) = before := by
  refine upTo_of_split (fun t member => ordered.left.le_last member) fun t member => ?_
  obtain ⟨last, inBefore, isLast⟩ := exists_lastRange notEmpty
  have apart := (List.pairwise_append.mp ordered.apart).2.2 last inBefore t member
  rw [isLast]
  exact Nat.lt_of_le_of_lt apart (ordered.right.nonempty t member)

theorem unexpected_eq (expected : Expected) (ts : List PlacedToken)
    : Reader.unexpected stop expected ts
      = ⟨.unexpectedToken expected (ts.head?.map PlacedToken.token), startRange stop ts⟩ := by
  cases ts <;> rfl

/-- A fault of reading a definition is one of reading definitions, or about how many there are. -/
theorem definitions_of_ofTokens_error {fault : Fault}
    (failed : Definition.ofTokens stop ts = .error fault)
    : definitions stop [] ts = .error fault ∨ ∃ count, fault.cause = .definitionCount count := by
  rw [Definition.ofTokens] at failed
  split at failed
  · next same =>
      cases failed
      exact Or.inl same
  · cases failed
  · cases failed
    exact Or.inr ⟨_, rfl⟩
  · cases failed
    exact Or.inr ⟨_, rfl⟩

/-- A fault of the first statement in the body of `f` is the fault of reading the function. -/
theorem ofTokens_of_stmt {fault : Fault} {t : PlacedToken} (opens : t.token ≠ .mark .braceClose)
    (failed : stmt stop (t :: ts) = .error fault)
    : Definition.ofTokens stop
        (⟨.keyword .fn, ⟨0, 2⟩⟩ :: ⟨.ident "f", ⟨3, 4⟩⟩ :: ⟨.mark .parenOpen, ⟨4, 5⟩⟩
          :: ⟨.mark .parenClose, ⟨5, 6⟩⟩ :: ⟨.mark .braceOpen, ⟨6, 7⟩⟩ :: t :: ts)
      = .error fault := by
  simp [Definition.ofTokens, definitions, definition, signatureAndBody, params, block, stmts,
    expect, expectIdent, take?, takeIf?, ident?, bind, Except.bind, pure, Except.pure, opens,
    failed]

end Faults

/-- Where reading fails at a token, or at the end of input, what stands before can be continued, but
not with that token; where it fails at an assignment, the target is an expression that a statement
begins with, and everything up to its end can be continued.
-/
theorem Definition.ofTokens_fault_earliest {source : String} {tokens : List PlacedToken}
    {fault : Fault} (short : source.utf8ByteSize ≤ maxOffset)
    (lexed : PlacedToken.ofText source = .ok tokens)
    (failed : Definition.ofTokens
      (ByteRange.ofOffsets source.utf8ByteSize source.utf8ByteSize) tokens = .error fault)
    : (∀ expected found, fault.cause = .unexpectedToken expected found →
        EarliestFault (ByteRange.ofOffsets source.utf8ByteSize source.utf8ByteSize) tokens
          fault.range found)
      ∧ (fault.cause = .assignmentTarget → TargetFault tokens fault.range) := by
  obtain ⟨ordered, inText⟩ := inOrder_of_ofText short lexed
  generalize isStop : ByteRange.ofOffsets source.utf8ByteSize source.utf8ByteSize = stop at failed ⊢
  have ends : stop.start = source.utf8ByteSize := by
    rw [← isStop]
    exact Nat.min_eq_left short
  rw [← ends] at inText
  rcases definitions_of_ofTokens_error failed with reading | ⟨count, isCount⟩
  · have traced : Traced stop (definitionsWay stop []) [] tokens (.error fault) :=
      traces_definitions tokens admits_sources _ (by rw [definitionsWay, reading]; rfl)
    cases traced with
    | @unexpected expected taken rest whole completable settled =>
        subst whole
        rw [unexpected_eq]
        refine ⟨?_, nofun⟩
        rintro _ _ ⟨⟩
        have isBefore := upTo_startRange ordered inText
        refine ⟨⟨rest, ?_, rfl, rfl⟩, ?_, ?_⟩
        · rw [isBefore]
        · rw [isBefore]
          exact completable
        · rw [isBefore]
          intro more complete same
          obtain ⟨rest', rfl, sameHead⟩ := exists_placed same
          rw [← List.map_append] at complete
          obtain ⟨ds, formed⟩ := exists_formsAll complete
          -- Reading the completion would have to fail in the same way.
          have reads : definitionsWay stop [] (taken ++ rest') (.ok (ds, [])) := by
            rw [definitionsWay, formed.found stop []]
            rfl
          cases settled rest' _ sameHead reads
    | @target x front us rest t whole admits formed notAttr isAssign =>
        rw [List.nil_append] at whole
        subst whole
        refine ⟨nofun, fun _ => ?_⟩
        obtain ⟨notEmpty, spans⟩ := formed.spans
        have isRange := spans ordered.right.left
        have isBefore : upTo x.range.stop (front ++ (us ++ t :: rest)) = front ++ us := by
          rw [isRange]
          rw [← List.append_assoc] at ordered ⊢
          have isUpTo := upTo_lastRange ordered (List.append_ne_nil_of_right_ne_nil front notEmpty)
          rwa [lastRange_append notEmpty] at isUpTo
        have isTarget : us.map PlacedToken.token ∈ spellings .expr := ⟨x, formed.spelledBy⟩
        refine ⟨⟨front, us, t, rest, x, rfl, isBefore.symm, admits, formed, notAttr, rfl, isRange,
          isAssign⟩, ?_⟩
        have complete := admits _ (discard_mem_stmts (mem_mul_only _ isTarget _))
        rw [← List.append_assoc] at complete
        rw [isBefore, List.map_append]
        exact complete.of_append
  · refine ⟨?_, ?_⟩
    · intro expected found isUnexpected
      rw [isCount] at isUnexpected
      cases isUnexpected
    · intro isTarget
      rw [isCount] at isTarget
      cases isTarget

/-- Witness: a variable in a body with no semicolon behind it, and one that is assigned. -/
theorem Definition.ofTokens_fault_earliest_variable
    : (∃ tokens, PlacedToken.ofText "fn f()\x7ba\x7d" = .ok tokens
        ∧ EarliestFault ⟨9, 9⟩ tokens ⟨8, 9⟩ (some (.mark .braceClose)))
      ∧ ∃ tokens, PlacedToken.ofText "fn f()\x7ba=1;\x7d" = .ok tokens
        ∧ TargetFault tokens ⟨7, 8⟩ := by
  have lexed : PlacedToken.ofText "fn f()\x7ba\x7d" = .ok
      [⟨.keyword .fn, ⟨0, 2⟩⟩, ⟨.ident "f", ⟨3, 4⟩⟩, ⟨.mark .parenOpen, ⟨4, 5⟩⟩,
        ⟨.mark .parenClose, ⟨5, 6⟩⟩, ⟨.mark .braceOpen, ⟨6, 7⟩⟩, ⟨.ident "a", ⟨7, 8⟩⟩,
        ⟨.mark .braceClose, ⟨8, 9⟩⟩] := by
    decide +kernel
  have lexed' : PlacedToken.ofText "fn f()\x7ba=1;\x7d" = .ok
      [⟨.keyword .fn, ⟨0, 2⟩⟩, ⟨.ident "f", ⟨3, 4⟩⟩, ⟨.mark .parenOpen, ⟨4, 5⟩⟩,
        ⟨.mark .parenClose, ⟨5, 6⟩⟩, ⟨.mark .braceOpen, ⟨6, 7⟩⟩, ⟨.ident "a", ⟨7, 8⟩⟩,
        ⟨.mark .assign, ⟨8, 9⟩⟩, ⟨.int 1, ⟨9, 10⟩⟩, ⟨.mark .semicolon, ⟨10, 11⟩⟩,
        ⟨.mark .braceClose, ⟨11, 12⟩⟩] := by
    decide +kernel
  have failed : stmt ⟨9, 9⟩ [⟨.ident "a", ⟨7, 8⟩⟩, ⟨.mark .braceClose, ⟨8, 9⟩⟩]
      = .error ⟨.unexpectedToken .semicolonOrAssign (some (.mark .braceClose)), ⟨8, 9⟩⟩ := by
    simp [stmt, assignmentOrExpr, expr, comparisons, operand, attributes, primary, expect, take?,
      takeIf?, ident?, comparator?, Reader.unexpected, bind, Except.bind, pure, Except.pure]
  have failed' (rest : List PlacedToken)
      : stmt ⟨12, 12⟩ (⟨.ident "a", ⟨7, 8⟩⟩ :: ⟨.mark .assign, ⟨8, 9⟩⟩ :: rest)
        = .error ⟨.assignmentTarget, ⟨7, 8⟩⟩ := by
    simp [stmt, assignmentOrExpr, expr, comparisons, operand, attributes, primary, take?,
      takeIf?, ident?, comparator?, Expr.range, bind, Except.bind, pure, Except.pure, throw,
      throwThe, MonadExceptOf.throw]
  obtain ⟨earliest, -⟩ := Definition.ofTokens_fault_earliest (by decide) lexed
    (ofTokens_of_stmt (by decide) failed)
  obtain ⟨-, target⟩ := Definition.ofTokens_fault_earliest (by decide) lexed'
    (ofTokens_of_stmt (by decide) (failed' _))
  exact ⟨⟨_, lexed, earliest _ _ rfl⟩, _, lexed', target rfl⟩

end RecordSynth.Source
