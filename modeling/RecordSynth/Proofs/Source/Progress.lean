import RecordSynth.Proofs.Source.Cursor
import RecordSynth.Proofs.Source.Ways

/-! Reading always moves on. Wherever a walk starts, it ends: its cursor only goes forward, not past
the end of input and by one token each time it is told to, and the walk comes to what reading comes
to there. Phrases take at least one token, and that is why the tokens left bound the rounds of loops
and how deep calls nest.
-/

namespace RecordSynth.Source

-----------------------------------------------------------------------------------------
-- Moves of the cursor
-----------------------------------------------------------------------------------------

namespace Cursor

/-- The cursor has gone forward from `c` to `c'`, not past the end of input, and it was told to
move on once for each token that it went over.
-/
structure MovesTo (tokens : List PlacedToken) (c c' : Cursor) : Prop where
  forward : c.position ≤ c'.position
  inside : c'.position ≤ tokens.length
  counted : c'.advances = c.advances + (c'.position - c.position)

/-- The cursor behind the token at `c`. -/
def next (c : Cursor) : Cursor :=
  ⟨c.position + 1, c.advances + 1⟩

@[grind =]
theorem position_next (c : Cursor) : c.next.position = c.position + 1 :=
  rfl

variable {tokens : List PlacedToken} {c c' c'' : Cursor}

theorem MovesTo.refl (inside : c.position ≤ tokens.length) : c.MovesTo tokens c :=
  ⟨Nat.le_refl _, inside, by omega⟩

theorem MovesTo.trans (first : c.MovesTo tokens c') (second : c'.MovesTo tokens c'')
    : c.MovesTo tokens c'' := by
  obtain ⟨forward, -, counted⟩ := first
  obtain ⟨forward', inside, counted'⟩ := second
  exact ⟨Nat.le_trans forward forward', inside, by omega⟩

theorem movesTo_next (inside : c.position < tokens.length) : c.MovesTo tokens c.next := by
  refine ⟨Nat.le_succ _, inside, ?_⟩
  rw [next, Nat.add_sub_cancel_left]

end Cursor

namespace Walk

open Reader (Way Outcome outcome way boundedWay)

-----------------------------------------------------------------------------------------
-- Walks that follow a way of reading
-----------------------------------------------------------------------------------------

/-- The walk from `c` ends and has the outcome: it gives the phrase and stands before what remains,
at least `least` tokens behind `c`, or it gives the fault.
-/
inductive Ends {α : Type} (tokens : List PlacedToken) (walk : Walk α) (least : Nat) (c : Cursor)
    : Outcome α → Prop
  | ok {a : α} {c' : Cursor} (ended : walk.goFrom c = some (.ok a, c'))
    (moves : c.MovesTo tokens c') (takes : c.position + least ≤ c'.position)
    : Ends tokens walk least c (.ok (a, tokens.drop c'.position))
  | error {fault : Fault} {c' : Cursor} (ended : walk.goFrom c = some (.error fault, c'))
    (moves : c.MovesTo tokens c')
    : Ends tokens walk least c (.error fault)

/-- From `c` on, the walk ends with whatever the way of reading comes to there. -/
def Follows {α : Type} (tokens : List PlacedToken) (walk : Walk α) (reads : Way α) (least : Nat)
    (c : Cursor) : Prop :=
  c.position ≤ tokens.length → ∀ o, reads (tokens.drop c.position) o → Ends tokens walk least c o

section Composition

variable {α β : Type} {tokens : List PlacedToken} {stop : ByteRange} {c c' : Cursor} {least : Nat}
variable {walk : Walk α} {reads reads' : Way α} {next : α → Walk β} {nextReads : α → Way β}

theorem goFrom_bind (walk : Walk α) (next : α → Walk β) (c : Cursor)
    : (walk >>= next).goFrom c = (walk.goFrom c).bind fun
        | (.ok a, c') => (next a).goFrom c'
        | (.error fault, c') => some (.error fault, c') := by
  change (walk.goFrom c).bind (fun ended => (ExceptT.bindCont next ended.1).run ended.2) = _
  congr 1
  funext ⟨given, c'⟩
  cases given <;> rfl

theorem goFrom_bind_ok {a : α} (ended : walk.goFrom c = some (.ok a, c')) (next : α → Walk β)
    : (walk >>= next).goFrom c = (next a).goFrom c' := by
  rw [goFrom_bind, ended]
  rfl

theorem goFrom_bind_error {fault : Fault} (ended : walk.goFrom c = some (.error fault, c'))
    (next : α → Walk β)
    : (walk >>= next).goFrom c = some (.error fault, c') := by
  rw [goFrom_bind, ended]
  rfl

theorem goFrom_current (tokens : List PlacedToken) (c : Cursor)
    : (current tokens).goFrom c = some (.ok (tokens.drop c.position).head?, c) := by
  rw [List.head?_drop]
  rfl

theorem goFrom_advance (inside : c.position < tokens.length)
    : (advance tokens).goFrom c = some (.ok (), c.next) := by
  change some (Except.ok (), Cursor.mk (if _ then _ else _) _) = _
  rw [if_pos inside]
  rfl

/-- A second walk ends what a first one began. -/
theorem Ends.after {a : α} {fewer : Nat} {o : Outcome β} (h : Ends tokens (next a) fewer c' o)
    (ended : walk.goFrom c = some (.ok a, c')) (moves : c.MovesTo tokens c')
    (enough : c.position + least ≤ c'.position + fewer)
    : Ends tokens (walk >>= next) least c o := by
  have goes := goFrom_bind_ok ended next
  cases h with
  | ok ended' moves' takes =>
      exact .ok (goes.trans ended') (moves.trans moves') (Nat.le_trans enough takes)
  | error ended' moves' => exact .error (goes.trans ended') (moves.trans moves')

theorem Ends.exists_goFrom {o : Outcome α} (h : Ends tokens walk least c o)
    : ∃ c', walk.goFrom c = some (o.map Prod.fst, c') ∧ c.MovesTo tokens c' := by
  cases h with
  | ok ended moves _ => exact ⟨_, ended, moves⟩
  | error ended moves => exact ⟨_, ended, moves⟩

theorem Follows.mono (h : Follows tokens walk reads least c) (le : reads' ≤ reads)
    : Follows tokens walk reads' least c :=
  fun inside o given => h inside o (le _ o given)

theorem Follows.fewer {more : Nat} (h : Follows tokens walk reads more c) (le : least ≤ more)
    : Follows tokens walk reads least c := by
  intro inside o given
  cases h inside o given with
  | ok ended moves takes => exact .ok ended moves (by omega)
  | error ended moves => exact .error ended moves

/-- One walk after the other follows one way of reading after the other, and takes at least as many
tokens as both of them.
-/
theorem Follows.andThen {few : Nat} (first : Follows tokens walk reads few c)
    (second : ∀ a c', c.position + few ≤ c'.position → c'.position ≤ tokens.length →
      Follows tokens (next a) (nextReads a) (least - few) c')
    : Follows tokens (walk >>= next) (reads.andThen nextReads) least c := by
  rintro inside o (⟨a, rest, given, givenNext⟩ | ⟨fault, given, rfl⟩)
  · cases first inside _ given with
    | ok ended moves takes =>
        have later := second a _ takes moves.inside moves.inside o givenNext
        exact later.after ended moves (by omega)
  · cases first inside _ given with
    | error ended moves => exact .error (goFrom_bind_error ended next) moves

/-- To give what was read is to read it. -/
theorem andThen_done_le (reads : Way α) : reads.andThen .done ≤ reads := by
  rintro ts o (⟨a, rest, given, rfl⟩ | ⟨fault, given, rfl⟩)
  · exact given
  · exact given

theorem follows_done (a : α) : Follows tokens (pure a) (.done a) 0 c := by
  rintro inside _ rfl
  exact .ok rfl (.refl inside) (Nat.le_refl _)

theorem follows_fails (fault : Fault)
    : Follows tokens (throw fault : Walk α) (.fails fault) least c := by
  rintro inside _ rfl
  exact .error rfl (.refl inside)

/-- The fault tells of the first token that is left, which is the one at the cursor. -/
theorem follows_unexpected (expected : Expected)
    : Follows tokens (unexpected stop tokens expected : Walk α) (.unexpected stop expected) least
        c := by
  rintro inside _ rfl
  have same : Reader.unexpected stop expected (tokens.drop c.position).head?.toList
      = Reader.unexpected stop expected (tokens.drop c.position) := by
    cases tokens.drop c.position <;> rfl
  rw [← same]
  exact .error (goFrom_bind_ok (goFrom_current tokens c) _) (.refl inside)

theorem follows_fromStart {reads : ByteRange → Way α} {next : ByteRange → Walk α}
    (h : ∀ start, Follows tokens (next start) (reads start) least c)
    : Follows tokens (startRange stop tokens >>= next) (.fromStart stop reads) least c := by
  intro inside o given
  have same : Reader.startRange stop (tokens.drop c.position).head?.toList
      = Reader.startRange stop (tokens.drop c.position) := by
    cases tokens.drop c.position <;> rfl
  have ended : (startRange stop tokens).goFrom c
      = some (.ok (Reader.startRange stop (tokens.drop c.position)), c) := by
    rw [← same]
    exact goFrom_bind_ok (goFrom_current tokens c) _
  exact (h _ inside o given).after ended (.refl inside) (Nat.le_refl _)

theorem follows_ifNil {none some : Way α} {next : Option PlacedToken → Walk α}
    (noneFollows : Follows tokens (next .none) none least c)
    (someFollows : ∀ t, Follows tokens (next (.some t)) some least c)
    : Follows tokens (current tokens >>= next) (.ifNil none some) least c := by
  intro inside o given
  have seen := goFrom_current tokens c
  cases isDrop : tokens.drop c.position with
  | nil =>
      rw [isDrop] at given seen
      have ends := noneFollows inside o (isDrop ▸ given)
      exact ends.after seen (.refl inside) (Nat.le_refl _)
  | cons t rest =>
      rw [isDrop] at given seen
      have ends := someFollows t inside o (isDrop ▸ given)
      exact ends.after seen (.refl inside) (Nat.le_refl _)

theorem goFrom_accept?_none {f : PlacedToken → Option α}
    (refused : (tokens.drop c.position).head?.bind f = none)
    : (accept? tokens f).goFrom c = some (.ok none, c) := by
  rw [accept?, goFrom_bind_ok (goFrom_current tokens c), refused]
  rfl

theorem position_lt_of_accepted {f : PlacedToken → Option α} {a : α}
    (accepted : (tokens.drop c.position).head?.bind f = some a)
    : c.position < tokens.length := by
  obtain ⟨t, isToken, -⟩ := Option.bind_eq_some_iff.mp accepted
  rw [List.head?_drop] at isToken
  exact (List.getElem?_eq_some_iff.mp isToken).choose

theorem goFrom_accept?_some {f : PlacedToken → Option α} {a : α}
    (accepted : (tokens.drop c.position).head?.bind f = some a)
    : (accept? tokens f).goFrom c = some (.ok (some a), c.next) := by
  rw [accept?, goFrom_bind_ok (goFrom_current tokens c), accepted]
  dsimp only
  rw [goFrom_bind_ok (goFrom_advance (position_lt_of_accepted accepted))]
  rfl

theorem exists_goFrom_accept? {f : PlacedToken → Option α} (inside : c.position ≤ tokens.length)
    : ∃ taken c', (accept? tokens f).goFrom c = some (.ok taken, c') ∧ c.MovesTo tokens c' := by
  cases accepted : (tokens.drop c.position).head?.bind f with
  | none => exact ⟨none, c, goFrom_accept?_none accepted, .refl inside⟩
  | some a =>
      have before := position_lt_of_accepted accepted
      exact ⟨some a, c.next, goFrom_accept?_some accepted, Cursor.movesTo_next before⟩

/-- A choice by the token at the cursor: reading goes on behind it if `f` accepts it. -/
theorem follows_choose
    {take : (ts : List PlacedToken) → Option (β × Reader.Rest ts.length)}
    {f : PlacedToken → Option β} {yes : β → Way α} {no : Way α} {next : Option β → Walk α}
    (noneLeft : take [] = none)
    (agrees : ∀ t rest,
      take (t :: rest) = (f t).map fun b => (b, ⟨rest, Nat.lt_succ_self rest.length⟩))
    (yesFollows : ∀ b, c.position < tokens.length →
      Follows tokens (next (some b)) (yes b) (least - 1) c.next)
    (noFollows : Follows tokens (next none) no least c)
    : Follows tokens (accept? tokens f >>= next) (.choose take yes no) least c := by
  intro inside o given
  have stays (refused : (tokens.drop c.position).head?.bind f = none)
      (given : no (tokens.drop c.position) o)
      : Ends tokens (accept? tokens f >>= next) least c o :=
    (noFollows inside o given).after (goFrom_accept?_none refused) (.refl inside) (Nat.le_refl _)
  rw [Way.choose] at given
  cases isDrop : tokens.drop c.position with
  | nil =>
      rw [isDrop, noneLeft] at given
      rw [isDrop] at stays
      exact stays rfl given
  | cons t rest =>
      rw [isDrop, agrees] at given
      rw [isDrop] at stays
      cases accepted : f t with
      | none =>
          rw [accepted] at given
          exact stays accepted given
      | some b =>
          rw [accepted] at given
          have isAccepted : (tokens.drop c.position).head?.bind f = some b := by
            rw [isDrop]
            exact accepted
          have isRest : tokens.drop (c.position + 1) = rest := by
            rw [← List.tail_drop, isDrop, List.tail_cons]
          have before := position_lt_of_accepted isAccepted
          have moves := Cursor.movesTo_next before
          have ends := yesFollows b before moves.inside o (isRest ▸ given)
          refine ends.after (goFrom_accept?_some isAccepted) moves ?_
          rw [Cursor.position_next]
          omega

theorem follows_take? {token : Token} {yes : ByteRange → Way α} {no : Way α}
    {next : Option ByteRange → Walk α}
    (yesFollows : ∀ range, c.position < tokens.length →
      Follows tokens (next (some range)) (yes range) (least - 1) c.next)
    (noFollows : Follows tokens (next none) no least c)
    : Follows tokens (take? tokens token >>= next) (.choose (Reader.take? token) yes no) least
        c := by
  refine follows_choose rfl ?_ yesFollows noFollows
  intro t rest
  rw [Reader.take?]
  split <;> rfl

theorem follows_takeIf? {f : Token → Option β} {yes : β × ByteRange → Way α} {no : Way α}
    {next : Option (β × ByteRange) → Walk α}
    (yesFollows : ∀ read, c.position < tokens.length →
      Follows tokens (next (some read)) (yes read) (least - 1) c.next)
    (noFollows : Follows tokens (next none) no least c)
    : Follows tokens (takeIf? tokens f >>= next) (.choose (Reader.takeIf? f) yes no) least c := by
  refine follows_choose rfl ?_ yesFollows noFollows
  intro t rest
  rw [Reader.takeIf?]
  cases f t.token <;> rfl

end Composition

-----------------------------------------------------------------------------------------
-- Single tokens
-----------------------------------------------------------------------------------------

section Tokens

variable {stop : ByteRange} {tokens : List PlacedToken} {c : Cursor}

theorem follows_expect (token : Token) (expected : Expected)
    : Follows tokens (expect stop tokens token expected) (way (Reader.expect stop token expected))
        1 c := by
  refine Follows.mono ?_ (Reader.expect_le stop token expected)
  exact follows_take? (fun range _ => follows_done range) (follows_unexpected expected)

theorem follows_expectIdent
    : Follows tokens (expectIdent stop tokens) (way (Reader.expectIdent stop)) 1 c := by
  refine Follows.mono ?_ (Reader.expectIdent_le stop)
  exact follows_takeIf? (fun named _ => follows_done named) (follows_unexpected .identifier)

end Tokens

-----------------------------------------------------------------------------------------
-- Expressions
-----------------------------------------------------------------------------------------

section Expressions

variable {stop : ByteRange} {tokens : List PlacedToken}

-- The depth that is enough is six for each token left, and the rank of the function, which falls
-- from call to call as long as no token is taken: 5 for `stmts`, 4 for `stmt`, `branch` and
-- `items`, 3 for `expr`, 2 for `operand`, 1 for `primary` and `definitions`, 0 for the others.

theorem follows_attributes (object : Expr) (c : Cursor) {depth : Nat}
    (enough : 6 * (tokens.length - c.position) < depth)
    : Follows tokens (attributes stop tokens depth object)
        (boundedWay fun _ => Reader.attributes stop object) 0 c := by
  obtain ⟨depth, rfl⟩ := Nat.exists_eq_add_one_of_ne_zero (Nat.ne_zero_of_lt enough)
  refine Follows.mono ?_ (Reader.attributes_le stop object)
  refine follows_take? ?_ (follows_done object)
  intro _ before
  refine follows_expectIdent.andThen ?_
  intro named c' behind inside
  exact follows_attributes _ c' (by grind)

mutual

theorem follows_expr (c : Cursor) {depth : Nat}
    (enough : 6 * (tokens.length - c.position) + 3 < depth)
    : Follows tokens (expr stop tokens depth) (way (Reader.expr stop)) 1 c := by
  obtain ⟨depth, rfl⟩ := Nat.exists_eq_add_one_of_ne_zero (Nat.ne_zero_of_lt enough)
  refine Follows.mono ?_ (Reader.expr_le stop)
  refine (follows_operand c (by omega)).andThen ?_
  intro left c' behind inside
  exact follows_comparisons left c' (by omega)
termination_by depth

theorem follows_comparisons (left : Expr) (c : Cursor) {depth : Nat}
    (enough : 6 * (tokens.length - c.position) < depth)
    : Follows tokens (comparisons stop tokens depth left)
        (boundedWay fun _ => Reader.comparisons stop left) 0 c := by
  obtain ⟨depth, rfl⟩ := Nat.exists_eq_add_one_of_ne_zero (Nat.ne_zero_of_lt enough)
  refine Follows.mono ?_ (Reader.comparisons_le stop left)
  refine follows_takeIf? ?_ (follows_done left)
  intro operator before
  refine (follows_operand c.next (by grind)).andThen ?_
  intro right c' behind inside
  exact follows_comparisons _ c' (by grind)
termination_by depth

theorem follows_operand (c : Cursor) {depth : Nat}
    (enough : 6 * (tokens.length - c.position) + 2 < depth)
    : Follows tokens (operand stop tokens depth) (way (Reader.operand stop)) 1 c := by
  obtain ⟨depth, rfl⟩ := Nat.exists_eq_add_one_of_ne_zero (Nat.ne_zero_of_lt enough)
  refine Follows.mono ?_ (Reader.operand_le stop)
  refine (follows_primary c (by omega)).andThen ?_
  intro object c' behind inside
  exact follows_attributes object c' (by omega)
termination_by depth

theorem follows_primary (c : Cursor) {depth : Nat}
    (enough : 6 * (tokens.length - c.position) + 1 < depth)
    : Follows tokens (primary stop tokens depth) (way (Reader.primary stop)) 1 c := by
  obtain ⟨depth, rfl⟩ := Nat.exists_eq_add_one_of_ne_zero (Nat.ne_zero_of_lt enough)
  refine Follows.mono ?_ (Reader.primary_le stop)
  refine follows_takeIf? ?named
    (follows_take? ?list (follows_takeIf? ?literal (follows_unexpected .expression)))
  case named =>
    intro named before
    refine follows_take? ?_ (follows_done _)
    intro _ before'
    refine (follows_items [] false c.next.next (by grind)).andThen ?_
    exact fun list c' _ _ => follows_done _
  case list =>
    intro start before
    refine (follows_items [] false c.next (by grind)).andThen ?_
    exact fun list c' _ _ => follows_done _
  case literal => exact fun read _ => follows_done _
termination_by depth

theorem follows_items (done : List Expr) (comma : Bool) (c : Cursor) {depth : Nat}
    (enough : 6 * (tokens.length - c.position) + 4 < depth)
    : Follows tokens (items stop tokens depth done comma)
        (boundedWay fun _ => Reader.items stop done comma) 1 c := by
  obtain ⟨depth, rfl⟩ := Nat.exists_eq_add_one_of_ne_zero (Nat.ne_zero_of_lt enough)
  refine Follows.mono ?_ (Reader.items_le stop done comma)
  refine follows_take? (fun close _ => follows_done _) ?_
  refine (follows_expr c (by omega)).andThen ?_
  intro item c' behind inside
  refine follows_take? ?_ ?_
  · intro _ before
    exact (follows_items (item :: done) true c'.next (by grind)).fewer (Nat.zero_le 1)
  · refine (follows_expect _ _).andThen ?_
    exact fun close c'' _ _ => follows_done _
termination_by depth

end

end Expressions

-----------------------------------------------------------------------------------------
-- Statements
-----------------------------------------------------------------------------------------

section Statements

variable {stop : ByteRange} {tokens : List PlacedToken}

theorem follows_exprThenSemicolon (c : Cursor) {depth : Nat}
    (enough : 6 * (tokens.length - c.position) + 3 < depth)
    : Follows tokens (exprThenSemicolon stop tokens depth)
        (boundedWay fun _ => Reader.exprThenSemicolon stop) 2 c := by
  refine Follows.mono ?_ (Reader.exprThenSemicolon_le stop)
  refine (follows_expr c enough).andThen ?_
  intro value c' _ _
  refine (follows_expect _ _).andThen ?_
  exact fun close c'' _ _ => follows_done _

/-- Behind an expression with its semicolon, what is given is made of both. -/
theorem follows_lineThen {α : Type} (f : Expr × ByteRange → α) (c : Cursor) {depth : Nat}
    (enough : 6 * (tokens.length - c.position) + 3 < depth)
    : Follows tokens (exprThenSemicolon stop tokens depth >>= fun line => pure (f line))
        ((boundedWay fun _ => Reader.exprThenSemicolon stop).andThen fun line => .done (f line))
        2 c :=
  (follows_exprThenSemicolon c enough).andThen fun line _ _ _ => follows_done (f line)

theorem follows_assign (start : ByteRange) (target : Expr) (c : Cursor) {depth : Nat}
    (enough : 6 * (tokens.length - c.position) + 3 < depth)
    : Follows tokens (assign stop tokens depth start target) (Reader.assignWay stop start target) 2
        c := by
  cases target with
  | attr range object field => exact follows_lineThen _ c enough
  | _ => exact follows_fails _

theorem follows_assignmentOrExpr (c : Cursor) {depth : Nat}
    (enough : 6 * (tokens.length - c.position) + 3 < depth)
    : Follows tokens (assignmentOrExpr stop tokens depth) (way (Reader.assignmentOrExpr stop)) 2
        c := by
  refine Follows.mono ?_ (Reader.assignmentOrExpr_le stop)
  refine follows_fromStart fun start => (follows_expr c enough).andThen ?_
  intro target c' behind inside
  refine follows_take? ?_ ?_
  · intro _ before
    exact (follows_assign start target c'.next (by grind)).fewer (Nat.zero_le 2)
  · refine (follows_expect _ _).andThen ?_
    exact fun close c'' _ _ => follows_done _

theorem follows_giveBack (start : ByteRange) (c : Cursor) {depth : Nat}
    (enough : 6 * (tokens.length - c.position) + 3 < depth)
    : Follows tokens (giveBack stop tokens depth start)
        (boundedWay fun _ => Reader.giveBack stop start) 1 c := by
  refine Follows.mono ?_ (Reader.giveBack_le stop start)
  refine follows_take? (fun close _ => follows_done _) ?_
  exact (follows_lineThen _ c enough).fewer (Nat.le_succ 1)

mutual

theorem follows_stmt (c : Cursor) {depth : Nat}
    (enough : 6 * (tokens.length - c.position) + 4 < depth)
    : Follows tokens (stmt stop tokens depth) (way (Reader.stmt stop)) 1 c := by
  obtain ⟨depth, rfl⟩ := Nat.exists_eq_add_one_of_ne_zero (Nat.ne_zero_of_lt enough)
  refine Follows.mono ?_ (Reader.stmt_le stop)
  refine follows_take? ?giveBack (follows_take? ?yield (follows_take? ?branch ?_))
  case giveBack =>
    intro start before
    exact (follows_giveBack start c.next (by grind)).fewer (Nat.zero_le 1)
  case yield =>
    intro start before
    exact (follows_lineThen _ c.next (by grind)).fewer (Nat.zero_le 2)
  case branch =>
    intro start before
    exact (follows_branch start c.next (by grind)).fewer (Nat.zero_le 1)
  exact (follows_assignmentOrExpr c (by omega)).fewer (Nat.le_succ 1)
termination_by depth

theorem follows_branch (start : ByteRange) (c : Cursor) {depth : Nat}
    (enough : 6 * (tokens.length - c.position) + 4 < depth)
    : Follows tokens (branch stop tokens depth start)
        (boundedWay fun _ => Reader.branch stop start) 1 c := by
  obtain ⟨depth, rfl⟩ := Nat.exists_eq_add_one_of_ne_zero (Nat.ne_zero_of_lt enough)
  refine Follows.mono ?_ (Reader.branch_le stop start)
  refine (follows_expr c (by omega)).andThen ?_
  intro test c₁ behind₁ inside₁
  refine (follows_block c₁ (by omega)).andThen ?_
  intro body c₂ behind₂ inside₂
  refine follows_take? ?_ (follows_done _)
  intro _ before
  refine follows_take? ?_ ?_
  · intro nestedStart before'
    refine (follows_branch nestedStart c₂.next.next (by grind)).andThen ?_
    exact fun nested c₃ _ _ => follows_done _
  · refine (follows_block c₂.next (by grind)).andThen ?_
    exact fun elseBody c₃ _ _ => follows_done _
termination_by depth

theorem follows_block (c : Cursor) {depth : Nat}
    (enough : 6 * (tokens.length - c.position) < depth)
    : Follows tokens (block stop tokens depth) (way (Reader.block stop)) 1 c := by
  obtain ⟨depth, rfl⟩ := Nat.exists_eq_add_one_of_ne_zero (Nat.ne_zero_of_lt enough)
  refine Follows.mono ?_ (Reader.block_le stop)
  refine (follows_expect _ _).andThen ?_
  intro _ c' behind inside
  exact (follows_stmts [] c' (by omega)).fewer (Nat.zero_le 1)
termination_by depth

theorem follows_stmts (done : List Stmt) (c : Cursor) {depth : Nat}
    (enough : 6 * (tokens.length - c.position) + 5 < depth)
    : Follows tokens (stmts stop tokens depth done)
        (boundedWay fun _ => Reader.stmts stop done) 1 c := by
  obtain ⟨depth, rfl⟩ := Nat.exists_eq_add_one_of_ne_zero (Nat.ne_zero_of_lt enough)
  refine Follows.mono ?_ (Reader.stmts_le stop done)
  refine follows_take? (fun close _ => follows_done _) ?_
  refine follows_ifNil (follows_unexpected .braceClose) fun t => ?_
  refine (follows_stmt c (by omega)).andThen ?_
  intro s c' behind inside
  exact (follows_stmts (s :: done) c' (by omega)).fewer (Nat.zero_le 1)
termination_by depth

end

end Statements

-----------------------------------------------------------------------------------------
-- Definitions
-----------------------------------------------------------------------------------------

section Definitions

variable {stop : ByteRange} {tokens : List PlacedToken}

theorem follows_params (done : List Param) (c : Cursor) {depth : Nat}
    (enough : 6 * (tokens.length - c.position) < depth)
    : Follows tokens (params stop tokens depth done)
        (boundedWay fun _ => Reader.params stop done) 1 c := by
  obtain ⟨depth, rfl⟩ := Nat.exists_eq_add_one_of_ne_zero (Nat.ne_zero_of_lt enough)
  refine Follows.mono ?_ (Reader.params_le stop done)
  refine follows_take? (fun _ _ => follows_done _) ?_
  refine follows_expectIdent.andThen ?_
  intro named c' behind inside
  refine follows_take? ?_ ?_
  · intro _ before
    exact (follows_params _ c'.next (by grind)).fewer (Nat.zero_le 1)
  · refine (follows_expect _ _).andThen ?_
    exact fun _ c'' _ _ => follows_done _
termination_by depth

theorem follows_signatureAndBody (start : ByteRange) (isGenerator : Bool) (c : Cursor)
    {depth : Nat} (enough : 6 * (tokens.length - c.position) < depth)
    : Follows tokens (signatureAndBody stop tokens depth start isGenerator)
        (way (Reader.signatureAndBody stop start isGenerator)) 1 c := by
  refine Follows.mono ?_ (Reader.signatureAndBody_le stop start isGenerator)
  refine (follows_expect _ _).andThen fun _ c₁ _ _ => ?_
  refine follows_expectIdent.andThen fun named c₂ _ _ => ?_
  refine (follows_expect _ _).andThen fun _ c₃ _ _ => ?_
  refine (follows_params [] c₃ (by omega)).andThen fun params c₄ _ _ => ?_
  exact (follows_block c₄ (by omega)).andThen fun body c₅ _ _ => follows_done _

theorem follows_definition (c : Cursor) {depth : Nat}
    (enough : 6 * (tokens.length - c.position) < depth)
    : Follows tokens (definition stop tokens depth) (way (Reader.definition stop)) 1 c := by
  refine Follows.mono ?_ (Reader.definition_le stop)
  refine follows_take? ?_ (follows_fromStart fun start => ?_)
  · intro start before
    refine Follows.mono ?_ (andThen_done_le _)
    exact (follows_signatureAndBody start true c.next (by grind)).fewer (Nat.zero_le 1)
  · exact follows_signatureAndBody start false c enough

theorem follows_definitions (done : List Definition) (c : Cursor) {depth : Nat}
    (enough : 6 * (tokens.length - c.position) + 1 < depth)
    : Follows tokens (definitions stop tokens depth done) (Reader.definitionsWay stop done) 0
        c := by
  obtain ⟨depth, rfl⟩ := Nat.exists_eq_add_one_of_ne_zero (Nat.ne_zero_of_lt enough)
  refine Follows.mono ?_ (Reader.definitions_le stop done)
  refine follows_ifNil (follows_done _) fun t => ?_
  refine (follows_definition c (by omega)).andThen ?_
  intro d c' behind inside
  exact follows_definitions (d :: done) c' (by omega)
termination_by depth

end Definitions

-----------------------------------------------------------------------------------------
-- All walks
-----------------------------------------------------------------------------------------

/-- Wherever it starts, the walk ends with what reading the tokens from there comes to, and to give
a phrase it goes over at least `least` of them. It is enough that its calls may nest six deep for
each token left, and six more.
-/
def Progresses {α : Type} (tokens : List PlacedToken) (walk : Nat → Walk α) (least : Nat)
    (read : List PlacedToken → Outcome α) : Prop :=
  ∀ (c : Cursor) (depth : Nat), c.position ≤ tokens.length →
    6 * (tokens.length - c.position) + 6 ≤ depth →
    Ends tokens (walk depth) least c (read (tokens.drop c.position))

section Progress

variable {α : Type} {tokens : List PlacedToken} {walk : Nat → Walk α} {least : Nat}

theorem progresses_way {read : (ts : List PlacedToken) → Reader.Reading α ts.length}
    (h : ∀ (c : Cursor) (depth : Nat), 6 * (tokens.length - c.position) + 5 < depth →
      Follows tokens (walk depth) (way read) least c)
    : Progresses tokens walk least fun ts => outcome (read ts) :=
  fun c depth inside enough => h c depth enough inside _ rfl

theorem progresses_boundedWay
    {read : (n : Nat) → (ts : List PlacedToken) → ts.length < n → Reader.Reading α n}
    (h : ∀ (c : Cursor) (depth : Nat), 6 * (tokens.length - c.position) + 5 < depth →
      Follows tokens (walk depth) (boundedWay read) least c)
    : Progresses tokens walk least fun ts => outcome (read _ ts (Nat.lt_succ_self ts.length)) :=
  fun c depth inside enough => h c depth enough inside _ ⟨_, _, rfl⟩

/-- The walk over all tokens ends with what reading them comes to. -/
theorem goFrom_onlyDefinition (stop : ByteRange) {depth : Nat}
    (enough : 6 * tokens.length + 1 < depth)
    : ∃ c', (onlyDefinition stop tokens depth).goFrom ⟨0, 0⟩
        = some (Source.Definition.ofTokens stop tokens, c')
        ∧ Cursor.MovesTo tokens ⟨0, 0⟩ c' := by
  have ends : Ends tokens (definitions stop tokens depth []) 0 ⟨0, 0⟩ _ :=
    follows_definitions [] ⟨0, 0⟩ enough (Nat.zero_le tokens.length) _ rfl
  obtain ⟨c', ended, moves⟩ := ends.exists_goFrom
  rw [List.drop_zero] at ended
  refine ⟨c', ?_, moves⟩
  unfold Definition.ofTokens
  cases read : Reader.definitions stop [] tokens with
  | error fault =>
      rw [read] at ended
      exact goFrom_bind_error ended _
  | ok ds =>
      rw [read] at ended
      refine (goFrom_bind_ok ended _).trans ?_
      rcases ds with _ | ⟨d, _ | ⟨d', ds⟩⟩ <;> rfl

/-- Wherever they start, the walks end, and come to what reading comes to there. No cursor goes back
or past the end of input, and each is told to move on once for each token that it goes over; phrases
take at least one. So the walk over all tokens ends, having moved on at most as often as there are
tokens, with the definition that they spell or the fault that they have.
-/
theorem walks_progress (stop : ByteRange) (tokens : List PlacedToken)
    : Progresses tokens (definition stop tokens) 1 (fun ts => outcome (Reader.definition stop ts))
      ∧ Progresses tokens (block stop tokens) 1 (fun ts => outcome (Reader.block stop ts))
      ∧ Progresses tokens (stmt stop tokens) 1 (fun ts => outcome (Reader.stmt stop ts))
      ∧ (∀ start, Progresses tokens (branch stop tokens · start) 1 fun ts =>
        outcome (Reader.branch stop start ts (Nat.lt_succ_self ts.length)))
      ∧ Progresses tokens (expr stop tokens) 1 (fun ts => outcome (Reader.expr stop ts))
      ∧ Progresses tokens (operand stop tokens) 1 (fun ts => outcome (Reader.operand stop ts))
      ∧ Progresses tokens (primary stop tokens) 1 (fun ts => outcome (Reader.primary stop ts))
      ∧ (∀ done, Progresses tokens (params stop tokens · done) 1 fun ts =>
        outcome (Reader.params stop done ts (Nat.lt_succ_self ts.length)))
      ∧ (∀ done, Progresses tokens (stmts stop tokens · done) 1 fun ts =>
        outcome (Reader.stmts stop done ts (Nat.lt_succ_self ts.length)))
      ∧ (∀ done comma, Progresses tokens (items stop tokens · done comma) 1 fun ts =>
        outcome (Reader.items stop done comma ts (Nat.lt_succ_self ts.length)))
      ∧ (∀ left, Progresses tokens (comparisons stop tokens · left) 0 fun ts =>
        outcome (Reader.comparisons stop left ts (Nat.lt_succ_self ts.length)))
      ∧ (∀ object, Progresses tokens (attributes stop tokens · object) 0 fun ts =>
        outcome (Reader.attributes stop object ts (Nat.lt_succ_self ts.length)))
      ∧ (∀ done, Progresses tokens (definitions stop tokens · done) 0 fun ts =>
        (Reader.definitions stop done ts).map fun ds => (ds, []))
      ∧ (∀ token expected, Progresses tokens (fun _ => expect stop tokens token expected) 1
        fun ts => outcome (Reader.expect stop token expected ts))
      ∧ Progresses tokens (fun _ => expectIdent stop tokens) 1 (fun ts =>
        outcome (Reader.expectIdent stop ts))
      ∧ (∀ token c, c.position ≤ tokens.length →
        ∃ taken c', (take? tokens token).goFrom c = some (.ok taken, c') ∧ c.MovesTo tokens c')
      ∧ ∀ depth, 6 * tokens.length + 6 ≤ depth →
        ∃ c', (onlyDefinition stop tokens depth).goFrom ⟨0, 0⟩
            = some (Source.Definition.ofTokens stop tokens, c')
          ∧ c'.position ≤ tokens.length
          ∧ c'.advances = c'.position := by
  refine ⟨?definition, ?block, ?stmt, ?branch, ?expr, ?operand, ?primary, ?params, ?stmts, ?items,
    ?comparisons, ?attributes, ?definitions, ?expect, ?expectIdent, ?take, ?whole⟩
  case definition => exact progresses_way fun c _ enough => follows_definition c (by omega)
  case block => exact progresses_way fun c _ enough => follows_block c (by omega)
  case stmt => exact progresses_way fun c _ enough => follows_stmt c (by omega)
  case branch =>
    intro start
    exact progresses_boundedWay fun c _ enough => follows_branch start c (by omega)
  case expr => exact progresses_way fun c _ enough => follows_expr c (by omega)
  case operand => exact progresses_way fun c _ enough => follows_operand c (by omega)
  case primary => exact progresses_way fun c _ enough => follows_primary c (by omega)
  case params =>
    intro done
    exact progresses_boundedWay fun c _ enough => follows_params done c (by omega)
  case stmts =>
    intro done
    exact progresses_boundedWay fun c _ enough => follows_stmts done c (by omega)
  case items =>
    intro done comma
    exact progresses_boundedWay fun c _ enough => follows_items done comma c (by omega)
  case comparisons =>
    intro left
    exact progresses_boundedWay fun c _ enough => follows_comparisons left c (by omega)
  case attributes =>
    intro object
    exact progresses_boundedWay fun c _ enough => follows_attributes object c (by omega)
  case definitions =>
    intro done c depth inside enough
    exact follows_definitions done c (by omega) inside _ rfl
  case expect =>
    exact fun token expected => progresses_way fun _ _ _ => follows_expect token expected
  case expectIdent => exact progresses_way fun _ _ _ => follows_expectIdent
  case take => exact fun token c inside => exists_goFrom_accept? inside
  case whole =>
    intro depth enough
    have deep : 6 * tokens.length + 1 < depth := by omega
    obtain ⟨c', ended, moves⟩ := goFrom_onlyDefinition stop deep
    refine ⟨c', ended, moves.inside, ?_⟩
    rw [moves.counted, Nat.zero_add, Nat.sub_zero]

end Progress

end Walk

end RecordSynth.Source
