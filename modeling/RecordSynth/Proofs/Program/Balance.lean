import RecordSynth.Proofs.Eval.MachineSteps
import RecordSynth.Proofs.Program.Layout

/-! The operand stack has one height at each position of a compiled program, whichever way a run has
come there. With that height every instruction finds its operands, refers to entries that the
tables have, and leads forward to another instruction.
-/

namespace RecordSynth

namespace Instr

/-- How many operands an instruction takes from the stack. -/
def takes : Instr → Nat
  | loadConst _ | loadParam _ | loadName _ | jump _ => 0
  | loadAttr _ | callBuiltin _ | jumpIfFalse _ | pop | yield | giveBack => 1
  | storeAttr _ | compare _ => 2
  | buildTuple count | buildString count => count

/-- How many operands an instruction puts on the stack. -/
def puts : Instr → Nat
  | storeAttr _ | jumpIfFalse _ | jump _ | pop | yield | giveBack => 0
  | _ => 1

/-- Where a run may go on after the instruction at a position. -/
def nexts (position : Nat) : Instr → List Nat
  | jump target => [target]
  | jumpIfFalse target => [position + 1, target]
  | giveBack => []
  | _ => [position + 1]

/-- The instruction refers to an entry that the program's table has, if it refers to any. -/
def InRange (p : Program) : Instr → Prop
  | loadConst i => i < p.consts.size
  | loadParam i => i < p.params.size
  | loadAttr i | storeAttr i | loadName i => i < p.names.size
  | _ => True

end Instr

namespace Program

/-- The height of the operand stack at a position, if the instructions before it are carried out one
after the other.
-/
def height (p : Program) : Nat → Nat
  | 0 => 0
  | position + 1 =>
    match p.code[position]? with
    | some instr => p.height position - instr.takes + instr.puts
    | none => p.height position

/-- The instruction at the position finds its operands and refers to entries that there are. It
leads forward, to positions below `limit` at which the stack has the height that it leaves.
-/
structure Steady (p : Program) (position limit : Nat) (instr : Instr) : Prop where
  takes : instr.takes ≤ p.height position
  inRange : instr.InRange p
  leads
    : ∀ next ∈ instr.nexts position,
        position < next
        ∧ next < limit
        ∧ p.height next = p.height position - instr.takes + instr.puts

/-- The code from `start` on takes the stack from one height to another. Its instructions are
steady and lead no further than directly behind it.
-/
structure Balances (p : Program) (start : Nat) (code : List Instr) (before after : Nat)
    : Prop where
  before : p.height start = before
  after : p.height (start + code.length) = after
  steady
    : ∀ i instr, code[i]? = some instr →
        p.Steady (start + i) (start + code.length + 1) instr

-----------------------------------------------------------------------------------------
-- Code that is put together
-----------------------------------------------------------------------------------------

section Composition

variable {p : Program} {start before middle after : Nat} {instr : Instr}

theorem height_succ {position : Nat} (found : p.code[position]? = some instr)
    : p.height (position + 1) = p.height position - instr.takes + instr.puts := by
  rw [height, found]

theorem Steady.mono {position limit limit' : Nat} (steady : p.Steady position limit instr)
    (le : limit ≤ limit')
    : p.Steady position limit' instr := by
  refine ⟨steady.takes, steady.inRange, ?_⟩
  intro next member
  obtain ⟨forward, below, height⟩ := steady.leads next member
  exact ⟨forward, Nat.lt_of_lt_of_le below le, height⟩

theorem Balances.nil (height : p.height start = before) : p.Balances start [] before before :=
  ⟨height, height, nofun⟩

theorem Balances.append {left right : List Instr} (first : p.Balances start left before middle)
    (second : p.Balances (start + left.length) right middle after)
    : p.Balances start (left ++ right) before after := by
  refine ⟨first.before, ?_, ?_⟩
  · rw [List.length_append, ← Nat.add_assoc]
    exact second.after
  · intro i instr found
    rw [List.length_append]
    rcases Nat.lt_or_ge i left.length with inLeft | inRight
    · rw [List.getElem?_append_left inLeft] at found
      exact (first.steady i instr found).mono (by omega)
    · rw [List.getElem?_append_right inRight] at found
      have steady := second.steady _ instr found
      rw [Nat.add_assoc, Nat.add_sub_of_le inRight] at steady
      exact steady.mono (by omega)

/-- An instruction in front of code, which may lead into the code or directly behind it. -/
theorem Balances.cons {rest : List Instr} (found : p.code[start]? = some instr)
    (height : p.height start = before) (takes : instr.takes ≤ before)
    (inRange : instr.InRange p)
    (leads
      : ∀ next ∈ instr.nexts start,
          start < next ∧ next ≤ start + 1 + rest.length ∧ p.height next = middle)
    (tail : p.Balances (start + 1) rest middle after)
    : p.Balances start (instr :: rest) before after := by
  have left : middle = p.height start - instr.takes + instr.puts :=
    tail.before.symm.trans (height_succ found)
  refine ⟨height, ?_, ?_⟩
  · rw [List.length_cons, Nat.add_comm rest.length, ← Nat.add_assoc]
    exact tail.after
  · intro i other isOther
    rw [List.length_cons]
    cases i with
    | zero =>
        obtain rfl := Option.some.inj isOther
        refine ⟨height ▸ takes, inRange, ?_⟩
        intro next member
        obtain ⟨forward, below, isMiddle⟩ := leads next member
        exact ⟨forward, by omega, isMiddle.trans left⟩
    | succ i =>
        have steady := tail.steady i other isOther
        rw [Nat.add_right_comm] at steady
        exact steady.mono (by omega)

/-- An instruction after which the run goes on with the next one, if at all. -/
theorem Balances.single (found : p.code[start]? = some instr) (height : p.height start = before)
    (takes : instr.takes ≤ before) (inRange : instr.InRange p)
    (left : before - instr.takes + instr.puts = after)
    (straight : ∀ next ∈ instr.nexts start, next = start + 1)
    : p.Balances start [instr] before after := by
  have behind : p.height (start + 1) = after := by
    rw [height_succ found, height, left]
  refine .cons found height takes inRange ?_ (.nil behind)
  intro next member
  obtain rfl := straight next member
  exact ⟨Nat.lt_succ_self start, Nat.le_refl _, behind⟩

/-- A jump over code leaves the stack as high as the code leaves it. -/
theorem Balances.jump {rest : List Instr}
    (found : p.code[start]? = some (.jump (start + 1 + rest.length)))
    (tail : p.Balances (start + 1) rest before before)
    : p.Balances start (.jump (start + 1 + rest.length) :: rest) before before := by
  refine .cons found ((height_succ found).symm.trans tail.before) (Nat.zero_le _) trivial ?_ tail
  intro next member
  obtain rfl := List.mem_singleton.mp member
  exact ⟨by omega, Nat.le_refl _, tail.after⟩

/-- A jump into code or over it, taken or not, leads to where the stack has the same height. -/
theorem Balances.jumpIfFalse {rest : List Instr} {target : Nat}
    (found : p.code[start]? = some (.jumpIfFalse target)) (height : p.height start = before + 1)
    (forward : start < target) (within : target ≤ start + 1 + rest.length)
    (atTarget : p.height target = before) (tail : p.Balances (start + 1) rest before before)
    : p.Balances start (.jumpIfFalse target :: rest) (before + 1) before := by
  refine .cons found height (Nat.le_add_left _ _) trivial ?_ tail
  intro next member
  rcases List.mem_cons.mp member with rfl | isTarget
  · exact ⟨Nat.lt_succ_self start, Nat.le_add_right _ _, tail.before⟩
  · obtain rfl := List.mem_singleton.mp isTarget
    exact ⟨forward, within, atTarget⟩

end Composition

end Program

-----------------------------------------------------------------------------------------
-- The code of trees
-----------------------------------------------------------------------------------------

/-- The program's tables cover the places that a layout gives parameters, names and constants. -/
structure Layout.Within (l : Layout) (p : Program) (params names : List String)
    (consts : List Literal) : Prop where
  slot : ∀ name ∈ params, l.slot name < p.params.size
  name : ∀ name ∈ names, l.name name < p.names.size
  const : ∀ value ∈ consts, l.const value < p.consts.size

theorem Layout.Within.mono {l : Layout} {p : Program} {params names fewer : List String}
    {consts less : List Literal} (within : l.Within p params names consts)
    (namesSubset : fewer ⊆ names) (constsSubset : less ⊆ consts)
    : l.Within p params fewer less :=
  ⟨within.slot, fun name member => within.name name (namesSubset member),
    fun value member => within.const value (constsSubset member)⟩

namespace Source

open Program

section Trees

variable {p : Program} {l : Layout} {params : List String}

/-- A call that is not about a name takes its arguments and leaves its value. -/
theorem callInstr_effect {callee : String} {count : Nat} (allowed : CallAllowed callee count)
    (position : Nat)
    : (callInstr callee count).takes = count
      ∧ (callInstr callee count).puts = 1
      ∧ (callInstr callee count).InRange p
      ∧ (callInstr callee count).nexts position = [position + 1] := by
  unfold callInstr
  rcases allowed with ⟨rfl, -⟩ | ⟨known, rfl⟩
  · have unknown : Builtin.ofName? "concat" = none := by
      decide
    rw [unknown]
    exact ⟨rfl, rfl, trivial, rfl⟩
  · obtain ⟨function, isFunction⟩ := Option.isSome_iff_exists.mp known
    rw [isFunction]
    exact ⟨rfl, rfl, trivial, rfl⟩

mutual

/-- The code of an expression raises the stack by one, by recursion on the expression. -/
theorem Expr.balances {start before : Nat} (x : Expr) (formed : x.WellFormed params)
    (within : l.Within p params x.names x.literals) (placed : CodeAt p start (x.code l))
    (height : p.height start = before)
    : p.Balances start (x.code l) before (before + 1) := by
  cases x with
  | literal range value =>
      have inRange := within.const value List.mem_cons_self
      exact .single (codeAt_singleton.mp placed) height (Nat.zero_le _) inRange rfl
        (by simp [Instr.nexts])
  | var range name =>
      have inRange := within.slot name formed
      exact .single (codeAt_singleton.mp placed) height (Nat.zero_le _) inRange rfl
        (by simp [Instr.nexts])
  | attr range object field =>
      rw [Expr.code] at placed ⊢
      obtain ⟨objectPlaced, access⟩ := codeAt_append.mp placed
      have inRange := within.name field (by simp [Expr.names])
      have objectWithin : l.Within p params object.names object.literals :=
        within.mono (by simp [Expr.names]) (by simp [Expr.literals])
      have first := Expr.balances object formed objectWithin objectPlaced height
      exact first.append (.single (codeAt_singleton.mp access) first.after (Nat.le_add_left _ _)
        inRange rfl (by simp [Instr.nexts]))
  | call range callee calleeRange args =>
      cases label : labelOf? callee args with
      | some name =>
          have inRange := within.name name (by simp [Expr.names, label])
          simp only [Expr.code, label] at placed ⊢
          exact .single (codeAt_singleton.mp placed) height (Nat.zero_le _) inRange rfl
            (by simp [Instr.nexts])
      | none =>
          obtain ⟨allowed, argsFormed⟩ : CallAllowed callee args.length
              ∧ Expr.WellFormedAll params args := by
            simpa [Expr.WellFormed, label] using formed
          have argsWithin : l.Within p params (Expr.namesAll args) (Expr.literalsAll args) :=
            within.mono (by simp [Expr.names]) (by simp [Expr.literals])
          simp only [Expr.code, label] at placed ⊢
          obtain ⟨argsPlaced, call⟩ := codeAt_append.mp placed
          have first := Expr.balancesAll args argsFormed argsWithin argsPlaced height
          obtain ⟨takes, puts, inRange, nexts⟩ := callInstr_effect (p := p) allowed
            (start + (Expr.codeAll l args).length)
          refine first.append (.single (codeAt_singleton.mp call) first.after ?_ inRange ?_ ?_)
          · rw [takes]
            exact Nat.le_add_left _ _
          · rw [takes, puts, Nat.add_sub_cancel]
          · simp [nexts]
  | tuple range items =>
      rw [Expr.code] at placed ⊢
      obtain ⟨itemsPlaced, build⟩ := codeAt_append.mp placed
      have itemsWithin : l.Within p params (Expr.namesAll items) (Expr.literalsAll items) :=
        within.mono (by simp [Expr.names]) (by simp [Expr.literals])
      have first := Expr.balancesAll items formed.2 itemsWithin itemsPlaced height
      refine first.append (.single (codeAt_singleton.mp build) first.after (Nat.le_add_left _ _)
        trivial ?_ (by simp [Instr.nexts]))
      simp [Instr.takes, Instr.puts]
  | compare range op left right =>
      rw [Expr.code] at placed ⊢
      obtain ⟨leftPlaced, behind⟩ := codeAt_append.mp placed
      obtain ⟨rightPlaced, comparison⟩ := codeAt_append.mp behind
      have leftWithin : l.Within p params left.names left.literals :=
        within.mono (by simp [Expr.names]) (by simp [Expr.literals])
      have rightWithin : l.Within p params right.names right.literals :=
        within.mono (by simp [Expr.names]) (by simp [Expr.literals])
      have first := Expr.balances left formed.1 leftWithin leftPlaced height
      have second := Expr.balances right formed.2 rightWithin rightPlaced first.after
      exact first.append (second.append (.single (codeAt_singleton.mp comparison) second.after
        (Nat.le_add_left _ _) trivial rfl (by simp [Instr.nexts])))

/-- The code of expressions raises the stack by their number. -/
theorem Expr.balancesAll {start before : Nat} (xs : List Expr)
    (formed : Expr.WellFormedAll params xs)
    (within : l.Within p params (Expr.namesAll xs) (Expr.literalsAll xs))
    (placed : CodeAt p start (Expr.codeAll l xs)) (height : p.height start = before)
    : p.Balances start (Expr.codeAll l xs) before (before + xs.length) := by
  cases xs with
  | nil => exact .nil height
  | cons x rest =>
      rw [Expr.codeAll] at placed ⊢
      obtain ⟨headPlaced, restPlaced⟩ := codeAt_append.mp placed
      have headWithin : l.Within p params x.names x.literals :=
        within.mono (by simp [Expr.namesAll]) (by simp [Expr.literalsAll])
      have restWithin : l.Within p params (Expr.namesAll rest) (Expr.literalsAll rest) :=
        within.mono (by simp [Expr.namesAll]) (by simp [Expr.literalsAll])
      have first := Expr.balances x formed.1 headWithin headPlaced height
      have second := Expr.balancesAll rest formed.2 restWithin restPlaced first.after
      rw [List.length_cons, Nat.add_comm rest.length, ← Nat.add_assoc]
      exact first.append second

end

variable {isGenerator : Bool}

/-- What gives back takes the value, and the run does not go on. -/
theorem balances_giveBack {start before : Nat} (placed : CodeAt p start [.giveBack])
    (height : p.height start = before + 1)
    : p.Balances start [.giveBack] (before + 1) before :=
  .single (codeAt_singleton.mp placed) height (Nat.le_add_left _ _) trivial rfl nofun

mutual

/-- The code of a statement leaves the stack as high as it was, by recursion on the statement. -/
theorem Stmt.balances {start before : Nat} (s : Stmt) (formed : s.WellFormed params isGenerator)
    (within : l.Within p params s.names s.literals) (placed : CodeAt p start (s.code l start))
    (height : p.height start = before)
    : p.Balances start (s.code l start) before before := by
  cases s with
  | assign range object field value =>
      rw [Stmt.code] at placed ⊢
      obtain ⟨valuePlaced, behind⟩ := codeAt_append.mp placed
      obtain ⟨objectPlaced, store⟩ := codeAt_append.mp behind
      have inRange := within.name field (by simp [Stmt.names])
      have valueWithin : l.Within p params value.names value.literals :=
        within.mono (by simp [Stmt.names]) (by simp [Stmt.literals])
      have objectWithin : l.Within p params object.names object.literals :=
        within.mono (by simp [Stmt.names]) (by simp [Stmt.literals])
      have first := Expr.balances value formed.1 valueWithin valuePlaced height
      have second := Expr.balances object formed.2 objectWithin objectPlaced first.after
      exact first.append (second.append (.single (codeAt_singleton.mp store) second.after
        (Nat.le_add_left _ _) inRange rfl (by simp [Instr.nexts])))
  | giveBack range value =>
      cases value with
      | none =>
          obtain ⟨load, ends⟩ := codeAt_cons.mp placed
          have inRange := within.const .none List.mem_cons_self
          have first : p.Balances start [.loadConst (l.const .none)] before (before + 1) :=
            .single load height (Nat.zero_le _) inRange rfl (by simp [Instr.nexts])
          exact first.append (balances_giveBack ends first.after)
      | some value =>
          rw [Stmt.code] at placed ⊢
          obtain ⟨valuePlaced, ends⟩ := codeAt_append.mp placed
          have first := Expr.balances value formed within valuePlaced height
          exact first.append (balances_giveBack ends first.after)
  | yield range value =>
      rw [Stmt.code] at placed ⊢
      obtain ⟨valuePlaced, yields⟩ := codeAt_append.mp placed
      have first := Expr.balances value formed.2 within valuePlaced height
      exact first.append (.single (codeAt_singleton.mp yields) first.after (Nat.le_add_left _ _)
        trivial rfl (by simp [Instr.nexts]))
  | branch range test thenBody elseBody =>
      obtain ⟨testFormed, thenFormed, elseFormed⟩ := formed
      have testWithin : l.Within p params test.names test.literals :=
        within.mono (by simp [Stmt.names]) (by simp [Stmt.literals])
      have thenWithin : l.Within p params (Stmt.namesAll thenBody) (Stmt.literalsAll thenBody) :=
        within.mono (by simp [Stmt.names]) (by simp [Stmt.literals])
      have elseWithin : l.Within p params (Stmt.namesAll elseBody) (Stmt.literalsAll elseBody) :=
        within.mono (by simp [Stmt.names]) (by simp [Stmt.literals])
      cases elseBody with
      | nil =>
          rw [Stmt.code] at placed ⊢
          obtain ⟨testPlaced, behind⟩ := codeAt_append.mp placed
          obtain ⟨jumpIfFalse, thenPlaced⟩ := codeAt_cons.mp behind
          have first := Expr.balances test testFormed testWithin testPlaced height
          have behindTest : p.height (start + (test.code l).length + 1) = before := by
            rw [height_succ jumpIfFalse, first.after]
            rfl
          have second := Stmt.balancesAll thenBody thenFormed thenWithin thenPlaced behindTest
          exact first.append (.jumpIfFalse jumpIfFalse first.after (by omega) (Nat.le_refl _)
            second.after second)
      | cons head rest =>
          rw [Stmt.code] at placed ⊢
          obtain ⟨testPlaced, behind⟩ := codeAt_append.mp placed
          obtain ⟨jumpIfFalse, bodies⟩ := codeAt_cons.mp behind
          obtain ⟨thenPlaced, alternative⟩ := codeAt_append.mp bodies
          obtain ⟨jump, elsePlaced⟩ := codeAt_cons.mp alternative
          have first := Expr.balances test testFormed testWithin testPlaced height
          have behindTest : p.height (start + (test.code l).length + 1) = before := by
            rw [height_succ jumpIfFalse, first.after]
            rfl
          have second := Stmt.balancesAll thenBody thenFormed thenWithin thenPlaced behindTest
          have third := Stmt.balancesAll (head :: rest) elseFormed elseWithin elsePlaced
            ((height_succ jump).trans second.after)
          refine first.append (.jumpIfFalse jumpIfFalse first.after (by omega) ?_ third.before
            (second.append (.jump jump third)))
          rw [List.length_append, List.length_cons]
          omega
  | discard range value =>
      rw [Stmt.code] at placed ⊢
      obtain ⟨valuePlaced, pops⟩ := codeAt_append.mp placed
      have first := Expr.balances value formed within valuePlaced height
      exact first.append (.single (codeAt_singleton.mp pops) first.after (Nat.le_add_left _ _)
        trivial rfl (by simp [Instr.nexts]))

/-- The code of statements leaves the stack as high as it was. -/
theorem Stmt.balancesAll {start before : Nat} (ss : List Stmt)
    (formed : Stmt.WellFormedAll params isGenerator ss)
    (within : l.Within p params (Stmt.namesAll ss) (Stmt.literalsAll ss))
    (placed : CodeAt p start (Stmt.codeAll l start ss)) (height : p.height start = before)
    : p.Balances start (Stmt.codeAll l start ss) before before := by
  cases ss with
  | nil => exact .nil height
  | cons s rest =>
      rw [Stmt.codeAll] at placed ⊢
      obtain ⟨headPlaced, restPlaced⟩ := codeAt_append.mp placed
      have headWithin : l.Within p params s.names s.literals :=
        within.mono (by simp [Stmt.namesAll]) (by simp [Stmt.literalsAll])
      have restWithin : l.Within p params (Stmt.namesAll rest) (Stmt.literalsAll rest) :=
        within.mono (by simp [Stmt.namesAll]) (by simp [Stmt.literalsAll])
      have first := Stmt.balances s formed.1 headWithin headPlaced height
      exact first.append (Stmt.balancesAll rest formed.2 restWithin restPlaced first.after)

end

end Trees

end Source

end RecordSynth
