import RecordSynth.Program.Listing
import RecordSynth.Proofs.Eval.Correctness
import RecordSynth.Proofs.Program.Balance
import RecordSynth.Proofs.Program.Rebinding

/-! Programs are sound however they are made: by compilation, by replacing names and by binding.
Each instruction is balanced and leads to another one, and the listing finds every entry that it
writes.
-/

namespace RecordSynth.Program

/-- There is an instruction to begin with, and every instruction is steady and leads to another. -/
structure Sound (p : Program) : Prop where
  entry : 0 < p.code.size
  steady
    : ∀ position instr, p.code[position]? = some instr → p.Steady position p.code.size instr

/-- The program of a definition covers the places of what the definition enters. -/
theorem within_program (d : Source.Definition)
    : d.layout.Within d.program d.paramNames d.nameTable d.constTable := by
  refine ⟨?_, ?_, ?_⟩
  all_goals
    intro entry member
    simpa [Source.Definition.program, Source.Definition.layout, Layout.ofTables]
      using List.idxOf_lt_length_of_mem member

/-- The body of an accepted definition is balanced where it stands in the program. -/
theorem balances_bodyCode {d : Source.Definition} (accepted : d.Accepted)
    : d.program.Balances 0 d.bodyCode 0 0 := by
  have bodyWithin : d.layout.Within d.program d.paramNames (Source.Stmt.namesAll d.body)
      (Source.Stmt.literalsAll d.body) :=
    (within_program d).mono (fun name member => mem_enterAll.mpr (Or.inr member))
      (fun value member => Source.Definition.mem_constTable member)
  have placed := (codeAt_append.mp d.codeAt_program).1
  exact Source.Stmt.balancesAll d.body accepted.wellFormed bodyWithin placed rfl

/-- The program of an accepted definition is sound: its body is balanced, and what follows the body
loads a constant and gives it back.
-/
theorem sound_of_accepted {d : Source.Definition} (accepted : d.Accepted) : d.program.Sound := by
  have body := balances_bodyCode accepted
  have inRange := (within_program d).const .none (mem_enterAll.mpr (Or.inr (by simp)))
  have placed : CodeAt d.program 0
      ((d.bodyCode ++ [.loadConst (d.layout.const .none)]) ++ [.giveBack]) := by
    rw [List.append_assoc]
    exact d.codeAt_program
  obtain ⟨frontPlaced, ends⟩ := codeAt_append.mp placed
  have load := (codeAt_append.mp frontPlaced).2
  have front := body.append (.single (codeAt_singleton.mp load) body.after (Nat.zero_le _) inRange
    rfl (by simp [Instr.nexts]))
  have size : d.program.code.size
      = (d.bodyCode ++ [Instr.loadConst (d.layout.const .none)]).length + 1 := by
    simp [Source.Definition.program]
  refine ⟨size ▸ Nat.succ_pos _, ?_⟩
  intro position instr found
  have inCode := (Array.getElem?_eq_some_iff.mp found).1
  rw [size] at inCode ⊢
  rcases Nat.lt_succ_iff_lt_or_eq.mp inCode with inFront | isEnd
  · have isInstr := frontPlaced position inFront
    rw [Nat.zero_add, found] at isInstr
    have steady := front.steady position instr isInstr.symm
    rwa [Nat.zero_add, Nat.zero_add] at steady
  -- The closing return has nothing behind it.
  · have isReturn := codeAt_singleton.mp ends
    rw [Nat.zero_add, ← isEnd, found] at isReturn
    obtain rfl := Option.some.inj isReturn
    have height := front.after
    rw [Nat.zero_add] at height
    refine ⟨isEnd ▸ height ▸ Nat.le_refl _, trivial, ?_⟩
    intro next member
    cases member

/-- The height of the stack is a matter of the code only. -/
theorem height_congr {p q : Program} (same : q.code = p.code) (position : Nat)
    : q.height position = p.height position := by
  induction position with
  | zero => rfl
  | succ position ih => rw [height, height, same, ih]

/-- What is in range is a matter of the sizes of the tables. -/
theorem inRange_congr {p q : Program} {instr : Instr} (consts : q.consts.size = p.consts.size)
    (params : q.params.size = p.params.size) (names : q.names.size = p.names.size)
    : instr.InRange q ↔ instr.InRange p := by
  cases instr <;> simp only [Instr.InRange, consts, params, names]

/-- Other names do not make a program unsound. -/
theorem Sound.congr {p q : Program} (sound : p.Sound) (code : q.code = p.code)
    (consts : q.consts.size = p.consts.size) (params : q.params.size = p.params.size)
    (names : q.names.size = p.names.size)
    : q.Sound := by
  refine ⟨code ▸ sound.entry, ?_⟩
  intro position instr found
  rw [code] at found ⊢
  obtain ⟨takes, inRange, leads⟩ := sound.steady position instr found
  refine ⟨?_, (inRange_congr consts params names).mpr inRange, ?_⟩
  · rwa [height_congr code]
  · simpa only [height_congr code] using leads

/-- The programs that there are: what a source text compiles to, and what replacing names or binding
makes of a program that there is.
-/
inductive Made : Program → Prop
  | compiled {source : String} {p : Program} (compiles : ofText source = .ok p) : Made p
  | replaced {p q : Program} {names params : Array String} (made : Made p)
    (replaces : p.replaceNames names params = .ok q)
    : Made q
  | bound {p q : Program} {fields : List String} (made : Made p)
    (binds : p.bind fields = .ok q)
    : Made q

/-- Replacing names puts the new tables, which are as large as the old ones, in their places. -/
theorem replaceNames_eq_ok {p q : Program} {names params : Array String}
    (replaces : p.replaceNames names params = .ok q)
    : q = { p with names := names, params := params }
      ∧ names.size = p.names.size
      ∧ params.size = p.params.size := by
  unfold replaceNames at replaces
  split at replaces
  · cases replaces
  next sameNames =>
  split at replaces
  · cases replaces
  next sameParams =>
  cases replaces
  exact ⟨rfl, not_not.mp sameNames, not_not.mp sameParams⟩

/-- Every program that there is is sound, by induction on how it is made. -/
theorem Made.sound {p : Program} (made : p.Made) : p.Sound := by
  induction made with
  | compiled compiles =>
      obtain ⟨d, _, compiles⟩ := bind_eq_ok.mp compiles
      obtain ⟨accepted, rfl⟩ := ofDefinition_eq_ok_iff.mp compiles
      exact sound_of_accepted accepted
  | replaced _ replaces ih =>
      obtain ⟨rfl, names, params⟩ := replaceNames_eq_ok replaces
      exact ih.congr rfl rfl params names
  | bound _ binds ih =>
      obtain ⟨-, -, rfl⟩ := bind_eq_ok_iff.mp binds
      exact ih.congr rfl rfl (Array.size_map ..) (Array.size_map ..)

-----------------------------------------------------------------------------------------
-- Listings that find the entries
-----------------------------------------------------------------------------------------

/-- An instruction that refers to a table, as `referenceText` writes it, if the entry is there. -/
def referenceText? {α : Type} (label : String) (table : Array α) (position : Nat)
    (write : α → String) : Option String :=
  table[position]?.map fun entry =>
    label ++ " " ++ toString position ++ " (" ++ write entry ++ ")"

/-- An instruction as the listing writes it, if the entry that it refers to is there. -/
def instrText? (p : Program) : Instr → Option String
  | .loadConst i => referenceText? "LoadConst" p.consts i Literal.inspect
  | .loadParam i => referenceText? "LoadFast" p.params i id
  | .loadAttr i => referenceText? "LoadAttr" p.names i id
  | .storeAttr i => referenceText? "StoreAttr" p.names i id
  | .loadName i => referenceText? "LoadNameStr" p.names i id
  | instr => some instr.text

/-- The listing of a program, if all entries that the instructions refer to are there. -/
def listing? (p : Program) : Option String := do
  let lines ← p.code.toList.zipIdx.mapM fun (instr, i) =>
    (p.instrText? instr).map fun text => lineNumber i ++ "  " ++ text ++ "\n"
  return p.heading ++ String.join lines

theorem referenceText?_of_lt {α : Type} {label : String} {table : Array α} {position : Nat}
    {write : α → String} (inRange : position < table.size)
    : referenceText? label table position write
      = some (referenceText label table position write) := by
  rw [referenceText?, referenceText, entryText, Array.getElem?_eq_getElem inRange]
  rfl

theorem instrText?_of_inRange {p : Program} {instr : Instr} (inRange : instr.InRange p)
    : p.instrText? instr = some (p.instrText instr) := by
  cases instr with
  | loadConst | loadParam | loadAttr | storeAttr | loadName => exact referenceText?_of_lt inRange
  | _ => rfl

/-- All lines are written if each one is, by induction on them. -/
theorem mapM_eq_some {α β : Type} {f : α → Option β} {g : α → β} {xs : List α}
    (all : ∀ x ∈ xs, f x = some (g x))
    : xs.mapM f = some (xs.map g) := by
  induction xs with
  | nil => rfl
  | cons x rest ih =>
      obtain ⟨head, others⟩ := List.forall_mem_cons.mp all
      rw [List.mapM_cons, head, ih others]
      rfl

/-- The listing of a sound program finds all entries. -/
theorem Sound.listing? {p : Program} (sound : p.Sound) : p.listing? = some p.listing := by
  unfold Program.listing? listing
  rw [mapM_eq_some (g := fun (instr, i) => lineNumber i ++ "  " ++ p.instrText instr ++ "\n")]
  · rfl
  · rintro ⟨instr, i⟩ member
    have found := List.mk_mem_zipIdx_iff_getElem?.mp member
    rw [Array.getElem?_toList] at found
    dsimp only
    rw [instrText?_of_inRange (sound.steady i instr found).inRange]
    rfl

end RecordSynth.Program
