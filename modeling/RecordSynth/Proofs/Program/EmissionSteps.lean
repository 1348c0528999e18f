import RecordSynth.Proofs.Program.Layout

/-! What each step of an emission adds to the tables and to the code, and when it goes through.
Positions are read off at the end, because no later step moves an entry of a table.
-/

namespace RecordSynth

open Source

theorem bind_eq_ok {ε α β : Type} {x : Except ε α} {f : α → Except ε β} {b : β}
    : (x >>= f) = .ok b ↔ ∃ a, x = .ok a ∧ f a = .ok b := by
  cases x with
  | error error => simp [bind, Except.bind]
  | ok a => simp [bind, Except.bind]

/-- The positions of a layout are those of the parameters and of an emission's tables. -/
structure Layout.Reads (l : Layout) (params : List String) (e : Emission) : Prop where
  slot : ∀ name ∈ params, l.slot name = params.idxOf name
  name : ∀ name ∈ e.names.toList, l.name name = e.names.toList.idxOf name
  const : ∀ value ∈ e.consts.toList, l.const value = e.consts.toList.idxOf value

/-- Only the tables of an emission count. -/
theorem Layout.Reads.of_tables {l : Layout} {params : List String} {e e' : Emission}
    (reads : l.Reads params e) (names : e.names = e'.names) (consts : e.consts = e'.consts)
    : l.Reads params e' :=
  ⟨reads.slot, names ▸ reads.name, consts ▸ reads.const⟩

theorem Layout.ofTables_reads (params : List String) (e : Emission)
    : (Layout.ofTables params e.names.toList e.consts.toList).Reads params e :=
  ⟨fun _ _ => rfl, fun _ _ => rfl, fun _ _ => rfl⟩

/-- The instruction with another target, if it is a jump. -/
def Instr.aimedAt (target : Nat) : Instr → Instr
  | .jump _ => .jump target
  | .jumpIfFalse _ => .jumpIfFalse target
  | instr => instr

theorem modify_length_append {α : Type} (before : List α) (a : α) (after : List α)
    (f : α → α)
    : (before ++ a :: after).modify before.length f = before ++ f a :: after := by
  induction before with
  | nil => rfl
  | cons b rest ih => simpa using ih

namespace Emission

/-- `e'` is what `e` becomes when names and constants are entered into its tables, which do not
outgrow their limit, and code is added, which depends on where the entries of the tables are.
-/
structure Adds (params : List String) (e e' : Emission) (names : List String)
    (literals : List Literal) (code : Layout → List Instr) : Prop where
  names : e'.names.toList = enterAll e.names.toList names
  consts : e'.consts.toList = enterAll e.consts.toList literals
  code : ∀ l : Layout, l.Reads params e' → e'.code.toList = e.code.toList ++ code l
  names_le : e.names.toList.length ≤ operandLimit → e'.names.toList.length ≤ operandLimit
  consts_le : e.consts.toList.length ≤ operandLimit → e'.consts.toList.length ≤ operandLimit

-----------------------------------------------------------------------------------------
-- What a step adds, and how steps compose
-----------------------------------------------------------------------------------------

section Adds

variable {params : List String} {e e₁ e₂ : Emission}
variable {names names₁ names₂ : List String} {literals literals₁ literals₂ : List Literal}
variable {code code₁ code₂ : Layout → List Instr}

/-- A layout of the later tables is one of the earlier tables, which are in front of them. -/
theorem Adds.reads (h : Adds params e e₁ names literals code) {l : Layout}
    (reads : l.Reads params e₁)
    : l.Reads params e := by
  have names_grow := h.names ▸ prefix_enterAll e.names.toList names
  have consts_grow := h.consts ▸ prefix_enterAll e.consts.toList literals
  refine ⟨reads.slot, ?_, ?_⟩
  · intro name present
    rw [reads.name name (names_grow.subset present), idxOf_eq_of_prefix names_grow present]
  · intro value present
    rw [reads.const value (consts_grow.subset present),
      idxOf_eq_of_prefix consts_grow present]

theorem Adds.refl (params : List String) (e : Emission)
    : Adds params e e [] [] (fun _ => []) :=
  ⟨rfl, rfl, fun _ _ => (List.append_nil _).symm, id, id⟩

/-- What two steps add is what the first adds and then what the second adds. -/
theorem Adds.trans (first : Adds params e e₁ names₁ literals₁ code₁)
    (second : Adds params e₁ e₂ names₂ literals₂ code₂)
    : Adds params e e₂ (names₁ ++ names₂) (literals₁ ++ literals₂)
        (fun l => code₁ l ++ code₂ l) := by
  refine ⟨?_, ?_, ?_, second.names_le ∘ first.names_le, second.consts_le ∘ first.consts_le⟩
  · rw [second.names, first.names, enterAll_append]
  · rw [second.consts, first.consts, enterAll_append]
  · intro l reads
    rw [second.code l reads, first.code l (second.reads reads), List.append_assoc]

/-- Two descriptions of the added code that agree on the layouts in question are as good. -/
theorem Adds.congr_code (h : Adds params e e₁ names literals code)
    (same : ∀ l : Layout, l.Reads params e₁ → code l = code₁ l)
    : Adds params e e₁ names literals code₁ :=
  ⟨h.names, h.consts, fun l reads => same l reads ▸ h.code l reads, h.names_le, h.consts_le⟩

/-- The code grows by the length of what is added. -/
theorem Adds.size_code (h : Adds params e e₁ names literals code) {l : Layout}
    (reads : l.Reads params e₁)
    : e₁.code.size = e.code.size + (code l).length := by
  have lengths := congrArg List.length (h.code l reads)
  simpa using lengths

/-- Where the length of the added code is the same for all layouts, any layout tells it. -/
theorem Adds.size_of_length (h : Adds params e e₁ names literals code)
    (same : ∀ l l' : Layout, (code l).length = (code l').length) (l : Layout)
    : e₁.code.size = e.code.size + (code l).length := by
  rw [h.size_code (Layout.ofTables_reads params e₁), same _ l]

/-- An instruction that refers to no table. -/
theorem adds_emit (params : List String) (e : Emission) (instr : Instr)
    : Adds params e (e.emit instr) [] [] (fun _ => [instr]) :=
  ⟨rfl, rfl, fun _ _ => by simp [emit], id, id⟩

end Adds

-----------------------------------------------------------------------------------------
-- Jumps are emitted first and get their targets later
-----------------------------------------------------------------------------------------

section Jumps

variable {params : List String} {e e₁ : Emission}
variable {names : List String} {literals : List Literal} {before after : Layout → List Instr}

theorem toList_patch (e : Emission) (jump target : Nat)
    : (e.patch jump target).code.toList
      = e.code.toList.modify jump (Instr.aimedAt target) := by
  rw [patch, Array.toList_modify]
  rfl

/-- Filling in a jump changes that instruction only. -/
theorem Adds.patch {jump : Nat} {old : Instr}
    (h : Adds params e e₁ names literals (fun l => before l ++ (old :: after l)))
    (here : ∀ l : Layout, l.Reads params e₁ → jump = e.code.size + (before l).length)
    (target : Nat)
    : Adds params e (e₁.patch jump target) names literals
        (fun l => before l ++ (old.aimedAt target :: after l)) := by
  refine ⟨h.names, h.consts, ?_, h.names_le, h.consts_le⟩
  intro l reads
  have reads₁ : l.Reads params e₁ := reads.of_tables rfl rfl
  have position : jump = (e.code.toList ++ before l).length := by
    simpa using here l reads₁
  rw [toList_patch, h.code l reads₁, ← List.append_assoc, position, modify_length_append,
    List.append_assoc]

@[simp] theorem size_patch (e : Emission) (jump target : Nat)
    : (e.patch jump target).code.size = e.code.size := by
  simp [patch]

theorem here_eq_ok_iff {range : ByteRange} {target : Nat}
    : e.here range = .ok target ↔ e.code.size < targetLimit ∧ target = e.code.size := by
  unfold here
  split
  · next fits => simp [fits, eq_comm]
  · next full => simp [full]

theorem patchHere_eq_ok_iff {range : ByteRange} {jump : Nat}
    : e.patchHere jump range = .ok e₁
      ↔ e.code.size < targetLimit ∧ e₁ = e.patch jump e.code.size := by
  unfold patchHere
  split
  · next fault full =>
    refine iff_of_false (fun h => nomatch h) ?_
    rintro ⟨fits, _⟩
    rw [here_eq_ok_iff.mpr ⟨fits, rfl⟩] at full
    cases full
  · next target fits =>
    obtain ⟨below, rfl⟩ := here_eq_ok_iff.mp fits
    simp [below, eq_comm]

end Jumps

-----------------------------------------------------------------------------------------
-- Branches, put together from the code of their parts
-----------------------------------------------------------------------------------------

section Branches

variable {params : List String} {e e₁ e₂ e₃ : Emission}
variable {names₁ names₂ names₃ : List String} {literals₁ literals₂ literals₃ : List Literal}
variable {code₁ code₂ code₃ : Layout → List Instr}

/-- The body of a branch starts behind its test and the conditional jump. -/
theorem Adds.start_body (test : Adds params e e₁ names₁ literals₁ code₁)
    (body : Adds params (e₁.emit (.jumpIfFalse e₁.code.size)) e₂ names₂ literals₂ code₂)
    {l : Layout} (reads : l.Reads params e₂)
    : (e₁.emit (.jumpIfFalse e₁.code.size)).code.size
      = e.code.size + (code₁ l).length + 1 := by
  have before := test.size_code (((adds_emit params e₁ _).trans body).reads reads)
  simp [emit, before]

/-- The body of a branch ends where its code does. -/
theorem Adds.end_body (test : Adds params e e₁ names₁ literals₁ code₁)
    (body : Adds params (e₁.emit (.jumpIfFalse e₁.code.size)) e₂ names₂ literals₂ code₂)
    {l : Layout} (reads : l.Reads params e₂)
    : e₂.code.size = e.code.size + (code₁ l).length + 1 + (code₂ l).length := by
  rw [body.size_code reads, test.start_body body reads]

/-- A branch without alternative jumps behind its body, once the jump is filled in. -/
theorem Adds.branch (test : Adds params e e₁ names₁ literals₁ code₁)
    (body : Adds params (e₁.emit (.jumpIfFalse e₁.code.size)) e₂ names₂ literals₂ code₂)
    : Adds params e (e₂.patch e₁.code.size e₂.code.size) (names₁ ++ names₂)
        (literals₁ ++ literals₂)
        (fun l =>
          code₁ l
          ++ (.jumpIfFalse (e.code.size + (code₁ l).length + 1 + (code₂ l).length)
            :: code₂ l)) := by
  have whole := test.trans ((adds_emit params e₁ (.jumpIfFalse e₁.code.size)).trans body)
  have here : ∀ l : Layout, l.Reads params e₂ → e₁.code.size = e.code.size + (code₁ l).length :=
    fun l reads => test.size_code (((adds_emit params e₁ _).trans body).reads reads)
  refine (whole.patch here e₂.code.size).congr_code ?_
  intro l reads
  rw [test.end_body body (reads.of_tables rfl rfl)]
  rfl

/-- A branch with an alternative jumps behind the jump at the end of its body, which leads
behind the alternative, once both jumps are filled in.
-/
theorem Adds.branch_else (test : Adds params e e₁ names₁ literals₁ code₁)
    (body : Adds params (e₁.emit (.jumpIfFalse e₁.code.size)) e₂ names₂ literals₂ code₂)
    (other : Adds params
      ((e₂.emit (.jump e₂.code.size)).patch e₁.code.size (e₂.code.size + 1)) e₃ names₃
      literals₃ code₃)
    : Adds params e (e₃.patch e₂.code.size e₃.code.size) (names₁ ++ (names₂ ++ names₃))
        (literals₁ ++ (literals₂ ++ literals₃))
        (fun l =>
          let afterThen := e.code.size + (code₁ l).length + 1 + (code₂ l).length
          code₁ l
          ++ (.jumpIfFalse (afterThen + 1)
            :: (code₂ l ++ (.jump (afterThen + 1 + (code₃ l).length) :: code₃ l)))) := by
  -- The conditional jump leads behind the jump that ends the body, so it is filled in
  -- before the alternative is emitted; that jump is filled in at the very end.
  have toBody := test.trans ((adds_emit params e₁ (.jumpIfFalse e₁.code.size)).trans body)
  have toJump := toBody.trans (adds_emit params e₂ (.jump e₂.code.size))
  have regrouped : Adds params e (e₂.emit (.jump e₂.code.size)) (names₁ ++ names₂)
      (literals₁ ++ literals₂)
      (fun l => code₁ l ++ (.jumpIfFalse e₁.code.size :: (code₂ l ++ [.jump e₂.code.size]))) := by
    simpa using toJump
  have reads₂ {l : Layout} (reads : l.Reads params (e₂.emit (.jump e₂.code.size)))
      : l.Reads params e₂ := reads.of_tables rfl rfl
  have here : ∀ l : Layout, l.Reads params (e₂.emit (.jump e₂.code.size))
      → e₁.code.size = e.code.size + (code₁ l).length :=
    fun l reads => test.size_code (((adds_emit params e₁ _).trans body).reads (reads₂ reads))
  have toElse := (regrouped.patch here (e₂.code.size + 1)).trans other
  -- Emission knows positions only; in the code they are sums of the lengths in front.
  have behindBody {l : Layout} (reads : l.Reads params e₃)
      : e₂.code.size = e.code.size + (code₁ l).length + 1 + (code₂ l).length := by
    have early := other.reads reads
    exact test.end_body body (early.of_tables rfl rfl)
  have split : Adds params e e₃ ((names₁ ++ names₂) ++ names₃)
      ((literals₁ ++ literals₂) ++ literals₃)
      (fun l =>
        (code₁ l ++ (.jumpIfFalse (e₂.code.size + 1) :: code₂ l))
        ++ (.jump e₂.code.size :: code₃ l)) := by
    simpa [Instr.aimedAt] using toElse
  have there : ∀ l : Layout, l.Reads params e₃
      → e₂.code.size
        = e.code.size + (code₁ l ++ (.jumpIfFalse (e₂.code.size + 1) :: code₂ l)).length := by
    intro l reads
    have position := behindBody reads
    simp only [List.length_append, List.length_cons]
    omega
  have whole := split.patch there e₃.code.size
  rw [List.append_assoc, List.append_assoc] at whole
  refine whole.congr_code ?_
  intro l reads
  have late : l.Reads params e₃ := reads.of_tables rfl rfl
  have size := other.size_code late
  rw [size_patch] at size
  have end_eq : e₃.code.size = e₂.code.size + 1 + (code₃ l).length := by
    simpa [emit] using size
  rw [end_eq, behindBody late]
  simp [Instr.aimedAt]

end Branches

-----------------------------------------------------------------------------------------
-- Positions in the tables, which are given as long as there is room
-----------------------------------------------------------------------------------------

section Tables

variable {params : List String} {e e' : Emission} {range : ByteRange}

theorem operand_eq_ok_iff {n i : Nat} {table : Table}
    : operand n table range = .ok i ↔ n < operandLimit ∧ i = n := by
  unfold operand
  split
  · next fits => simp [fits, eq_comm]
  · next full => simp [full]

section Push

variable {α : Type} [DecidableEq α] [Hashable α] {r : Roster (id : α → α)} {a : α}

/-- A new entry of a table that has room is the last one. -/
theorem push_spec (fresh : r.position? a = none) (room : r.size < operandLimit)
    : (r.push a fresh).toList = enterAll r.toList [a]
      ∧ r.size = (r.push a fresh).toList.idxOf a
      ∧ (r.push a fresh).toList.length ≤ operandLimit := by
  have absent := Roster.position?_eq_none_iff_not_mem.mp fresh
  have pushed : (r.push a fresh).toList = r.toList ++ [a] := Roster.toList_push r a fresh
  refine ⟨?_, ?_, ?_⟩
  · rw [enterAll_cons, if_neg absent, enterAll_nil, pushed]
  · rw [pushed, List.idxOf_append_of_notMem absent, List.idxOf_cons_self, Nat.add_zero,
      Roster.length_toList]
  · rw [pushed, List.length_append, Roster.length_toList]
    exact Nat.succ_le_of_lt room

/-- A table that is not too large with a new entry has room for it. -/
theorem size_lt_of_fits (fresh : r.position? a = none)
    (fits : (enterAll r.toList [a]).length ≤ operandLimit)
    : r.size < operandLimit := by
  have absent := Roster.position?_eq_none_iff_not_mem.mp fresh
  rw [enterAll_cons, if_neg absent, enterAll_nil, List.length_append, List.length_singleton,
    Roster.length_toList] at fits
  exact fits

end Push

/-- A name gets the position that it has in the table afterwards. -/
theorem namePosition_spec {name : String} {i : Nat}
    (h : e.namePosition name range = .ok (i, e'))
    : e'.names.toList = enterAll e.names.toList [name]
      ∧ e'.consts = e.consts
      ∧ e'.code = e.code
      ∧ i = e'.names.toList.idxOf name
      ∧ (e.names.toList.length ≤ operandLimit → e'.names.toList.length ≤ operandLimit) := by
  unfold namePosition at h
  split at h
  · next found =>
    obtain ⟨present, position⟩ := Roster.position?_eq_some_iff_idxOf.mp found
    cases h
    refine ⟨?_, rfl, rfl, position, id⟩
    rw [enterAll_of_subset (by simpa using present)]
  · next fresh =>
    dsimp only at h
    split at h
    · cases h
    · next i fits =>
      obtain ⟨room, rfl⟩ := operand_eq_ok_iff.mp fits
      cases h
      obtain ⟨entered, last, fits⟩ := push_spec fresh room
      exact ⟨entered, rfl, rfl, last, fun _ => fits⟩

/-- A name has a position if the table is not too large with it. -/
theorem namePosition_succeeds (range : ByteRange) {name : String}
    (fits : (enterAll e.names.toList [name]).length ≤ operandLimit)
    : ∃ i e', e.namePosition name range = .ok (i, e') := by
  unfold namePosition
  split
  · next i _ => exact ⟨i, e, rfl⟩
  · next fresh =>
    simp only [operand_eq_ok_iff.mpr ⟨size_lt_of_fits fresh fits, rfl⟩]
    exact ⟨_, _, rfl⟩

/-- A constant gets the position that it has in the table afterwards. -/
theorem constPosition_spec {value : Literal} {i : Nat}
    (h : e.constPosition value range = .ok (i, e'))
    : e'.consts.toList = enterAll e.consts.toList [value]
      ∧ e'.names = e.names
      ∧ e'.code = e.code
      ∧ i = e'.consts.toList.idxOf value
      ∧ (e.consts.toList.length ≤ operandLimit → e'.consts.toList.length ≤ operandLimit) := by
  unfold constPosition at h
  split at h
  · next found =>
    obtain ⟨present, position⟩ := Roster.position?_eq_some_iff_idxOf.mp found
    split at h
    · cases h
    · next i fits =>
      obtain ⟨_, rfl⟩ := operand_eq_ok_iff.mp fits
      cases h
      refine ⟨?_, rfl, rfl, position, id⟩
      rw [enterAll_of_subset (by simpa using present)]
  · next fresh =>
    dsimp only at h
    split at h
    · cases h
    · next i fits =>
      obtain ⟨room, rfl⟩ := operand_eq_ok_iff.mp fits
      cases h
      obtain ⟨entered, last, fits⟩ := push_spec fresh room
      exact ⟨entered, rfl, rfl, last, fun _ => fits⟩

/-- A constant has a position if the table is not too large with it. -/
theorem constPosition_succeeds (range : ByteRange) {value : Literal}
    (fits : (enterAll e.consts.toList [value]).length ≤ operandLimit)
    : ∃ i e', e.constPosition value range = .ok (i, e') := by
  unfold constPosition
  split
  · next i found =>
    obtain ⟨present, position⟩ := Roster.position?_eq_some_iff_idxOf.mp found
    rw [enterAll_of_subset (by simpa using present)] at fits
    have room : i < operandLimit :=
      Nat.lt_of_lt_of_le (position ▸ List.idxOf_lt_length_of_mem present) fits
    simp only [operand_eq_ok_iff.mpr ⟨room, rfl⟩]
    exact ⟨_, _, rfl⟩
  · next fresh =>
    simp only [operand_eq_ok_iff.mpr ⟨size_lt_of_fits fresh fits, rfl⟩]
    exact ⟨_, _, rfl⟩

/-- The tables are not too large for positions when names and constants are entered. -/
structure Fits (e : Emission) (names : List String) (literals : List Literal) : Prop where
  names : (enterAll e.names.toList names).length ≤ operandLimit
  consts : (enterAll e.consts.toList literals).length ≤ operandLimit

theorem Fits.left {names more : List String} {literals others : List Literal}
    (fits : e.Fits (names ++ more) (literals ++ others))
    : e.Fits names literals :=
  ⟨Nat.le_trans (length_enterAll_le _ names more) fits.names,
    Nat.le_trans (length_enterAll_le _ literals others) fits.consts⟩

/-- What is entered after a step fits into the tables that the step leaves. -/
theorem Fits.right {names more : List String} {literals others : List Literal}
    {code : Layout → List Instr} (fits : e.Fits (names ++ more) (literals ++ others))
    (adds : Adds params e e' names literals code)
    : e'.Fits more others := by
  refine ⟨?_, ?_⟩
  · rw [adds.names, ← enterAll_append]
    exact fits.names
  · rw [adds.consts, ← enterAll_append]
    exact fits.consts

/-- An instruction about a name enters the name and refers to its position. -/
theorem adds_emitWithName {instr : Nat → Instr} {name : String}
    (h : e.emitWithName instr name range = .ok e')
    : Adds params e e' [name] [] (fun l => [instr (l.name name)]) := by
  unfold emitWithName at h
  split at h
  · cases h
  · next i e₁ positioned =>
    cases h
    obtain ⟨names, consts, code, position, names_le⟩ := namePosition_spec positioned
    refine ⟨names, congrArg Roster.toList consts, ?_, names_le, consts ▸ id⟩
    intro l reads
    have present : name ∈ e₁.names.toList := names ▸ mem_enterAll.mpr (Or.inr (by simp))
    have l_position : l.name name = i := by
      rw [position]
      exact reads.name name present
    simp [emit, code, l_position]

theorem emitWithName_succeeds (instr : Nat → Instr) (range : ByteRange) {name : String}
    (fits : e.Fits [name] [])
    : ∃ e', e.emitWithName instr name range = .ok e' := by
  obtain ⟨i, e₁, positioned⟩ := namePosition_succeeds range fits.names
  exact ⟨e₁.emit (instr i), by simp only [emitWithName, positioned]⟩

/-- The load of a constant enters the constant and refers to its position. -/
theorem adds_emitConst {value : Literal} (h : e.emitConst value range = .ok e')
    : Adds params e e' [] [value] (fun l => [.loadConst (l.const value)]) := by
  unfold emitConst at h
  split at h
  · cases h
  · next i e₁ positioned =>
    cases h
    obtain ⟨consts, names, code, position, consts_le⟩ := constPosition_spec positioned
    refine ⟨congrArg Roster.toList names, consts, ?_, names ▸ id, consts_le⟩
    intro l reads
    have present : value ∈ e₁.consts.toList := consts ▸ mem_enterAll.mpr (Or.inr (by simp))
    have l_position : l.const value = i := by
      rw [position]
      exact reads.const value present
    simp [emit, code, l_position]

theorem emitConst_succeeds (range : ByteRange) {value : Literal} (fits : e.Fits [] [value])
    : ∃ e', e.emitConst value range = .ok e' := by
  obtain ⟨i, e₁, positioned⟩ := constPosition_succeeds range fits.consts
  exact ⟨e₁.emit (.loadConst i), by simp only [emitConst, positioned]⟩

theorem emitCount_eq_ok_iff {instr : Nat → Instr} {count : Nat} {table : Table}
    : e.emitCount instr count table range = .ok e'
      ↔ count < operandLimit ∧ e' = e.emit (instr count) := by
  unfold emitCount
  split
  · next fault full =>
    refine iff_of_false (fun h => nomatch h) ?_
    rintro ⟨fits, _⟩
    rw [operand_eq_ok_iff.mpr ⟨fits, rfl⟩] at full
    cases full
  · next n fits =>
    obtain ⟨below, rfl⟩ := operand_eq_ok_iff.mp fits
    simp [below, eq_comm]

end Tables

end Emission

end RecordSynth
