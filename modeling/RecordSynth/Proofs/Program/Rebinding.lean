import RecordSynth.Program.Binding
import RecordSynth.Proofs.Program.EmissionSteps
import RecordSynth.Proofs.Program.PlaceholderSpelling
import RecordSynth.Proofs.Program.Renaming

/-! Binding replaces placeholders by field names. It goes through exactly where the placeholders
of both tables are runs of the right length, and then renames each entry on its own.
-/

namespace RecordSynth

/-- No entry of the table is a placeholder. -/
def Plain (table : List String) : Prop :=
  ∀ name ∈ table, placeholderIndex? name = none

theorem plain_append {left right : List String}
    : Plain (left ++ right) ↔ Plain left ∧ Plain right := by
  simp only [Plain, List.mem_append, or_imp, forall_and]

theorem plain_cons {name : String} {rest : List String}
    : Plain (name :: rest) ↔ placeholderIndex? name = none ∧ Plain rest := by
  simp only [Plain, List.mem_cons, or_imp, forall_and, forall_eq]

/-- The placeholders of the table are the first `n`, side by side and in order. -/
def HoldsRun (table : List String) (n : Nat) : Prop :=
  ∃ before after,
    table = before ++ ((List.range n).map placeholder ++ after)
    ∧ Plain before ∧ Plain after ∧ n ≤ placeholderLimit

theorem HoldsRun.le {table : List String} {n : Nat} (holds : HoldsRun table n)
    : n ≤ placeholderLimit := by
  obtain ⟨_, _, _, _, _, within⟩ := holds
  exact within

theorem holdsRun_zero_iff {table : List String} : HoldsRun table 0 ↔ Plain table := by
  constructor
  · rintro ⟨before, after, rfl, plainBefore, plainAfter, _⟩
    exact plain_append.mpr ⟨plainBefore, plainAfter⟩
  · intro plain
    exact ⟨table, [], by simp, plain, nofun, Nat.zero_le _⟩

/-- What binding makes of an entry of a table: a placeholder becomes the field's name. -/
def boundName (fields : List String) (name : String) : String :=
  match placeholderIndex? name with
  | some index => fields.getD index name
  | none => name

theorem boundName_of_plain (fields : List String) {name : String}
    (plain : placeholderIndex? name = none)
    : boundName fields name = name := by
  simp [boundName, plain]

theorem boundName_placeholder {fields : List String} {index : Nat}
    (inFields : index < fields.length) (fits : index < placeholderLimit)
    : boundName fields (placeholder index) = fields[index] := by
  simp [boundName, placeholderIndex?_placeholder fits, List.getElem?_eq_getElem inFields]

/-- No placeholder is spelled like a function, so binding leaves all calls alone. -/
theorem keepsCallees_boundName (fields : List String)
    : Source.KeepsCallees (boundName fields) := by
  refine ⟨boundName_of_plain fields (by decide), boundName_of_plain fields (by decide), ?_⟩
  intro function
  refine boundName_of_plain fields ?_
  cases function <;> decide

theorem map_boundName_of_plain (fields : List String) {table : List String}
    (plain : Plain table)
    : table.map (boundName fields) = table := by
  rw [List.map_congr_left fun name member => boundName_of_plain fields (plain name member),
    List.map_id']

/-- The placeholders of all fields, each bound, are the fields. -/
theorem map_boundName_placeholders {fields : List String}
    (fits : fields.length ≤ placeholderLimit)
    : ((List.range fields.length).map placeholder).map (boundName fields) = fields := by
  refine List.ext_getElem (by simp) ?_
  intro index _ inFields
  simpa using boundName_placeholder inFields (Nat.lt_of_lt_of_le inFields fits)

namespace Program

-----------------------------------------------------------------------------------------
-- Looking for the run of a table finds it where it is
-----------------------------------------------------------------------------------------

section Runs

/-- The placeholders of a table whose first entry is at position `start`. -/
def placeholdersFrom (start : Nat) (table : List String) : List (Nat × Nat) :=
  (table.zipIdx start).filterMap fun (name, position) =>
    (placeholderIndex? name).map fun index => (position, index)

theorem placeholdersFrom_cons_none {start : Nat} {name : String} {rest : List String}
    (plain : placeholderIndex? name = none)
    : placeholdersFrom start (name :: rest) = placeholdersFrom (start + 1) rest := by
  simp [placeholdersFrom, plain]

theorem placeholdersFrom_cons_some {start index : Nat} {name : String} {rest : List String}
    (found : placeholderIndex? name = some index)
    : placeholdersFrom start (name :: rest)
      = (start, index) :: placeholdersFrom (start + 1) rest := by
  simp [placeholdersFrom, found]

/-- Plain entries in front only move what stands behind them. -/
theorem placeholdersFrom_append {start : Nat} {before rest : List String}
    (plain : Plain before)
    : placeholdersFrom start (before ++ rest)
      = placeholdersFrom (start + before.length) rest := by
  induction before generalizing start with
  | nil => rfl
  | cons name more ih =>
      obtain ⟨plainHead, plainRest⟩ := plain_cons.mp plain
      rw [List.cons_append, placeholdersFrom_cons_none plainHead, ih plainRest, List.length_cons]
      congr 1
      omega

theorem placeholdersFrom_eq_nil_iff {start : Nat} {table : List String}
    : placeholdersFrom start table = [] ↔ Plain table := by
  induction table generalizing start with
  | nil => exact iff_of_true rfl nofun
  | cons name rest ih =>
      rw [plain_cons]
      cases found : placeholderIndex? name with
      | none => rw [placeholdersFrom_cons_none found, ih]; simp
      | some index => rw [placeholdersFrom_cons_some found]; simp

/-- The first placeholder stands behind plain entries, by induction on the table. -/
theorem split_at_first {start position index : Nat} {table : List String}
    {more : List (Nat × Nat)} (h : placeholdersFrom start table = (position, index) :: more)
    : ∃ before rest, table = before ++ rest ∧ Plain before
        ∧ position = start + before.length
        ∧ placeholdersFrom position rest = (position, index) :: more := by
  induction table generalizing start with
  | nil => cases h
  | cons name rest ih =>
      cases found : placeholderIndex? name with
      | none =>
          rw [placeholdersFrom_cons_none found] at h
          obtain ⟨before, behind, rfl, plain, isPosition, same⟩ := ih h
          refine ⟨name :: before, behind, rfl, plain_cons.mpr ⟨found, plain⟩, ?_, same⟩
          rw [isPosition, List.length_cons]
          omega
      | some index' =>
          have first := h
          rw [placeholdersFrom_cons_some found] at first
          obtain ⟨rfl, rfl⟩ := Prod.mk.inj (List.cons.inj first).1
          exact ⟨[], name :: rest, rfl, nofun, rfl, h⟩

theorem le_of_mem_placeholdersFrom {start position index : Nat} {table : List String}
    (member : (position, index) ∈ placeholdersFrom start table)
    : start ≤ position := by
  obtain ⟨⟨name, place⟩, inTable, found⟩ := List.mem_filterMap.mp member
  obtain ⟨_, _, same⟩ := Option.map_eq_some_iff.mp found
  obtain ⟨rfl, _⟩ := Prod.mk.inj same
  exact List.le_snd_of_mem_zipIdx inTable

/-- Placeholders make up a run exactly if they stand at the front of the table, in order and
without others behind them, by induction on the table.
-/
theorem isRunFrom_iff {start offset : Nat} {table : List String}
    (fits : offset ≤ placeholderLimit)
    : isRunFrom start offset (placeholdersFrom (start + offset) table) = true
      ↔ ∃ after, table = (List.range' offset
            (placeholdersFrom (start + offset) table).length).map placeholder ++ after
        ∧ Plain after
        ∧ offset + (placeholdersFrom (start + offset) table).length ≤ placeholderLimit := by
  induction table generalizing offset with
  | nil => exact iff_of_true rfl ⟨[], rfl, nofun, fits⟩
  | cons name rest ih =>
      cases found : placeholderIndex? name with
      | none =>
          rw [placeholdersFrom_cons_none found]
          cases others : placeholdersFrom (start + offset + 1) rest with
          | nil =>
              have plain := placeholdersFrom_eq_nil_iff.mp others
              exact iff_of_true rfl ⟨name :: rest, rfl, plain_cons.mpr ⟨found, plain⟩, fits⟩
          | cons first more =>
              obtain ⟨position, index⟩ := first
              have later := le_of_mem_placeholdersFrom (others ▸ List.mem_cons_self)
              -- A later placeholder is no run here, since the first entry is none.
              refine iff_of_false ?_ ?_
              · simp only [isRunFrom, Bool.and_eq_true, beq_iff_eq]
                omega
              · rintro ⟨after, whole, _, within⟩
                rw [List.length_cons] at whole within
                have isFirst : name = placeholder offset := (List.cons.inj whole).1
                rw [isFirst, placeholderIndex?_placeholder (by omega)] at found
                cases found
      | some index =>
          obtain ⟨isIndex, index_lt⟩ := placeholderIndex?_eq_some_iff.mp found
          -- The entry is the placeholder of the offset or no run starts here; the rest is a run
          -- from the next offset.
          rw [placeholdersFrom_cons_some found, List.length_cons, List.range'_succ, List.map_cons]
          simp only [isRunFrom, beq_self_eq_true, Bool.true_and, Bool.and_eq_true, beq_iff_eq,
            List.cons_append, List.cons.injEq]
          constructor
          · rintro ⟨rfl, isRun⟩
            have others := @ih (index + 1) (Nat.succ_le_of_lt index_lt)
            rw [← Nat.add_assoc start index 1] at others
            obtain ⟨after, whole, plain, within⟩ := others.mp isRun
            exact ⟨after, ⟨isIndex, whole⟩, plain, by omega⟩
          · rintro ⟨after, ⟨isFirst, whole⟩, plain, within⟩
            have offset_lt : offset < placeholderLimit := by omega
            have others := @ih (offset + 1) (Nat.succ_le_of_lt offset_lt)
            rw [← Nat.add_assoc start offset 1] at others
            rw [isFirst, placeholderIndex?_placeholder offset_lt] at found
            obtain rfl := Option.some.inj found
            exact ⟨rfl, others.mpr ⟨after, whole, plain, by omega⟩⟩

/-- One of the two tables of names. -/
def table (p : Program) : NameTable → List String
  | .names => p.names.toList
  | .params => p.params.toList

/-- Where the run of a table is: nowhere, if the table is plain. -/
def RunAt (table : List String) : Option Run → Prop
  | none => Plain table
  | some run => 0 < run.length ∧ run.length ≤ placeholderLimit ∧ ∃ before after,
      table = before ++ ((List.range run.length).map placeholder ++ after)
      ∧ before.length = run.start ∧ Plain before ∧ Plain after

theorem placeholderRun_eq (p : Program) (which : NameTable)
    : p.placeholderRun which
      = match placeholdersFrom 0 (p.table which) with
        | [] => .ok none
        | (start, index) :: rest =>
          if isRunFrom start 0 ((start, index) :: rest) then .ok (some ⟨start, rest.length + 1⟩)
          else .error (.placeholderRun p.name which) := by
  cases which <;> rfl

/-- Looking for the run of a table finds where it is. -/
theorem runAt_of_placeholderRun {p : Program} {which : NameTable} {run : Option Run}
    (h : p.placeholderRun which = .ok run)
    : RunAt (p.table which) run := by
  rw [placeholderRun_eq] at h
  split at h
  · next none =>
    cases h
    exact placeholdersFrom_eq_nil_iff.mp none
  · next start index rest found =>
    split at h
    · next isRun =>
      cases h
      obtain ⟨before, behind, whole, plain, isStart, same⟩ := split_at_first found
      rw [Nat.zero_add] at isStart
      have isRun' : isRunFrom start 0 (placeholdersFrom (start + 0) behind) = true := by
        rw [Nat.add_zero, same]
        exact isRun
      obtain ⟨after, isTable, plainAfter, within⟩ :=
        (isRunFrom_iff (Nat.zero_le _)).mp isRun'
      rw [Nat.add_zero, same, List.length_cons] at isTable within
      rw [Nat.zero_add] at within
      refine ⟨Nat.succ_pos _, within, before, after, ?_, isStart.symm, plain, plainAfter⟩
      rw [whole, List.range_eq_range']
      exact congrArg (before ++ ·) isTable
    · cases h

/-- As many placeholders are found as there are in a run, by induction on its length. -/
theorem length_placeholdersFrom {start offset n : Nat} {after : List String}
    (plain : Plain after) (fits : offset + n ≤ placeholderLimit)
    : (placeholdersFrom start ((List.range' offset n).map placeholder ++ after)).length = n := by
  induction n generalizing start offset with
  | zero => simpa using placeholdersFrom_eq_nil_iff.mpr plain
  | succ n ih =>
      have found := placeholderIndex?_placeholder (show offset < placeholderLimit by omega)
      rw [List.range'_succ, List.map_cons, List.cons_append, placeholdersFrom_cons_some found,
        List.length_cons, ih (by omega)]

/-- The run of a table is found where it is. -/
theorem placeholderRun_of_runAt {p : Program} {which : NameTable} {run : Option Run}
    (h : RunAt (p.table which) run)
    : p.placeholderRun which = .ok run := by
  rw [placeholderRun_eq]
  cases run with
  | none => rw [placeholdersFrom_eq_nil_iff.mpr h]
  | some run =>
      obtain ⟨start, length⟩ := run
      obtain ⟨positive, within, before, after, whole, isStart, plainBefore, plainAfter⟩ := h
      dsimp only at positive within whole isStart
      subst isStart
      rw [List.range_eq_range'] at whole
      rw [whole, placeholdersFrom_append plainBefore, Nat.zero_add]
      have within' : 0 + length ≤ placeholderLimit := by omega
      have count := @length_placeholdersFrom before.length 0 length after plainAfter within'
      have run_iff := @isRunFrom_iff before.length 0
        ((List.range' 0 length).map placeholder ++ after) (Nat.zero_le _)
      rw [Nat.add_zero, count] at run_iff
      have isRun := run_iff.mpr ⟨after, rfl, plainAfter, within'⟩
      split
      · next none =>
        rw [none, List.length_nil] at count
        omega
      · next position index rest found =>
        rw [found] at count isRun
        have isPosition : position = before.length := by
          simp only [isRunFrom, Bool.and_eq_true, beq_iff_eq, Nat.add_zero] at isRun
          exact isRun.1.1
        subst isPosition
        rw [if_pos isRun, ← count, List.length_cons]

theorem placeholderRun_eq_ok_iff {p : Program} {which : NameTable} {run : Option Run}
    : p.placeholderRun which = .ok run ↔ RunAt (p.table which) run :=
  ⟨runAt_of_placeholderRun, placeholderRun_of_runAt⟩

/-- A table holds a run of some length where it is anywhere. -/
theorem holdsRun_iff {table : List String} {n : Nat}
    : HoldsRun table n ↔ ∃ run, RunAt table run ∧ runLength run = n := by
  constructor
  · intro holds
    rcases Nat.eq_zero_or_pos n with rfl | positive
    · exact ⟨none, holdsRun_zero_iff.mp holds, rfl⟩
    · obtain ⟨before, after, whole, plainBefore, plainAfter, within⟩ := holds
      exact ⟨some ⟨before.length, n⟩,
        ⟨positive, within, before, after, whole, rfl, plainBefore, plainAfter⟩, rfl⟩
  · rintro ⟨run, runAt, rfl⟩
    cases run with
    | none => exact holdsRun_zero_iff.mpr runAt
    | some run =>
        obtain ⟨_, within, before, after, whole, _, plainBefore, plainAfter⟩ := runAt
        exact ⟨before, after, whole, plainBefore, plainAfter, within⟩

/-- A program binds as many fields as the run of its names is long. -/
theorem arity_eq_ok_iff {p : Program} {n : Nat}
    : p.arity = .ok n ↔ HoldsRun (p.table .names) n := by
  rw [holdsRun_iff, arity]
  constructor
  · intro h
    cases found : p.placeholderRun .names with
    | error error =>
        rw [found] at h
        cases h
    | ok run =>
        rw [found] at h
        exact ⟨run, placeholderRun_eq_ok_iff.mp found, Except.ok.inj h⟩
  · rintro ⟨run, runAt, rfl⟩
    rw [placeholderRun_eq_ok_iff.mpr runAt]
    rfl

theorem eq_of_placeholderRun_error {p : Program} {which : NameTable} {error : BindError}
    (h : p.placeholderRun which = .error error)
    : error = .placeholderRun p.name which := by
  rw [placeholderRun_eq] at h
  split at h
  · cases h
  · split at h
    · cases h
    · exact (Except.error.inj h).symm

end Runs

-----------------------------------------------------------------------------------------
-- Binding renames each entry on its own
-----------------------------------------------------------------------------------------

section Bind

/-- Fields take the place of as many entries, by induction on the fields. -/
theorem toList_overwrite {table : Array String} {before middle after fields : List String}
    (whole : table.toList = before ++ (middle ++ after))
    (same : middle.length = fields.length)
    : (overwrite table before.length fields).toList = before ++ (fields ++ after) := by
  induction fields generalizing table before middle with
  | nil =>
      obtain rfl := List.length_eq_zero_iff.mp same
      exact whole
  | cons field rest ih =>
      cases middle with
      | nil => cases same
      | cons old more =>
          have written : (table.setIfInBounds before.length field).toList
              = (before ++ [field]) ++ (more ++ after) := by
            rw [Array.toList_setIfInBounds, whole]
            simp
          have shifted := ih written (Nat.succ.inj same)
          rw [List.length_append] at shifted
          rw [overwrite]
          simpa using shifted

/-- A table with fields in the place of its run is the table with each entry bound. -/
theorem rebind_eq_map {table : Array String} {run : Option Run} {fields : List String}
    (runAt : RunAt table.toList run) (same : run.isSome → runLength run = fields.length)
    : rebind table run fields = table.map (boundName fields) := by
  rw [← Array.toList_inj, Array.toList_map]
  cases run with
  | none => exact (map_boundName_of_plain fields runAt).symm
  | some run =>
      obtain ⟨start, length⟩ := run
      obtain ⟨_, within, before, after, whole, isStart, plainBefore, plainAfter⟩ := runAt
      have isLength : length = fields.length := same rfl
      dsimp only at within whole isStart
      subst isStart isLength
      have overwritten : (overwrite table before.length fields).toList
          = before ++ (fields ++ after) :=
        toList_overwrite whole (by simp)
      rw [rebind, overwritten, whole, List.map_append, List.map_append,
        map_boundName_of_plain fields plainBefore, map_boundName_of_plain fields plainAfter,
        map_boundName_placeholders within]

/-- New names are entered where the tables keep their sizes. -/
theorem replaceNames_map (p : Program) (f : String → String)
    : p.replaceNames (p.names.map f) (p.params.map f) = .ok (p.renamed f) := by
  simp [replaceNames, renamed]

/-- The checks of binding, in order. -/
theorem bind_eq (p : Program) (fields : List String)
    : p.bind fields
      = match p.placeholderRun .names with
        | .error error => .error error
        | .ok namesRun =>
          if fields.length ≠ runLength namesRun then
            .error (.fieldCount p.name (runLength namesRun) fields.length)
          else
            match p.placeholderRun .params with
            | .error error => .error error
            | .ok paramsRun =>
              if paramsRun.isSome && runLength paramsRun ≠ runLength namesRun then
                .error (.placeholderRun p.name .params)
              else
                (p.replaceNames (rebind p.names namesRun fields)
                  (rebind p.params paramsRun fields)).mapError .mismatch := by
  unfold bind
  cases p.placeholderRun .names with
  | error error => rfl
  | ok namesRun =>
      simp only [Bind.bind, Except.bind]
      split
      · rfl
      · cases p.placeholderRun .params with
        | error error => rfl
        | ok paramsRun =>
            dsimp only
            split <;> rfl

/-- Binding, once it is known where the runs of both tables are. -/
theorem bind_of_runs {p : Program} {fields : List String} {namesRun paramsRun : Option Run}
    (namesAt : RunAt (p.table .names) namesRun) (paramsAt : RunAt (p.table .params) paramsRun)
    (length : fields.length = runLength namesRun)
    (paramsLength : paramsRun.isSome → runLength paramsRun = fields.length)
    : p.bind fields = .ok (p.renamed (boundName fields)) := by
  have noMismatch : ¬(paramsRun.isSome && decide (runLength paramsRun ≠ runLength namesRun))
      = true := by
    rw [← length]
    cases paramsRun with
    | none => exact nofun
    | some run => simpa using paramsLength rfl
  have namesBound := rebind_eq_map namesAt (fun _ => length.symm)
  have paramsBound := rebind_eq_map paramsAt paramsLength
  rw [bind_eq, placeholderRun_eq_ok_iff.mpr namesAt, placeholderRun_eq_ok_iff.mpr paramsAt]
  dsimp only
  rw [if_neg (not_not.mpr length), if_neg noMismatch, namesBound, paramsBound, replaceNames_map]
  rfl

/-- Binding goes through exactly if the names hold a run as long as the fields and the
parameters hold none or one as long, and then each entry of the two tables is bound.
-/
theorem bind_eq_ok_iff {p q : Program} {fields : List String}
    : p.bind fields = .ok q
      ↔ HoldsRun (p.table .names) fields.length
        ∧ (HoldsRun (p.table .params) 0 ∨ HoldsRun (p.table .params) fields.length)
        ∧ q = p.renamed (boundName fields) := by
  constructor
  · intro h
    rw [bind_eq] at h
    split at h
    · cases h
    next namesRun namesFound =>
    split at h
    · cases h
    next length =>
    rw [not_not] at length
    split at h
    · cases h
    next paramsRun paramsFound =>
    split at h
    · cases h
    next noMismatch =>
    -- All checks have passed; what they found are the runs of the two tables.
    have namesAt := placeholderRun_eq_ok_iff.mp namesFound
    have paramsAt := placeholderRun_eq_ok_iff.mp paramsFound
    have paramsLength : paramsRun.isSome → runLength paramsRun = fields.length := by
      intro isSome
      simpa [isSome, ← length] using noMismatch
    have namesBound := rebind_eq_map namesAt (fun _ => length.symm)
    have paramsBound := rebind_eq_map paramsAt paramsLength
    rw [namesBound, paramsBound, replaceNames_map] at h
    cases h
    refine ⟨holdsRun_iff.mpr ⟨namesRun, namesAt, length.symm⟩, ?_, rfl⟩
    cases paramsRun with
    | none => exact Or.inl (holdsRun_iff.mpr ⟨none, paramsAt, rfl⟩)
    | some run => exact Or.inr (holdsRun_iff.mpr ⟨some run, paramsAt, paramsLength rfl⟩)
  · rintro ⟨namesHold, paramsHold, rfl⟩
    obtain ⟨namesRun, namesAt, length⟩ := holdsRun_iff.mp namesHold
    rcases paramsHold with plain | paramsHold
    · have paramsAt : RunAt (p.table .params) none := holdsRun_zero_iff.mp plain
      exact bind_of_runs namesAt paramsAt length.symm nofun
    · obtain ⟨paramsRun, paramsAt, paramsLength⟩ := holdsRun_iff.mp paramsHold
      exact bind_of_runs namesAt paramsAt length.symm (fun _ => paramsLength)

/-- With a run in the names that is as long as the fields, only the parameters stand in the way.
-/
theorem bind_eq_error {p : Program} {fields : List String}
    (namesHold : HoldsRun (p.table .names) fields.length)
    (paramsFail : ¬(HoldsRun (p.table .params) 0 ∨ HoldsRun (p.table .params) fields.length))
    : p.bind fields = .error (.placeholderRun p.name .params) := by
  obtain ⟨namesRun, namesAt, length⟩ := holdsRun_iff.mp namesHold
  rw [bind_eq, placeholderRun_eq_ok_iff.mpr namesAt]
  dsimp only
  rw [if_neg (not_not.mpr length.symm)]
  cases found : p.placeholderRun .params with
  | error error =>
      dsimp only
      rw [eq_of_placeholderRun_error found]
  | ok paramsRun =>
      have paramsAt := placeholderRun_eq_ok_iff.mp found
      have other : runLength paramsRun ≠ fields.length :=
        fun same => paramsFail (Or.inr (holdsRun_iff.mpr ⟨paramsRun, paramsAt, same⟩))
      cases paramsRun with
      | none => exact absurd (Or.inl (holdsRun_zero_iff.mpr paramsAt)) paramsFail
      | some run => exact if_pos (by simpa [length] using other)

end Bind

end Program

end RecordSynth
