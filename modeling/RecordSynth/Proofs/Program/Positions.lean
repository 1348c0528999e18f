import RecordSynth.Proofs.Program.Rebinding

/-! Binding as a rewrite of positions. It asks where the placeholders of the two tables stand, entry
by entry, and then changes these entries and nothing else.
-/

namespace RecordSynth

/-- The placeholders in the table are those of the first `n` indices, one for each index. They stand
side by side, in the order of their indices.
-/
def PlacesRun (table : List String) (n : Nat) : Prop :=
  n ≤ placeholderLimit
  ∧ ∃ start, ∀ position index : Nat, index < placeholderLimit →
    (table[position]? = some (placeholder index) ↔ index < n ∧ position = start + index)

-----------------------------------------------------------------------------------------
-- Runs by position
-----------------------------------------------------------------------------------------

/-- A plain table has no placeholder at any position. -/
theorem plain_iff_getElem? {table : List String}
    : Plain table
      ↔ ∀ position index : Nat, index < placeholderLimit →
        table[position]? ≠ some (placeholder index) := by
  constructor
  · intro plain position index fits found
    have none := plain _ (List.mem_of_getElem? found)
    rw [placeholderIndex?_placeholder fits] at none
    cases none
  · intro free name member
    cases found : placeholderIndex? name with
    | none => rfl
    | some index =>
        obtain ⟨rfl, fits⟩ := placeholderIndex?_eq_some_iff.mp found
        obtain ⟨position, isName⟩ := List.mem_iff_getElem?.mp member
        exact absurd isName (free position index fits)

/-- A run has its placeholders at its positions. -/
theorem HoldsRun.placesRun {table : List String} {n : Nat} (holds : HoldsRun table n)
    : PlacesRun table n := by
  obtain ⟨before, after, rfl, plainBefore, plainAfter, within⟩ := holds
  rw [plain_iff_getElem?] at plainBefore plainAfter
  refine ⟨within, before.length, fun position index fits => ?_⟩
  rcases Nat.lt_or_ge position before.length with inFront | behind
  · rw [List.getElem?_append_left inFront]
    refine iff_of_false (plainBefore position index fits) ?_
    omega
  obtain ⟨offset, rfl⟩ := Nat.exists_eq_add_of_le behind
  rw [List.getElem?_append_right behind, Nat.add_sub_cancel_left, Nat.add_left_cancel_iff]
  rcases Nat.lt_or_ge offset n with inRun | beyond
  · rw [List.getElem?_append_left (by simpa using inRun), List.getElem?_map,
      List.getElem?_range inRun, Option.map_some, Option.some.injEq,
      placeholder_eq_iff (Nat.lt_of_lt_of_le inRun within) fits]
    omega
  · rw [List.getElem?_append_right (by simpa using beyond)]
    refine iff_of_false (plainAfter _ index fits) ?_
    omega

/-- Placeholders at the positions of a run cut the table into the run and plain parts around it. -/
theorem PlacesRun.holdsRun {table : List String} {n : Nat} (places : PlacesRun table n)
    : HoldsRun table n := by
  obtain ⟨within, start, at_iff⟩ := places
  have inRun {index : Nat} (below : index < n)
      : table[start + index]? = some (placeholder index) :=
    (at_iff _ index (Nat.lt_of_lt_of_le below within)).mpr ⟨below, rfl⟩
  have covered : n = 0 ∨ start + n ≤ table.length := by
    rcases Nat.eq_zero_or_pos n with none | positive
    · exact Or.inl none
    · have last := inRun (Nat.sub_lt positive Nat.one_pos)
      obtain ⟨inTable, -⟩ := List.getElem?_eq_some_iff.mp last
      omega
  have middle : (table.drop start).take n = (List.range n).map placeholder := by
    refine List.ext_getElem? fun index => ?_
    rcases Nat.lt_or_ge index n with below | beyond
    · rw [List.getElem?_take_of_lt below, List.getElem?_drop, inRun below, List.getElem?_map,
        List.getElem?_range below, Option.map_some]
    · rw [List.getElem?_eq_none (by simp; omega), List.getElem?_eq_none (by simpa using beyond)]
  refine ⟨table.take start, table.drop (start + n), ?_, ?_, ?_, within⟩
  · rw [← middle, ← List.drop_drop, List.take_append_drop, List.take_append_drop]
  · refine plain_iff_getElem?.mpr fun position index fits found => ?_
    rw [List.getElem?_take] at found
    split at found
    · obtain ⟨-, isPosition⟩ := (at_iff position index fits).mp found
      omega
    · cases found
  · refine plain_iff_getElem?.mpr fun position index fits found => ?_
    rw [List.getElem?_drop] at found
    obtain ⟨below, isPosition⟩ := (at_iff _ index fits).mp found
    omega

theorem placesRun_iff {table : List String} {n : Nat} : PlacesRun table n ↔ HoldsRun table n :=
  ⟨PlacesRun.holdsRun, HoldsRun.placesRun⟩

namespace Program

-----------------------------------------------------------------------------------------
-- What is rewritten
-----------------------------------------------------------------------------------------

/-- `q` is `p` with the placeholder of each field replaced by the field, in both tables of names,
and with everything else as it is.
-/
structure Rewrites (p : Program) (fields : List String) (q : Program) : Prop where
  rest : q = { p with names := q.names, params := q.params }
  placeholders
    : ∀ (which : NameTable) (position index : Nat),
        index < fields.length →
        (p.table which)[position]? = some (placeholder index) →
        (q.table which)[position]? = fields[index]?
  others
    : ∀ (which : NameTable) (position : Nat),
        (∀ index < fields.length, (p.table which)[position]? ≠ some (placeholder index)) →
        (q.table which)[position]? = (p.table which)[position]?

theorem table_renamed (p : Program) (f : String → String) (which : NameTable)
    : (p.renamed f).table which = (p.table which).map f := by
  cases which <;> exact Array.toList_map ..

/-- What is bound to an entry that is the placeholder of no field is the entry. -/
theorem boundName_of_other {fields : List String} {name : String}
    (other : ∀ index < fields.length, name ≠ placeholder index)
    : boundName fields name = name := by
  unfold boundName
  cases found : placeholderIndex? name with
  | none => rfl
  | some index =>
      obtain ⟨rfl, -⟩ := placeholderIndex?_eq_some_iff.mp found
      have beyond : fields.length ≤ index := Nat.le_of_not_lt fun below => other index below rfl
      simp [beyond]

/-- Renaming each entry to what is bound to it is a rewrite. -/
theorem rewrites_renamed (p : Program) {fields : List String}
    (few : fields.length ≤ placeholderLimit)
    : p.Rewrites fields (p.renamed (boundName fields)) := by
  refine ⟨rfl, ?_, ?_⟩
  · intro which position index below found
    rw [table_renamed, List.getElem?_map, found, Option.map_some,
      boundName_placeholder below (Nat.lt_of_lt_of_le below few), List.getElem?_eq_getElem below]
  · intro which position other
    rw [table_renamed, List.getElem?_map]
    cases found : (p.table which)[position]? with
    | none => rfl
    | some name =>
        rw [found] at other
        have isOther : ∀ index < fields.length, name ≠ placeholder index :=
          fun index below same => other index below (congrArg some same)
        rw [Option.map_some, boundName_of_other isOther]

/-- A rewrite leaves no choice, as every entry of either table is the placeholder of a field or not.
-/
theorem Rewrites.unique {p q q' : Program} {fields : List String} (rewrites : p.Rewrites fields q)
    (rewrites' : p.Rewrites fields q')
    : q = q' := by
  have same (which : NameTable) : q.table which = q'.table which := by
    refine List.ext_getElem? fun position => ?_
    by_cases isPlaceholder : ∃ index < fields.length,
        (p.table which)[position]? = some (placeholder index)
    · obtain ⟨index, below, found⟩ := isPlaceholder
      rw [rewrites.placeholders which position index below found,
        rewrites'.placeholders which position index below found]
    · have other : ∀ index < fields.length,
          (p.table which)[position]? ≠ some (placeholder index) :=
        fun index below found => isPlaceholder ⟨index, below, found⟩
      rw [rewrites.others which position other, rewrites'.others which position other]
  rw [rewrites.rest, rewrites'.rest, Array.toList_inj.mp (same .names),
    Array.toList_inj.mp (same .params)]

-----------------------------------------------------------------------------------------
-- When binding fails
-----------------------------------------------------------------------------------------

variable {p : Program} {which : NameTable} {fields : List String} {error : BindError}

/-- Looking for the run of a table fails exactly if there is none, of any length. -/
theorem placeholderRun_eq_error_iff
    : p.placeholderRun which = .error error
      ↔ (¬∃ n, HoldsRun (p.table which) n) ∧ error = .placeholderRun p.name which := by
  constructor
  · intro fails
    refine ⟨?_, eq_of_placeholderRun_error fails⟩
    rintro ⟨n, holds⟩
    obtain ⟨run, runAt, -⟩ := holdsRun_iff.mp holds
    rw [placeholderRun_eq_ok_iff.mpr runAt] at fails
    cases fails
  · rintro ⟨none, rfl⟩
    cases found : p.placeholderRun which with
    | error other => rw [eq_of_placeholderRun_error found]
    | ok run =>
        have runAt := placeholderRun_eq_ok_iff.mp found
        exact absurd ⟨_, holdsRun_iff.mpr ⟨run, runAt, rfl⟩⟩ none

/-- The names are looked at first, then their number is compared with that of the fields, and the
parameters are looked at last.
-/
theorem bind_eq_error_iff
    : p.bind fields = .error error
      ↔ (¬∃ n, HoldsRun (p.table .names) n) ∧ error = .placeholderRun p.name .names
        ∨ (∃ n, HoldsRun (p.table .names) n ∧ n ≠ fields.length
          ∧ error = .fieldCount p.name n fields.length)
        ∨ HoldsRun (p.table .names) fields.length
          ∧ ¬(HoldsRun (p.table .params) 0 ∨ HoldsRun (p.table .params) fields.length)
          ∧ error = .placeholderRun p.name .params := by
  constructor
  · intro fails
    cases found : p.placeholderRun .names with
    | error other =>
        rw [bind_eq, found] at fails
        cases fails
        exact Or.inl (placeholderRun_eq_error_iff.mp found)
    | ok run =>
        have holds := holdsRun_iff.mpr ⟨run, placeholderRun_eq_ok_iff.mp found, rfl⟩
        by_cases length : fields.length = runLength run
        · rw [← length] at holds
          have params : ¬(HoldsRun (p.table .params) 0
              ∨ HoldsRun (p.table .params) fields.length) := by
            intro params
            rw [bind_eq_ok_iff.mpr ⟨holds, params, rfl⟩] at fails
            cases fails
          rw [bind_eq_error holds params] at fails
          exact Or.inr (Or.inr ⟨holds, params, (Except.error.inj fails).symm⟩)
        · rw [bind_eq, found] at fails
          dsimp only at fails
          rw [if_pos length] at fails
          exact Or.inr (Or.inl ⟨_, holds, Ne.symm length, (Except.error.inj fails).symm⟩)
  · rintro (none | ⟨n, holds, other, rfl⟩ | ⟨holds, params, rfl⟩)
    · rw [bind_eq, placeholderRun_eq_error_iff.mpr none]
    · obtain ⟨run, runAt, rfl⟩ := holdsRun_iff.mp holds
      rw [bind_eq, placeholderRun_eq_ok_iff.mpr runAt]
      exact if_pos (Ne.symm other)
    · exact bind_eq_error holds params

/-- Binding succeeds exactly if the placeholders of the names are a run as long as the fields, and
those of the parameters too unless there are none. Then it rewrites the placeholders to the fields.
Otherwise it fails because the names have no run, or else because their run is of another length,
or else because of the parameters.
-/
theorem bind_iff_placesRun (p : Program) (fields : List String)
    : let named := PlacesRun (p.table .names)
      let taken := PlacesRun (p.table .params)
      let fits := named fields.length ∧ (taken 0 ∨ taken fields.length)
      ((∃ q, p.bind fields = .ok q) ↔ fits)
      ∧ (∀ q, p.bind fields = .ok q ↔ fits ∧ p.Rewrites fields q)
      ∧ ∀ error,
        p.bind fields = .error error
          ↔ (¬∃ n, named n) ∧ error = .placeholderRun p.name .names
            ∨ (∃ n, named n ∧ n ≠ fields.length
              ∧ error = .fieldCount p.name n fields.length)
            ∨ named fields.length
              ∧ ¬(taken 0 ∨ taken fields.length)
              ∧ error = .placeholderRun p.name .params := by
  simp only [placesRun_iff]
  refine ⟨⟨?_, ?_⟩, fun q => ⟨?_, ?_⟩, fun error => bind_eq_error_iff⟩
  · rintro ⟨q, bound⟩
    obtain ⟨names, params, -⟩ := bind_eq_ok_iff.mp bound
    exact ⟨names, params⟩
  · rintro ⟨names, params⟩
    exact ⟨_, bind_eq_ok_iff.mpr ⟨names, params, rfl⟩⟩
  · intro bound
    obtain ⟨names, params, rfl⟩ := bind_eq_ok_iff.mp bound
    exact ⟨⟨names, params⟩, p.rewrites_renamed names.le⟩
  · rintro ⟨⟨names, params⟩, rewrites⟩
    exact bind_eq_ok_iff.mpr ⟨names, params, rewrites.unique (p.rewrites_renamed names.le)⟩

end Program

end RecordSynth
