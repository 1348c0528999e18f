import RecordSynth.Roster.Basic

/-! Rosters through their views: what each operation does to the list of entries and to the list
of keys. Keys are distinct, and the position of a key is its place among them.
-/

namespace RecordSynth.Roster

section Views

variable {α κ : Type} [BEq κ] [Hashable κ] {key : α → κ}

@[simp] theorem length_toList (r : Roster key) : r.toList.length = r.size :=
  rfl

@[simp] theorem length_keys (r : Roster key) : r.keys.length = r.size :=
  List.length_map key

theorem position?_eq_some_iff {r : Roster key} {k : κ} {i : Nat}
    : r.position? k = some i ↔ r.keys[i]? = some k := by
  simpa [position?, keys, toList] using r.index_iff k i

theorem position?_eq_none_iff {r : Roster key} {k : κ}
    : r.position? k = none ↔ k ∉ r.keys := by
  rw [Option.eq_none_iff_forall_ne_some, List.mem_iff_getElem?]
  simp only [ne_eq, position?_eq_some_iff, not_exists]

/-- No two entries have the same key: both would be at the position of the key. -/
theorem nodup_keys (r : Roster key) : r.keys.Nodup := by
  refine List.pairwise_iff_getElem.2 ?_
  intro i j i_lt j_lt i_lt_j same
  have first := position?_eq_some_iff.2 (List.getElem?_eq_getElem i_lt)
  have second := position?_eq_some_iff.2 (List.getElem?_eq_getElem j_lt)
  rw [same, second] at first
  cases first
  exact Nat.lt_irrefl _ i_lt_j

@[simp] theorem toList_replace (r : Roster key) (i : Nat) (a : α)
    (same : r.position? (key a) = some i)
    : (r.replace i a same).toList = r.toList.set i a := by
  simp [replace, toList]

@[simp] theorem keys_replace (r : Roster key) (i : Nat) (a : α)
    (same : r.position? (key a) = some i)
    : (r.replace i a same).keys = r.keys := by
  obtain ⟨inBounds, atI⟩ := List.getElem?_eq_some_iff.1 (position?_eq_some_iff.1 same)
  have unchanged : r.keys.set i (key a) = r.keys := by
    rw [← atI]
    exact List.set_getElem_self inBounds
  simpa only [keys, toList_replace, List.map_set] using unchanged

end Views

section Insertion

variable {α κ : Type} [BEq κ] [LawfulBEq κ] [Hashable κ] {key : α → κ}

@[simp] theorem toList_empty : (empty : Roster key).toList = [] :=
  rfl

@[simp] theorem keys_empty : (empty : Roster key).keys = [] :=
  rfl

@[simp] theorem toList_push (r : Roster key) (a : α) (fresh : r.position? (key a) = none)
    : (r.push a fresh).toList = r.toList ++ [a] := by
  simp [push, toList]

@[simp] theorem keys_push (r : Roster key) (a : α) (fresh : r.position? (key a) = none)
    : (r.push a fresh).keys = r.keys ++ [key a] := by
  simp [keys]

/-- An insertion changes the entry with the same key, wherever it is. -/
theorem toList_insert_of_mem {r : Roster key} {a : α} (present : key a ∈ r.keys)
    : (r.insert a).toList = r.toList.map fun b => if key b == key a then a else b := by
  unfold insert
  split
  · next i found =>
    have atI := position?_eq_some_iff.1 found
    rw [toList_replace]
    refine List.ext_getElem? fun j => ?_
    rw [List.getElem?_set, List.getElem?_map]
    cases atJ : r.toList[j]? with
    | none =>
      have outside := List.getElem?_eq_none_iff.1 atJ
      split
      · next i_eq => rw [if_neg (Nat.not_lt_of_le (i_eq ▸ outside)), Option.map_none]
      · rfl
    | some b =>
      have keyAtJ : r.keys[j]? = some (key b) := by simp [keys, atJ]
      obtain ⟨inBounds, _⟩ := List.getElem?_eq_some_iff.1 atJ
      by_cases i_eq : i = j
      · subst i_eq
        have same : key b = key a := Option.some.inj (keyAtJ.symm.trans atI)
        rw [if_pos rfl, if_pos inBounds, Option.map_some, if_pos (beq_iff_eq.2 same)]
      · have other : key b ≠ key a := by
          intro same
          rw [same] at keyAtJ
          have again := position?_eq_some_iff.2 keyAtJ
          rw [found] at again
          exact i_eq (Option.some.inj again)
        simp [i_eq, other]
  · next absent => exact absurd present (position?_eq_none_iff.1 absent)

/-- An insertion of a new key adds its entry at the end. -/
theorem toList_insert_of_not_mem {r : Roster key} {a : α} (absent : key a ∉ r.keys)
    : (r.insert a).toList = r.toList ++ [a] := by
  unfold insert
  split
  · next i found =>
    exact absurd (List.mem_of_getElem? (position?_eq_some_iff.1 found)) absent
  · exact toList_push _ _ _

/-- An insertion keeps the keys that there are and their order. -/
theorem keys_insert (r : Roster key) (a : α)
    : (r.insert a).keys = if key a ∈ r.keys then r.keys else r.keys ++ [key a] := by
  unfold insert
  split
  · next i found =>
    have present : key a ∈ r.keys := List.mem_of_getElem? (position?_eq_some_iff.1 found)
    rw [keys_replace, if_pos present]
  · next absent => rw [keys_push, if_neg (position?_eq_none_iff.1 absent)]

end Insertion

end RecordSynth.Roster
