import Mathlib.Data.List.Induction
import Mathlib.Data.List.Nodup
import RecordSynth.Roster.Lemmas

/-! Tables in the order of first use: entries are added one after another, each unless it is
present. A table only grows at its end, so the position of an entry never changes.
-/

namespace RecordSynth

section FirstUse

variable {α : Type} [DecidableEq α]

/-- A table after entries are added to it in order, each unless present. -/
def enterAll (table : List α) (added : List α) : List α :=
  added.foldl (fun table a => if a ∈ table then table else table ++ [a]) table

@[simp] theorem enterAll_nil (table : List α) : enterAll table [] = table :=
  rfl

theorem enterAll_cons (table : List α) (a : α) (rest : List α)
    : enterAll table (a :: rest)
      = enterAll (if a ∈ table then table else table ++ [a]) rest :=
  rfl

/-- Entries are added one list after the other, because a fold over an append is two folds. -/
theorem enterAll_append (table left right : List α)
    : enterAll table (left ++ right) = enterAll (enterAll table left) right :=
  List.foldl_append

/-- The old table stands in front of the new one, by induction on the added entries. -/
theorem prefix_enterAll (table added : List α) : table <+: enterAll table added := by
  induction added generalizing table with
  | nil => exact List.prefix_refl table
  | cons a rest ih =>
      rw [enterAll_cons]
      split
      · exact ih table
      · exact (List.prefix_append table [a]).trans (ih (table ++ [a]))

/-- More additions do not make a table shorter. -/
theorem length_enterAll_le (table left right : List α)
    : (enterAll table left).length ≤ (enterAll table (left ++ right)).length := by
  rw [enterAll_append]
  exact (prefix_enterAll _ right).length_le

/-- What is in the new table was in the old one or is added, by induction on the additions. -/
theorem mem_enterAll {table added : List α} {a : α}
    : a ∈ enterAll table added ↔ a ∈ table ∨ a ∈ added := by
  induction added generalizing table with
  | nil => simp
  | cons b rest ih =>
      rw [enterAll_cons, ih]
      by_cases present : b ∈ table
      · have known : a = b → a ∈ table := fun same => same ▸ present
        simp only [present, ↓reduceIte, List.mem_cons]
        tauto
      · simp only [present, ↓reduceIte, List.mem_append, List.mem_cons, List.not_mem_nil,
          or_false]
        tauto

/-- No entry comes twice, because an entry is added only where it is absent. -/
theorem nodup_enterAll {table : List α} (distinct : table.Nodup) (added : List α)
    : (enterAll table added).Nodup := by
  induction added generalizing table with
  | nil => exact distinct
  | cons a rest ih =>
      rw [enterAll_cons]
      split
      · exact ih distinct
      · next absent =>
        refine ih (distinct.append (List.nodup_singleton a) ?_)
        simpa using absent

/-- Entries that are present change nothing. -/
theorem enterAll_of_subset {table added : List α} (present : ∀ a ∈ added, a ∈ table)
    : enterAll table added = table := by
  induction added with
  | nil => rfl
  | cons a rest ih =>
      rw [enterAll_cons, if_pos (present a List.mem_cons_self)]
      exact ih (fun b member => present b (List.mem_cons_of_mem a member))

/-- New entries come after the table, each once, by induction on them. -/
theorem enterAll_eq_append_filter (table : List α) {added : List α} (distinct : added.Nodup)
    : enterAll table added = table ++ added.filter (· ∉ table) := by
  induction added generalizing table with
  | nil => simp
  | cons a rest ih =>
      obtain ⟨once, distinct⟩ := List.nodup_cons.mp distinct
      rw [enterAll_cons, ih _ distinct]
      by_cases present : a ∈ table
      · rw [if_pos present, List.filter_cons_of_neg (by simpa using present)]
      · have others : rest.filter (· ∉ table ++ [a]) = rest.filter (· ∉ table) := by
          refine List.filter_congr fun b member => ?_
          have other : b ≠ a := fun same => once (same ▸ member)
          simp [other]
        rw [if_neg present, List.filter_cons_of_pos (by simpa using present), others,
          List.append_assoc, List.singleton_append]

/-- New entries without repetition are all added, in order. -/
theorem enterAll_of_nodup {table added : List α} (distinct : (table ++ added).Nodup)
    : enterAll table added = table ++ added := by
  obtain ⟨-, once, apart⟩ := List.nodup_append.mp distinct
  have absent : ∀ a ∈ added, decide (a ∉ table) = true :=
    fun a member => decide_eq_true fun present => apart a present a member rfl
  rw [enterAll_eq_append_filter table once, List.filter_eq_self.mpr absent]

/-- Entries that come twice in a row are added once, by induction on them. -/
theorem enterAll_twice {table added : List α} (distinct : (table ++ added).Nodup)
    : enterAll table (added.flatMap fun a => [a, a]) = table ++ added := by
  induction added generalizing table with
  | nil => simp
  | cons a rest ih =>
      have once : enterAll table [a, a] = table ++ [a] := by
        have absent : a ∉ table := by
          intro present
          exact (List.nodup_append.mp distinct).2.2 a present a List.mem_cons_self rfl
        simp [enterAll_cons, absent]
      rw [List.flatMap_cons, enterAll_append, once, ih (by simpa using distinct),
        List.append_assoc, List.singleton_append]

/-- Adding entries commutes with a renaming that is injective on all of them. -/
theorem enterAll_map {β : Type} [DecidableEq β] (f : α → β) {table added : List α}
    (injective : ∀ a ∈ table ++ added, ∀ b ∈ table ++ added, f a = f b → a = b)
    : enterAll (table.map f) (added.map f) = (enterAll table added).map f := by
  induction added generalizing table with
  | nil => rfl
  | cons a rest ih =>
      have same_presence : f a ∈ table.map f ↔ a ∈ table := by
        refine ⟨?_, List.mem_map_of_mem⟩
        intro renamed
        obtain ⟨b, present, same⟩ := List.mem_map.mp renamed
        have b_eq := injective b (List.mem_append_left _ present) a (by simp) same
        exact b_eq ▸ present
      rw [List.map_cons, enterAll_cons, enterAll_cons]
      simp only [same_presence]
      split
      · refine ih ?_
        intro b inB c inC
        exact injective b (by simp at inB ⊢; tauto) c (by simp at inC ⊢; tauto)
      · have split_map : table.map f ++ [f a] = (table ++ [a]).map f := by simp
        rw [split_map]
        refine ih ?_
        intro b inB c inC
        exact injective b (by simpa using inB) c (by simpa using inC)

/-- What enters an empty table are the entries without later repetitions, by induction from the
last one.
-/
theorem enterAll_empty (added : List α) : enterAll [] added = added.eraseDups := by
  induction added using List.reverseRecOn with
  | nil => rfl
  | append_singleton earlier a ih =>
      rw [enterAll_append, ih, List.eraseDups_append, enterAll_cons, enterAll_nil]
      by_cases present : a ∈ earlier
      · have entered : a ∈ earlier.eraseDups := by
          rw [← ih]
          exact mem_enterAll.mpr (.inr present)
        simp [List.removeAll, present, entered]
      · have absent : a ∉ earlier.eraseDups := by
          rw [← ih]
          simpa [mem_enterAll] using present
        simp [List.removeAll, present, absent, List.eraseDups_cons]

/-- An entry keeps its position when the table grows. -/
theorem idxOf_eq_of_prefix {table grown : List α} {a : α} (grows : table <+: grown)
    (present : a ∈ table)
    : grown.idxOf a = table.idxOf a := by
  obtain ⟨more, rfl⟩ := grows
  exact List.idxOf_append_of_mem present

end FirstUse

namespace Roster

/-- Entries enter their keys one after another, each unless it is present. -/
theorem keys_foldl_insert {α κ : Type} [DecidableEq κ] [Hashable κ] {key : α → κ}
    (r : Roster key) (entries : List α)
    : (entries.foldl insert r).keys = enterAll r.keys (entries.map key) := by
  induction entries generalizing r with
  | nil => rfl
  | cons a rest ih => rw [List.foldl_cons, ih, keys_insert, List.map_cons, enterAll_cons]

variable {α : Type} [DecidableEq α] [Hashable α]

theorem keys_id (r : Roster (id : α → α)) : r.keys = r.toList := by
  simp [keys]

/-- An entry is found at its place in the list of entries. -/
theorem position?_eq_some_iff_idxOf {r : Roster (id : α → α)} {a : α} {i : Nat}
    : r.position? a = some i ↔ a ∈ r.toList ∧ i = r.toList.idxOf a := by
  rw [position?_eq_some_iff, keys_id]
  have distinct : r.toList.Nodup := keys_id r ▸ r.nodup_keys
  constructor
  · intro found
    obtain ⟨inBounds, atI⟩ := List.getElem?_eq_some_iff.mp found
    refine ⟨List.mem_of_getElem? found, ?_⟩
    rw [← atI, distinct.idxOf_getElem i inBounds]
  · rintro ⟨present, rfl⟩
    exact List.getElem?_idxOf present

theorem position?_eq_none_iff_not_mem {r : Roster (id : α → α)} {a : α}
    : r.position? a = none ↔ a ∉ r.toList := by
  rw [position?_eq_none_iff, keys_id]

end Roster

end RecordSynth
