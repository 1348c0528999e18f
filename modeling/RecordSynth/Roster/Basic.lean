import Std.Data.HashMap

/-! Rosters: entries with distinct keys, kept in the order in which their keys first came, with
a hash index from keys to positions. Entering an entry whose key is present keeps its position.
-/

namespace RecordSynth

/-- Entries with distinct keys, and the position of each key. -/
structure Roster {α κ : Type} [BEq κ] [Hashable κ] (key : α → κ) where
  entries : Array α
  index : Std.HashMap κ Nat
  index_iff : ∀ k i, index[k]? = some i ↔ entries[i]?.map key = some k

namespace Roster

variable {α κ : Type} [BEq κ] [LawfulBEq κ] [Hashable κ] {key : α → κ}

/-- The roster without entries. -/
def empty : Roster key :=
  ⟨#[], ∅, by simp⟩

instance : Inhabited (Roster key) :=
  ⟨empty⟩

/-- How many entries there are. -/
def size (r : Roster key) : Nat :=
  r.entries.size

/-- The entries in order. -/
def toList (r : Roster key) : List α :=
  r.entries.toList

/-- The keys of the entries, in order. -/
def keys (r : Roster key) : List κ :=
  r.toList.map key

/-- The position of a key. -/
def position? (r : Roster key) (k : κ) : Option Nat :=
  r.index[k]?

theorem index_iff_push {entries : Array α} {index : Std.HashMap κ Nat} {a : α}
    (index_iff : ∀ k i, index[k]? = some i ↔ entries[i]?.map key = some k)
    (fresh : index[key a]? = none) (k : κ) (i : Nat)
    : (index.insert (key a) entries.size)[k]? = some i ↔
      (entries.push a)[i]?.map key = some k := by
  have old := index_iff k i
  by_cases hk : key a = k
  · subst hk
    simp only [Std.HashMap.getElem?_insert_self, Array.getElem?_push]
    split
    · next h => simp [h]
    · next h =>
      rw [← old, fresh]
      simp only [reduceCtorEq, iff_false, Option.some.injEq]
      exact fun h' => h h'.symm
  · simp only [Std.HashMap.getElem?_insert, beq_iff_eq, hk, ↓reduceIte, Array.getElem?_push]
    split
    · next h =>
      rw [old, h]
      simp [hk]
    · exact old

omit [LawfulBEq κ] in
theorem index_iff_setIfInBounds {entries : Array α} {index : Std.HashMap κ Nat} {a : α}
    {i : Nat} (index_iff : ∀ k i, index[k]? = some i ↔ entries[i]?.map key = some k)
    (same : index[key a]? = some i) (k : κ) (j : Nat)
    : index[k]? = some j ↔ (entries.setIfInBounds i a)[j]?.map key = some k := by
  have here : entries[i]?.map key = some (key a) := (index_iff _ _).1 same
  rw [index_iff, Array.getElem?_setIfInBounds]
  split
  · next h =>
    subst h
    split
    · rw [here]
      rfl
    · next h' => rw [Array.getElem?_eq_none (Nat.le_of_not_lt h')] at here; cases here
  · rfl

/-- Puts an entry with a new key at the end. -/
def push (r : Roster key) (a : α) (fresh : r.position? (key a) = none) : Roster key :=
  match r, fresh with
  | ⟨entries, index, index_iff⟩, fresh =>
    let position := entries.size
    ⟨entries.push a, index.insert (key a) position, index_iff_push index_iff fresh⟩

/-- Replaces the entry at a position by one with the same key. -/
def replace (r : Roster key) (i : Nat) (a : α) (same : r.position? (key a) = some i)
    : Roster key :=
  match r, same with
  | ⟨entries, index, index_iff⟩, same =>
    ⟨entries.setIfInBounds i a, index, index_iff_setIfInBounds index_iff same⟩

/-- Enters `a`: in place of the entry with its key, or else at the end. -/
def insert (r : Roster key) (a : α) : Roster key :=
  match h : r.position? (key a) with
  | some i => r.replace i a h
  | none => r.push a h

/-- The roster of a list of entries, entered in order. -/
def ofList (entries : List α) : Roster key :=
  entries.foldl insert empty

end Roster

end RecordSynth
