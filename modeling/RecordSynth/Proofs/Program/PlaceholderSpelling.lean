import Mathlib.Data.Set.Function
import RecordSynth.Program.Placeholder
import RecordSynth.Proofs.Source.Digits

/-! Placeholders and their indices determine each other, because an index is read only from the
digits that write it. What other characters stand behind an underscore spells no index at all.
-/

namespace RecordSynth

open Source

/-- Digits spell an index exactly if they are its digits and it is within the limit. -/
theorem indexOfDigits?_eq_some_iff {digits : List Char} {index : Nat}
    : indexOfDigits? digits = some index
      ↔ digits = Nat.toDigits 10 index ∧ index < placeholderLimit := by
  have canonical_iff : (!digits.isEmpty && digits.all Char.isDigit
      && (digits == ['0'] || digits.head? != some '0')) = true ↔ IsCanonical digits := by
    simp only [Bool.and_eq_true, Bool.not_eq_true', List.isEmpty_eq_false_iff, List.all_eq_true,
      Bool.or_eq_true, beq_iff_eq, bne_iff_ne, ne_eq]
    exact ⟨fun h => ⟨h.1.1, h.1.2, h.2⟩, fun h => ⟨⟨h.nonempty, h.allDigits⟩, h.noLeadingZero⟩⟩
  unfold indexOfDigits?
  dsimp only
  constructor
  · intro h
    split at h
    · next accepted =>
      obtain ⟨canonical, fits⟩ := (Bool.and_eq_true _ _).mp accepted
      cases h
      exact ⟨(toDigits_digitsValue (canonical_iff.mp canonical)).symm, of_decide_eq_true fits⟩
    · cases h
  · rintro ⟨rfl, fits⟩
    have value := digitsValue_toDigits index
    have canonical := canonical_iff.mpr (isCanonical_toDigits index)
    have accepted := (Bool.and_eq_true _ _).mpr ⟨canonical, decide_eq_true (value.symm ▸ fits)⟩
    exact (if_pos accepted).trans (congrArg some value)

/-- A name is the placeholder of an index within the limit or of none. -/
theorem placeholderIndex?_eq_some_iff {name : String} {index : Nat}
    : placeholderIndex? name = some index
      ↔ name = placeholder index ∧ index < placeholderLimit := by
  have spelled : (placeholder index).toList = '_' :: Nat.toDigits 10 index := by
    rw [placeholder, String.toList_append, Nat.toString_eq_ofList_toDigits]
    simp
  rw [← String.toList_inj, spelled]
  unfold placeholderIndex?
  split
  · next digits isDigits =>
    rw [indexOfDigits?_eq_some_iff, isDigits, List.cons.injEq]
    simp
  · next other =>
    refine iff_of_false (fun h => nomatch h) ?_
    rintro ⟨isPlaceholder, _⟩
    exact other _ isPlaceholder

theorem placeholderIndex?_placeholder {index : Nat} (fits : index < placeholderLimit)
    : placeholderIndex? (placeholder index) = some index :=
  placeholderIndex?_eq_some_iff.mpr ⟨rfl, fits⟩

theorem placeholder_eq_iff {i j : Nat} (iFits : i < placeholderLimit) (jFits : j < placeholderLimit)
    : placeholder i = placeholder j ↔ i = j := by
  refine ⟨fun same => ?_, congrArg placeholder⟩
  have found := placeholderIndex?_placeholder iFits
  rw [same, placeholderIndex?_placeholder jFits] at found
  exact (Option.some.inj found).symm

-----------------------------------------------------------------------------------------
-- Names that are no placeholders
-----------------------------------------------------------------------------------------

/-- Characters that spell no index: none, some that are not all digits, several digits with a zero
in front of them, or digits that write too large a number.
-/
def SpellsNoIndex (digits : List Char) : Prop :=
  digits = []
  ∨ (∃ c ∈ digits, c.isDigit = false)
  ∨ (digits.head? = some '0' ∧ digits ≠ ['0'])
  ∨ placeholderLimit ≤ digitsValue digits

instance : DecidablePred SpellsNoIndex := fun digits =>
  -- The characters that are there are looked at, and not all characters.
  haveI : Decidable (∃ c ∈ digits, c.isDigit = false) := List.decidableBEx _ digits
  inferInstanceAs (Decidable (digits = [] ∨ (∃ c ∈ digits, c.isDigit = false)
    ∨ (digits.head? = some '0' ∧ digits ≠ ['0']) ∨ placeholderLimit ≤ digitsValue digits))

/-- Each way of spelling no index excludes the digits of one, and digits that are written in none of
these ways are canonical.
-/
theorem indexOfDigits?_eq_none_iff {digits : List Char}
    : indexOfDigits? digits = none ↔ SpellsNoIndex digits := by
  constructor
  · intro refused
    by_contra spells
    simp only [SpellsNoIndex, not_or, not_exists, not_and, Bool.not_eq_false, not_not, not_le]
      at spells
    obtain ⟨nonempty, allDigits, noLeadingZero, fits⟩ := spells
    have canonical : IsCanonical digits := by
      refine ⟨nonempty, allDigits, ?_⟩
      by_cases zero : digits.head? = some '0'
      · exact Or.inl (noLeadingZero zero)
      · exact Or.inr zero
    have found := indexOfDigits?_eq_some_iff.mpr ⟨(toDigits_digitsValue canonical).symm, fits⟩
    rw [refused] at found
    cases found
  · intro spellsNone
    refine Option.eq_none_iff_forall_ne_some.mpr fun index found => ?_
    obtain ⟨rfl, fits⟩ := indexOfDigits?_eq_some_iff.mp found
    obtain ⟨nonempty, allDigits, noLeadingZero⟩ := isCanonical_toDigits index
    rcases spellsNone with empty | ⟨c, member, noDigit⟩ | ⟨zero, several⟩ | large
    · exact nonempty empty
    · rw [allDigits c member] at noDigit
      cases noDigit
    · exact noLeadingZero.elim several fun notZero => notZero zero
    · rw [digitsValue_toDigits] at large
      exact Nat.not_le.mpr fits large

/-- A name is no placeholder exactly if no index is spelled behind an underscore. -/
theorem placeholderIndex?_eq_none_iff {name : String}
    : placeholderIndex? name = none
      ↔ ∀ digits, name.toList = '_' :: digits → SpellsNoIndex digits := by
  unfold placeholderIndex?
  split
  · next digits isName =>
    simp only [isName, List.cons.injEq, true_and, forall_eq', indexOfDigits?_eq_none_iff]
  · next other => exact iff_of_true rfl fun digits isName => absurd isName (other digits)

/-- The indices within the limit and the names that are placeholders are in bijection. Reading the
placeholder of an index gives the index, and a name from which an index is read is the placeholder
of that index. All other names spell no index.
-/
theorem placeholder_bijOn
    : Set.BijOn placeholder {index | index < placeholderLimit}
        {name | (placeholderIndex? name).isSome}
      ∧ (∀ index < placeholderLimit, placeholderIndex? (placeholder index) = some index)
      ∧ (∀ name index, placeholderIndex? name = some index → name = placeholder index)
      ∧ ∀ name,
        placeholderIndex? name = none
          ↔ ∀ digits, name.toList = '_' :: digits → SpellsNoIndex digits := by
  refine ⟨⟨?_, ?_, ?_⟩, ?_, ?_, fun name => placeholderIndex?_eq_none_iff⟩
  · intro index fits
    exact Option.isSome_of_eq_some (placeholderIndex?_placeholder fits)
  · intro index fits index' fits' same
    exact (placeholder_eq_iff fits fits').mp same
  · intro name found
    obtain ⟨index, isIndex⟩ := Option.isSome_iff_exists.mp found
    obtain ⟨rfl, fits⟩ := placeholderIndex?_eq_some_iff.mp isIndex
    exact Set.mem_image_of_mem placeholder fits
  · exact fun index fits => placeholderIndex?_placeholder fits
  · exact fun name index isIndex => (placeholderIndex?_eq_some_iff.mp isIndex).1

/-- Witness: the greatest index, and what is like a placeholder but is none. -/
theorem placeholder_bijOn_greatest
    : placeholderIndex? (placeholder 18446744073709551615) = some 18446744073709551615
      ∧ placeholderIndex? "_" = none
      ∧ placeholderIndex? "_01" = none
      ∧ placeholderIndex? "_x" = none
      ∧ placeholderIndex? "_18446744073709551616" = none := by
  obtain ⟨-, spelled, -, refused⟩ := placeholder_bijOn
  have none {name : String} (digits : List Char) (isName : name.toList = '_' :: digits)
      (spellsNone : SpellsNoIndex digits) : placeholderIndex? name = none := by
    refine (refused name).mpr fun digits' isName' => ?_
    rw [isName] at isName'
    exact (List.cons.inj isName').2 ▸ spellsNone
  exact ⟨spelled _ (by decide), none [] (by decide) (by decide),
    none ['0', '1'] (by decide) (by decide), none ['x'] (by decide) (by decide),
    none "18446744073709551616".toList (by decide) (by decide)⟩

end RecordSynth
