import Mathlib.Data.List.Basic
import RecordSynth.Text.Display

/-! Displayed texts can be read back. The quote is the first character, and up to where it stands
alone again each character of the text is found from the front, without a look at what follows.
-/

namespace RecordSynth.Text

-----------------------------------------------------------------------------------------
-- Reading a displayed character
-----------------------------------------------------------------------------------------

/-- The value of a hexadecimal digit. -/
def hexValue (c : Char) : Nat :=
  if c.isDigit then c.toNat - '0'.toNat else c.toNat - 'a'.toNat + 10

theorem hexValue_hexDigit {n : Nat} (small : n < 16) : hexValue (hexDigit n) = n := by
  revert n
  decide

/-- Reads the character that is displayed at the front. -/
def readChar? : List Char → Option (Char × List Char)
  | '\\' :: 'x' :: high :: low :: rest =>
    some (Char.ofNat (16 * hexValue high + hexValue low), rest)
  | '\\' :: 'n' :: rest => some ('\n', rest)
  | '\\' :: 't' :: rest => some ('\t', rest)
  | '\\' :: 'r' :: rest => some ('\r', rest)
  | '\\' :: c :: rest => some (c, rest)
  | c :: rest => some (c, rest)
  | [] => none

/-- What texts are displayed between. -/
def IsQuote (c : Char) : Prop :=
  c = '\'' ∨ c = '"'

theorem isQuote_quoteFor (cs : List Char) : IsQuote (quoteFor cs) := by
  unfold quoteFor
  split
  · exact Or.inr rfl
  · exact Or.inl rfl

section Characters

variable {quote : Char}

/-- How a character is displayed: behind a backslash, by its code point, or as it is. -/
theorem displayChar_cases (quote c : Char)
    : (∃ escaped, displayChar quote c = ['\\', escaped]
        ∧ (c, escaped) ∈ [('\\', '\\'), ('\n', 'n'), ('\t', 't'), ('\r', 'r'), (quote, quote)])
      ∨ (isControl c
        ∧ displayChar quote c
          = ['\\', 'x', hexDigit (c.toNat / 16), hexDigit (c.toNat % 16)])
      ∨ (displayChar quote c = [c] ∧ c ≠ '\\' ∧ c ≠ quote ∧ isControl c = false) := by
  unfold displayChar
  split
  · next isBackslash => exact Or.inl ⟨_, rfl, by simp [eq_of_beq isBackslash]⟩
  split
  · next isNewline => exact Or.inl ⟨_, rfl, by simp [eq_of_beq isNewline]⟩
  split
  · next isTab => exact Or.inl ⟨_, rfl, by simp [eq_of_beq isTab]⟩
  split
  · next isReturn => exact Or.inl ⟨_, rfl, by simp [eq_of_beq isReturn]⟩
  split
  · next isQuote => exact Or.inl ⟨_, rfl, by simp [eq_of_beq isQuote]⟩
  split
  · next control => exact Or.inr (Or.inl ⟨control, rfl⟩)
  · next notBackslash _ _ _ notQuote notControl =>
    exact Or.inr (Or.inr ⟨rfl, by simpa using notBackslash, by simpa using notQuote,
      by simpa using notControl⟩)

theorem readChar?_of_ne {c : Char} (plain : c ≠ '\\') (rest : List Char)
    : readChar? (c :: rest) = some (c, rest) := by
  unfold readChar?
  split <;> simp_all

/-- A displayed character is read back, whatever follows it. -/
theorem readChar?_displayChar (isQuote : IsQuote quote) (c : Char) (rest : List Char)
    : readChar? (displayChar quote c ++ rest) = some (c, rest) := by
  rcases displayChar_cases quote c with
    ⟨escaped, isDisplay, pair⟩ | ⟨control, isDisplay⟩ | ⟨isDisplay, plain, -, -⟩
  · rw [isDisplay]
    simp only [List.mem_cons, Prod.mk.injEq, List.not_mem_nil, or_false] at pair
    rcases pair with ⟨rfl, rfl⟩ | ⟨rfl, rfl⟩ | ⟨rfl, rfl⟩ | ⟨rfl, rfl⟩ | ⟨rfl, rfl⟩
    · rfl
    · rfl
    · rfl
    · rfl
    · rcases isQuote with rfl | rfl <;> rfl
  · have small : c.toNat / 16 < 16 := by
      simp only [isControl, Bool.or_eq_true, Bool.and_eq_true, decide_eq_true_eq] at control
      omega
    have number : 16 * (c.toNat / 16) + c.toNat % 16 = c.toNat := Nat.div_add_mod _ _
    rw [isDisplay]
    simp only [List.cons_append, List.nil_append, readChar?, hexValue_hexDigit small,
      hexValue_hexDigit (Nat.mod_lt c.toNat (by decide : 0 < 16)), number, Char.ofNat_toNat]
  · rw [isDisplay]
    exact readChar?_of_ne plain rest

/-- Displays of characters that begin alike are displays of one character. -/
theorem displayChar_cancel (isQuote : IsQuote quote) {c d : Char} {s t : List Char}
    (same : displayChar quote c ++ s = displayChar quote d ++ t)
    : c = d ∧ s = t := by
  have read := congrArg readChar? same
  simpa only [readChar?_displayChar isQuote, Option.some.injEq, Prod.mk.injEq] using read

/-- No character is displayed with the quote in front. -/
theorem displayChar_ne_quote (isQuote : IsQuote quote) (c : Char) {s t : List Char}
    : displayChar quote c ++ s ≠ quote :: t := by
  have notBackslash : '\\' ≠ quote := by
    rcases isQuote with rfl | rfl <;> decide
  intro same
  rcases displayChar_cases quote c with
    ⟨escaped, isDisplay, -⟩ | ⟨-, isDisplay⟩ | ⟨isDisplay, -, notQuote, -⟩
  · rw [isDisplay] at same
    exact notBackslash (List.cons.inj same).1
  · rw [isDisplay] at same
    exact notBackslash (List.cons.inj same).1
  · rw [isDisplay] at same
    exact notQuote (List.cons.inj same).1

theorem isControl_of_isQuote (isQuote : IsQuote quote) : isControl quote = false := by
  rcases isQuote with rfl | rfl <;> decide

theorem isControl_hexDigit {n : Nat} (small : n < 16) : isControl (hexDigit n) = false := by
  revert n
  decide

/-- The display of a character has no control character. -/
theorem isControl_of_mem_displayChar (isQuote : IsQuote quote) {c x : Char}
    (member : x ∈ displayChar quote c)
    : isControl x = false := by
  rcases displayChar_cases quote c with
    ⟨escaped, isDisplay, pair⟩ | ⟨control, isDisplay⟩ | ⟨isDisplay, -, -, plain⟩
  · simp only [isDisplay, List.mem_cons, List.not_mem_nil, or_false] at member
    simp only [List.mem_cons, Prod.mk.injEq, List.not_mem_nil, or_false] at pair
    rcases member with rfl | rfl
    · rfl
    · rcases pair with ⟨-, rfl⟩ | ⟨-, rfl⟩ | ⟨-, rfl⟩ | ⟨-, rfl⟩ | ⟨-, rfl⟩
      · rfl
      · rfl
      · rfl
      · rfl
      · exact isControl_of_isQuote isQuote
  · have small : c.toNat / 16 < 16 := by
      simp only [isControl, Bool.or_eq_true, Bool.and_eq_true, decide_eq_true_eq] at control
      omega
    simp only [isDisplay, List.mem_cons, List.not_mem_nil, or_false] at member
    rcases member with rfl | rfl | rfl | rfl
    · rfl
    · rfl
    · exact isControl_hexDigit small
    · exact isControl_hexDigit (Nat.mod_lt _ (by decide))
  · rw [isDisplay, List.mem_singleton] at member
    exact member ▸ plain

end Characters

-----------------------------------------------------------------------------------------
-- Reading a displayed text
-----------------------------------------------------------------------------------------

/-- Displayed characters up to the quote are those of one text, by induction on the text. -/
theorem flatMap_displayChar_cancel {quote : Char} (isQuote : IsQuote quote)
    {cs ds s t : List Char}
    (same : cs.flatMap (displayChar quote) ++ quote :: s
      = ds.flatMap (displayChar quote) ++ quote :: t)
    : cs = ds ∧ s = t := by
  induction cs generalizing ds with
  | nil =>
      cases ds with
      | nil => exact ⟨rfl, (List.cons.inj same).2⟩
      | cons d ds =>
          rw [List.flatMap_cons, List.append_assoc] at same
          exact absurd same.symm (displayChar_ne_quote isQuote d)
  | cons c cs ih =>
      rw [List.flatMap_cons, List.append_assoc] at same
      cases ds with
      | nil => exact absurd same (displayChar_ne_quote isQuote c)
      | cons d ds =>
          rw [List.flatMap_cons, List.append_assoc] at same
          obtain ⟨rfl, behind⟩ := displayChar_cancel isQuote same
          obtain ⟨rfl, rest⟩ := ih behind
          exact ⟨rfl, rest⟩

/-- A displayed text is the display of no other text, whatever follows it. -/
theorem displayChars_cancel {cs ds s t : List Char}
    (same : displayChars cs ++ s = displayChars ds ++ t)
    : cs = ds ∧ s = t := by
  simp only [displayChars, List.cons_append, List.append_assoc, List.nil_append] at same
  obtain ⟨sameQuote, behind⟩ := List.cons.inj same
  rw [← sameQuote] at behind
  exact flatMap_displayChar_cancel (isQuote_quoteFor cs) behind

theorem isControl_of_mem_displayChars {cs : List Char} {x : Char}
    (member : x ∈ displayChars cs)
    : isControl x = false := by
  have isQuote := isQuote_quoteFor cs
  rcases List.mem_cons.mp member with rfl | inside
  · exact isControl_of_isQuote isQuote
  rcases List.mem_append.mp inside with inText | isLast
  · obtain ⟨c, -, inChar⟩ := List.mem_flatMap.mp inText
    exact isControl_of_mem_displayChar isQuote inChar
  · exact List.mem_singleton.mp isLast ▸ isControl_of_isQuote isQuote

end RecordSynth.Text
