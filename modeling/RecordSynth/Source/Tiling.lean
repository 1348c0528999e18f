import RecordSynth.Source.Lexeme

/-! Tiling: no lexeme of a text is empty, and put together in order they are the text. -/

namespace RecordSynth.Source

namespace Lexeme

theorem runAt_text (shape : Shape) (p : Char → Bool) (c : Char) (cs : List Char)
    : (runAt shape p c cs).1.text ++ (runAt shape p c cs).2 = c :: cs := by
  simp [runAt]

theorem quotedAt_text (cs : List Char)
    : (quotedAt cs).1.text ++ (quotedAt cs).2 = '"' :: cs := by
  have split_eq := List.take_append_drop (elementCount 0 cs) cs
  simp only [quotedAt]
  split
  · next rest close =>
    rw [close] at split_eq
    simp [split_eq]
  · simp [split_eq]

theorem markAt_text (c : Char) (cs : List Char)
    : (markAt c cs).1.text ++ (markAt c cs).2 = c :: cs := by
  unfold markAt
  split <;> rfl

/-- A lexeme and what follows it make up the text. -/
theorem next_text (c : Char) (cs : List Char)
    : (next c cs).1.text ++ (next c cs).2 = c :: cs := by
  unfold next
  split
  · exact runAt_text _ _ _ _
  split
  · exact runAt_text _ _ _ _
  split
  · exact runAt_text _ _ _ _
  split
  · next isQuote =>
    rw [beq_iff_eq.1 isQuote]
    exact quotedAt_text cs
  split
  · exact runAt_text _ _ _ _
  · exact markAt_text c cs

theorem next_text_ne_nil (c : Char) (cs : List Char) : (next c cs).1.text ≠ [] := by
  intro isEmpty
  have whole := congrArg List.length (next_text c cs)
  have shorter := next_rest_length_le c cs
  simp only [isEmpty, List.nil_append, List.length_cons] at whole
  omega

theorem flatMap_text_collect (found : List Lexeme) (cs : List Char)
    : (collect found cs).reverse.flatMap text = found.reverse.flatMap text ++ cs := by
  fun_induction collect found cs with
  | case1 found => simp
  | case2 found c cs ih =>
    rw [ih, ← next_text c cs]
    simp

/-- The lexemes of a text, put together, are the text. -/
theorem flatMap_text_ofText (cs : List Char) : (ofText cs).flatMap text = cs := by
  simpa [ofText] using flatMap_text_collect [] cs

theorem text_ne_nil_of_mem_collect (found : List Lexeme) (cs : List Char)
    (nonempty : ∀ lexeme ∈ found, lexeme.text ≠ [])
    : ∀ lexeme ∈ collect found cs, lexeme.text ≠ [] := by
  fun_induction collect found cs with
  | case1 found => exact nonempty
  | case2 found c cs ih =>
    refine ih ?_
    intro lexeme member
    rcases List.mem_cons.1 member with rfl | member
    · exact next_text_ne_nil c cs
    · exact nonempty lexeme member

/-- No lexeme of a text is empty. -/
theorem text_ne_nil_of_mem_ofText {cs : List Char} {lexeme : Lexeme}
    (member : lexeme ∈ ofText cs)
    : lexeme.text ≠ [] :=
  text_ne_nil_of_mem_collect [] cs (by simp) lexeme (List.mem_reverse.1 member)

end Lexeme

end RecordSynth.Source
