import Mathlib.Data.List.Chain
import Mathlib.Data.List.TakeWhile
import RecordSynth.Proofs.Source.Lexing
import RecordSynth.Source.Tiling

/-! What keeps the lexemes of a text apart. Each one is found before any text that does not
continue it, and no lexeme of a text continues the one before it. These two facts determine the
lexemes of a text; where pieces stay apart, the text that they are written as has one for each.
-/

namespace RecordSynth.Source

/-- Whether the character does not continue a lexeme of the shape. -/
def Shape.stops : Shape → Char → Bool
  | .blank, c => !isBlank c
  | .comment, c => c == '\n'
  | .word, c => !isWordPart c
  | .digits, c => !c.isDigit
  | .mark .assign, c => c != '='
  | _, _ => true

/-- Whether a lexeme of the shape is no fault. -/
def Shape.isSound : Shape → Bool
  | .unclosed => false
  | .stray => false
  | _ => true

namespace Lexeme

/-- The lexeme is found before any text whose first character does not continue it. -/
def Stands (l : Lexeme) : Prop :=
  ∀ rest : List Char, (∀ d ∈ rest.head?, l.shape.stops d = true) →
    ∃ c cs, l.text = c :: cs ∧ next c (cs ++ rest) = (l, rest)

/-- The second lexeme does not continue the first one. -/
def Apart (l l' : Lexeme) : Prop :=
  ∀ c ∈ l'.text.head?, l.shape.stops c = true

-----------------------------------------------------------------------------------------
-- A lexeme that is found stands
-----------------------------------------------------------------------------------------

section Stands

/-- A run is found as long as what follows it does not satisfy its test. -/
theorem stands_run {shape : Shape} {p : Char → Bool} {c : Char} {cs : List Char}
    (begins : ∀ rest, next c (cs.takeWhile p ++ rest) = runAt shape p c (cs.takeWhile p ++ rest))
    (stop : ∀ d, shape.stops d = true → p d = false)
    : (runAt shape p c cs).1.Stands := by
  intro rest stops
  refine ⟨c, cs.takeWhile p, rfl, ?_⟩
  rw [begins]
  exact runAt_stops (fun d member => List.mem_takeWhile_imp member)
    (fun d head => stop d (stops d head))

theorem stops_lexemeOf (p : Piece) (c : Char) : (lexemeOf p).shape.stops c = Source.stops p c := by
  rcases p with _ | t
  · rfl
  · cases t with
    | mark m => cases m <;> rfl
    | _ => rfl

/-- The lexemes of pieces that can be written stand. -/
theorem stands_lexemeOf {p : Piece} (writable : ∀ t ∈ p, t.Writable) : (lexemeOf p).Stands := by
  intro rest stop
  refine next_lexemeOf writable ?_
  intro d head
  rw [← stops_lexemeOf]
  exact stop d head

theorem stands_mark (m : Mark) : (Token.mark m).lexeme.Stands :=
  stands_lexemeOf (p := some (.mark m)) fun _ isMark => Option.some.inj isMark ▸ trivial

theorem stands_word {cs : List Char} (word : isWord cs = true) : Stands ⟨.word, cs⟩ := by
  intro rest stops
  refine next_word word ?_
  simpa [Shape.stops] using stops

theorem le_elementCount (n : Nat) (cs : List Char) : n ≤ elementCount n cs := by
  fun_induction elementCount n cs <;> omega

/-- What is counted up to a quote are elements, by recursion on the elements. -/
theorem elements_of_count {n : Nat} {body rest : List Char}
    (count : elementCount n (body ++ '"' :: rest) = n + body.length)
    : Elements body := by
  cases body with
  | nil => exact .nil
  | cons c more =>
      by_cases isBackslash : c = '\\'
      · subst isBackslash
        cases more with
        | nil =>
            -- The quote would be escaped, and so be an element.
            have escapes := elementCount_escape (d := '"') (by decide) n rest
            have counted := le_elementCount (n + 2) rest
            rw [List.cons_append, List.nil_append, escapes] at count
            rw [count, List.length_singleton] at counted
            omega
        | cons d more' =>
            by_cases isNewline : d = '\n'
            · simp [isNewline, elementCount] at count
            · rw [List.cons_append, List.cons_append, elementCount_escape isNewline] at count
              rw [List.length_cons, List.length_cons] at count
              exact .escape isNewline (@elements_of_count (n + 2) more' rest (by omega))
      · by_cases isEnd : c = '"' ∨ c = '\n'
        · -- The body would end here.
          have none : elementCount n (c :: (more ++ '"' :: rest)) = n := by
            cases more <;> rcases isEnd with rfl | rfl <;> rfl
          rw [List.cons_append, none, List.length_cons] at count
          omega
        · obtain ⟨notQuote, notNewline⟩ := not_or.mp isEnd
          rw [List.cons_append, elementCount_plain isBackslash notQuote notNewline] at count
          rw [List.length_cons] at count
          have others := @elements_of_count (n + 1) more rest (by omega)
          exact .plain isBackslash notQuote notNewline others
termination_by body.length

/-- A string literal that is closed has its quote behind its elements. -/
theorem exists_body {cs : List Char} (sound : (quotedAt cs).1.shape.isSound = true)
    : ∃ body rest, cs = body ++ '"' :: rest ∧ Elements body := by
  have whole := List.take_append_drop (elementCount 0 cs) cs
  have length := congrArg List.length whole
  simp only [quotedAt] at sound
  split at sound
  · next rest close =>
    rw [close] at whole length
    rw [List.length_append, List.length_cons] at length
    refine ⟨cs.take (elementCount 0 cs), rest, whole.symm, ?_⟩
    refine @elements_of_count 0 _ rest ?_
    rw [List.length_take] at length ⊢
    rw [whole]
    omega
  · cases sound

/-- A string literal is found whatever follows its closing quote. -/
theorem stands_quoted {cs : List Char} (sound : (quotedAt cs).1.shape.isSound = true)
    : (quotedAt cs).1.Stands := by
  obtain ⟨body, rest, rfl, elements⟩ := exists_body sound
  rw [elements.quotedAt]
  intro rest' _
  refine ⟨'"', body ++ ['"'], rfl, ?_⟩
  rw [List.append_assoc]
  exact elements.quotedAt rest'

theorem stands_markAt {c : Char} {cs : List Char} (sound : (markAt c cs).1.shape.isSound = true)
    : (markAt c cs).1.Stands := by
  unfold markAt at sound ⊢
  split
  · exact stands_mark .equal
  · exact stands_mark .notEqual
  · exact stands_mark .assign
  · exact stands_mark .parenOpen
  · exact stands_mark .parenClose
  · exact stands_mark .braceOpen
  · exact stands_mark .braceClose
  · exact stands_mark .comma
  · exact stands_mark .dot
  · exact stands_mark .semicolon
  · simp_all [Shape.isSound]

/-- The first lexeme of a text stands, unless it is a fault. -/
theorem stands_next {c : Char} {cs : List Char} (sound : (next c cs).1.shape.isSound = true)
    : (next c cs).1.Stands := by
  unfold next at sound ⊢
  split
  · next blank =>
    refine stands_run ?_ ?_
    · intro rest
      simp [next, blank]
    · intro d stop
      simpa [Shape.stops] using stop
  next notBlank =>
  split
  · next start =>
    refine stands_run ?_ ?_
    · intro rest
      simp [next, notBlank, start]
    · intro d stop
      simpa [Shape.stops] using stop
  next notStart =>
  split
  · next digit =>
    refine stands_run ?_ ?_
    · intro rest
      simp [next, notBlank, notStart, digit]
    · intro d stop
      simpa [Shape.stops] using stop
  next notDigit =>
  rw [if_neg notBlank, if_neg notStart, if_neg notDigit] at sound
  split
  · next isQuote =>
    rw [if_pos isQuote] at sound
    exact stands_quoted sound
  next notQuote =>
  rw [if_neg notQuote] at sound
  split
  · next slashes =>
    refine stands_run ?_ ?_
    · intro rest
      -- The second slash is part of the run, so the run is begun as a comment again.
      have again : (cs.takeWhile (· != '\n') ++ rest).head? = some '/' := by
        rcases cs with _ | ⟨d, more⟩
        · simp at slashes
        · obtain ⟨_, rfl⟩ : c = '/' ∧ d = '/' := by simpa using slashes
          rfl
      rw [Bool.and_eq_true] at slashes
      simp [next, notBlank, notStart, notDigit, notQuote, again, slashes.1]
    · intro d stop
      simpa [Shape.stops] using stop
  · next noComment =>
    rw [if_neg noComment] at sound
    exact stands_markAt sound

end Stands

-----------------------------------------------------------------------------------------
-- The lexemes of a text stand apart
-----------------------------------------------------------------------------------------

section Apart

/-- A run goes on as long as its test is satisfied. -/
theorem stops_run {shape : Shape} {p : Char → Bool} {c : Char} {cs : List Char}
    (stop : ∀ d, p d = false → shape.stops d = true)
    : ∀ d ∈ (runAt shape p c cs).2.head?, (runAt shape p c cs).1.shape.stops d = true := by
  intro d head
  have fails := List.head?_dropWhile_not p cs
  rw [runAt] at head
  rw [Option.mem_def.mp head] at fails
  exact stop d (by simpa using fails)

theorem stops_markAt (c : Char) (cs : List Char)
    : ∀ d ∈ (markAt c cs).2.head?, (markAt c cs).1.shape.stops d = true := by
  unfold markAt
  split
  · exact fun _ _ => rfl
  · exact fun _ _ => rfl
  · next notEqual =>
    -- With another equals sign it would have been another mark.
    intro d head
    refine bne_iff_ne.mpr ?_
    rintro rfl
    obtain ⟨more, isEqual⟩ := List.head?_eq_some_iff.mp head
    exact notEqual more isEqual
  all_goals exact fun _ _ => rfl

/-- What follows the first lexeme of a text does not continue it. -/
theorem stops_next (c : Char) (cs : List Char)
    : ∀ d ∈ (next c cs).2.head?, (next c cs).1.shape.stops d = true := by
  unfold next
  split
  · exact stops_run (fun d fails => by simp [Shape.stops, fails])
  split
  · exact stops_run (fun d fails => by simp [Shape.stops, fails])
  split
  · exact stops_run (fun d fails => by simp [Shape.stops, fails])
  split
  · intro d _
    simp only [quotedAt]
    split <;> rfl
  split
  · exact stops_run (fun d fails => by simpa [Shape.stops] using fails)
  · exact stops_markAt c cs

/-- The characters of a text begin like its first lexeme. -/
theorem head?_ofText {cs : List Char} {l : Lexeme} {more : List Lexeme}
    (h : ofText cs = l :: more)
    : l.text.head? = cs.head? := by
  have tiles := flatMap_text_ofText cs
  have nonempty : l.text ≠ [] := text_ne_nil_of_mem_ofText (h ▸ List.mem_cons_self)
  rw [h, List.flatMap_cons] at tiles
  rw [← tiles, List.head?_append_of_ne_nil _ nonempty]

/-- No lexeme of a text continues the one before it, by recursion on the text. -/
theorem chain_ofText (cs : List Char) : (ofText cs).IsChain Apart := by
  cases cs with
  | nil => simp [ofText, collect]
  | cons c more =>
      rw [ofText_cons (rfl : next c more = ((next c more).1, (next c more).2))]
      have shorter := next_rest_length_le c more
      refine List.isChain_cons.mpr ⟨?_, chain_ofText (next c more).2⟩
      intro l' second d head
      obtain ⟨_, rest⟩ := List.head?_eq_some_iff.mp second
      rw [head?_ofText rest] at head
      exact stops_next c more d head
termination_by cs.length

/-- Each lexeme that is found is the first one of some text. -/
theorem exists_next {found : List Lexeme} {cs : List Char} {l : Lexeme}
    (member : l ∈ collect found cs)
    : l ∈ found ∨ ∃ c more, l = (next c more).1 := by
  fun_induction collect found cs with
  | case1 found => exact Or.inl member
  | case2 found c cs ih =>
      rcases ih member with now | later
      · rcases List.mem_cons.mp now with rfl | before
        · exact Or.inr ⟨c, cs, rfl⟩
        · exact Or.inl before
      · exact Or.inr later

theorem stands_of_mem_ofText {cs : List Char} {l : Lexeme} (member : l ∈ ofText cs)
    (sound : l.shape.isSound = true)
    : l.Stands := by
  rcases exists_next (List.mem_reverse.mp member) with none | ⟨c, more, rfl⟩
  · cases none
  · exact stands_next sound

/-- Lexemes that stand apart are the lexemes of their text, by induction on them. -/
theorem ofText_flatMap_text {ls : List Lexeme} (chain : ls.IsChain Apart)
    (stands : ∀ l ∈ ls, l.Stands)
    : ofText (ls.flatMap text) = ls := by
  induction ls with
  | nil => simp [ofText, collect]
  | cons l more ih =>
      obtain ⟨apart, moreChain⟩ := List.isChain_cons.mp chain
      have moreStands : ∀ l' ∈ more, l'.Stands :=
        fun l' member => stands l' (List.mem_cons_of_mem l member)
      have stop : ∀ d ∈ (more.flatMap text).head?, l.shape.stops d = true := by
        cases more with
        | nil => simp
        | cons l' rest =>
            obtain ⟨c, cs, text, _⟩ := moreStands l' List.mem_cons_self [] (by simp)
            have heads := apart l' rfl
            rw [Apart, text] at heads
            rw [List.flatMap_cons, text, List.cons_append, List.head?_cons]
            exact heads
      obtain ⟨c, cs, text, first⟩ := stands l List.mem_cons_self _ stop
      rw [List.flatMap_cons, text, List.cons_append, ofText_cons first, ih moreChain moreStands]

end Apart

end Lexeme

-----------------------------------------------------------------------------------------
-- Written texts
-----------------------------------------------------------------------------------------

section Written

variable {pieces : List Piece}

/-- The lexemes of a written text are one for each piece. -/
theorem ofText_pieces (chain : pieces.IsChain (fun a b => parted a b = true))
    (writable : ∀ t, some t ∈ pieces → t.Writable)
    : Lexeme.ofText (pieces.flatMap fun p => (lexemeOf p).text) = pieces.map lexemeOf := by
  have allWritable : ∀ p ∈ pieces, ∀ t ∈ p, t.Writable :=
    fun p member t isToken => writable t (isToken ▸ member)
  rw [← List.flatMap_map]
  refine Lexeme.ofText_flatMap_text ?_ ?_
  · rw [List.isChain_map]
    refine List.IsChain.imp_of_mem_imp ?_ chain
    intro p q _ inPieces apart c head
    rw [Lexeme.stops_lexemeOf]
    exact stops_of_parted (allWritable q inPieces) apart c head
  · intro _ member
    obtain ⟨p, inPieces, rfl⟩ := List.mem_map.mp member
    exact Lexeme.stands_lexemeOf (allWritable p inPieces)

/-- A written text has the tokens of its pieces. -/
theorem ofText_textOf (chain : pieces.IsChain (fun a b => parted a b = true))
    (writable : ∀ t, some t ∈ pieces → t.Writable)
    : ∃ ts, PlacedToken.ofText (textOf pieces) = .ok ts
        ∧ ts.map PlacedToken.token = pieces.reduceOption := by
  obtain ⟨ts, collected, kinds⟩ := collect_pieces writable 0 []
  rw [List.append_nil] at collected
  refine ⟨ts, ?_, kinds⟩
  rw [PlacedToken.ofText, textOf, String.toList_ofList, ofText_pieces chain writable, collected]
  simp [bind, Except.bind, pure, Except.pure]

end Written

end RecordSynth.Source
