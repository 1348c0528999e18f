import RecordSynth.Proofs.Source.Digits
import RecordSynth.Proofs.Source.Writing

/-! Lexing finds the pieces of a written text: where pieces stay apart, each one is the next lexeme
of the text that begins with it, and spells the piece's token.
-/

namespace RecordSynth.Source

/-- Characters of a word: one that begins a word, and others that continue it. -/
def isWord : List Char → Bool
  | [] => false
  | c :: cs => isWordStart c && cs.all isWordPart

/-- A name that is a word and no keyword. -/
structure IsFreeWord (name : String) : Prop where
  word : isWord name.toList = true
  free : Keyword.ofSpelling? name = none

instance (name : String) : Decidable (IsFreeWord name) :=
  decidable_of_iff (isWord name.toList = true ∧ Keyword.ofSpelling? name = none)
    ⟨fun h => ⟨h.1, h.2⟩, fun h => ⟨h.1, h.2⟩⟩

/-- How a character of a text is written in a string literal. -/
def escaped (c : Char) : List Char :=
  if c = '\\' then ['\\', '\\']
  else if c = '"' then ['\\', '"']
  else if c = '\n' then ['\\', 'n']
  else [c]

/-- The lexeme that a token is written as. -/
def Token.lexeme : Token → Lexeme
  | .keyword word => ⟨.word, word.spelling.toList⟩
  | .mark m => ⟨.mark m, m.spelling.toList⟩
  | .ident name => ⟨.word, name.toList⟩
  | .int n => ⟨.digits, Nat.toDigits 10 n.toNatClampNeg⟩
  | .str text => ⟨.quoted, '"' :: (text.toList.flatMap escaped ++ ['"'])⟩

/-- The lexeme that a piece is written as. -/
def lexemeOf : Piece → Lexeme
  | none => ⟨.blank, [' ']⟩
  | some t => t.lexeme

/-- The text that pieces are written as. -/
def textOf (pieces : List Piece) : String :=
  String.ofList (pieces.flatMap fun p => (lexemeOf p).text)

/-- Identifiers are words and no keywords, and integers have no sign. -/
def Token.Writable : Token → Prop
  | .ident name => IsFreeWord name
  | .int n => 0 ≤ n
  | _ => True

-----------------------------------------------------------------------------------------
-- Kinds of characters
-----------------------------------------------------------------------------------------

section Characters

theorem isWordStart_of_isWord {c : Char} {cs : List Char} (h : isWord (c :: cs) = true)
    : isWordStart c = true ∧ ∀ d ∈ cs, isWordPart d = true := by
  simpa [isWord] using h

theorem isBlank_of_isWordStart {c : Char} (h : isWordStart c = true) : isBlank c = false := by
  by_contra blank
  simp only [isBlank, Bool.not_eq_false, Bool.or_eq_true, beq_iff_eq] at blank
  rcases blank with ((rfl | rfl) | rfl) | rfl <;> revert h <;> decide

theorem isBlank_of_isDigit {c : Char} (h : c.isDigit = true) : isBlank c = false := by
  by_contra blank
  simp only [isBlank, Bool.not_eq_false, Bool.or_eq_true, beq_iff_eq] at blank
  rcases blank with ((rfl | rfl) | rfl) | rfl <;> revert h <;> decide

/-- All letters come after the digits. -/
theorem le_toNat_of_isAlpha {c : Char} (h : c.isAlpha = true) : 'A'.toNat ≤ c.toNat := by
  rcases (Bool.or_eq_true _ _).mp h with upper | lower
  · exact UInt32.le_iff_toNat_le.mp (of_decide_eq_true upper).1
  · have letters := of_decide_eq_true ((Bool.and_eq_true _ _).mp lower).1
    have small : 'a'.toNat ≤ c.toNat := UInt32.le_iff_toNat_le.mp letters
    exact Nat.le_trans (by decide) small

/-- No digit begins a word. -/
theorem isWordStart_of_isDigit {c : Char} (h : c.isDigit = true) : isWordStart c = false := by
  by_contra start
  simp only [isWordStart, Bool.not_eq_false, Bool.or_eq_true, beq_iff_eq] at start
  rcases start with alpha | rfl
  · have digit : c.toNat ≤ '9'.toNat := (Char.isDigit_iff_toNat.mp h).2
    exact absurd (Nat.le_trans (le_toNat_of_isAlpha alpha) digit) (by decide)
  · revert h
    decide

end Characters

-----------------------------------------------------------------------------------------
-- String literals
-----------------------------------------------------------------------------------------

section Strings

/-- A character is written as an escape of itself, or as itself where that is plain. -/
theorem escaped_cases (c : Char)
    : (∃ d, escaped c = ['\\', d] ∧ d ≠ '\n' ∧ escape? d = some c)
      ∨ (escaped c = [c] ∧ c ≠ '\\' ∧ c ≠ '"' ∧ c ≠ '\n') := by
  unfold escaped
  split
  · next isBackslash => exact Or.inl ⟨_, rfl, by decide, by rw [isBackslash]; rfl⟩
  split
  · next isQuote => exact Or.inl ⟨_, rfl, by decide, by rw [isQuote]; rfl⟩
  split
  · next isNewline => exact Or.inl ⟨_, rfl, by decide, by rw [isNewline]; rfl⟩
  · next notBackslash notQuote notNewline =>
    exact Or.inr ⟨rfl, notBackslash, notQuote, notNewline⟩

theorem elementCount_escape {d : Char} (notNewline : d ≠ '\n') (n : Nat) (cs : List Char)
    : Lexeme.elementCount n ('\\' :: d :: cs) = Lexeme.elementCount (n + 2) cs := by
  simp [Lexeme.elementCount, notNewline]

theorem elementCount_plain {c : Char} (notBackslash : c ≠ '\\') (notQuote : c ≠ '"')
    (notNewline : c ≠ '\n') (n : Nat) (cs : List Char)
    : Lexeme.elementCount n (c :: cs) = Lexeme.elementCount (n + 1) cs := by
  cases cs with
  | nil => simp [Lexeme.elementCount, notBackslash, notQuote, notNewline]
  | cons d more => simp [Lexeme.elementCount, notBackslash, notQuote, notNewline]

/-- The characters are elements of a string literal, one after the other. A backslash begins an
element and has another character behind it, which is no line feed.
-/
inductive Elements : List Char → Prop
  | nil : Elements []
  | plain {c : Char} {cs : List Char} (notBackslash : c ≠ '\\') (notQuote : c ≠ '"')
    (notNewline : c ≠ '\n') (more : Elements cs)
    : Elements (c :: cs)
  | escape {d : Char} {cs : List Char} (notNewline : d ≠ '\n') (more : Elements cs)
    : Elements ('\\' :: d :: cs)

/-- Elements are counted up to the quote that closes the literal, by induction on them. -/
theorem Elements.count {body : List Char} (elements : Elements body) (n : Nat) (rest : List Char)
    : Lexeme.elementCount n (body ++ '"' :: rest) = n + body.length := by
  induction elements generalizing n with
  | nil => cases rest <;> rfl
  | plain notBackslash notQuote notNewline _ ih =>
      rw [List.cons_append, elementCount_plain notBackslash notQuote notNewline, ih]
      exact Nat.add_right_comm n 1 _
  | escape notNewline _ ih =>
      rw [List.cons_append, List.cons_append, elementCount_escape notNewline, ih]
      exact Nat.add_right_comm n 2 _

/-- A string literal ends with the quote behind its elements. -/
theorem Elements.quotedAt {body : List Char} (elements : Elements body) (rest : List Char)
    : Lexeme.quotedAt (body ++ '"' :: rest) = (⟨.quoted, '"' :: (body ++ ['"'])⟩, rest) := by
  have count := elements.count 0 rest
  rw [Nat.zero_add] at count
  simp only [Lexeme.quotedAt, count, List.drop_left, List.take_left]

/-- An element of a string literal that stands for the character: the character itself, unless it is
a backslash, a quote or a line feed, or an escape.
-/
inductive ElementFor (c : Char) : List Char → Prop
  | plain (notBackslash : c ≠ '\\') (notQuote : c ≠ '"') (notNewline : c ≠ '\n')
    : ElementFor c [c]
  | escape {d : Char} (isEscape : escape? d = some c) : ElementFor c ['\\', d]

theorem elements_of_forall₂ {cs : List Char} {elements : List (List Char)}
    (isText : List.Forall₂ ElementFor cs elements)
    : Elements elements.flatten := by
  induction isText with
  | nil => exact .nil
  | cons first _ ih =>
      cases first with
      | plain notBackslash notQuote notNewline => exact .plain notBackslash notQuote notNewline ih
      | @escape d isEscape =>
          refine .escape ?_ ih
          rintro rfl
          cases isEscape

theorem elementFor_escaped (c : Char) : ElementFor c (escaped c) := by
  rcases escaped_cases c with ⟨d, written, _, isEscape⟩ | ⟨written, notBackslash, notQuote, rest⟩
  · rw [written]
    exact .escape isEscape
  · rw [written]
    exact .plain notBackslash notQuote rest

theorem elementsFor_escaped (cs : List Char) : List.Forall₂ ElementFor cs (cs.map escaped) :=
  List.forall₂_map_right_iff.mpr (List.forall₂_same.mpr fun c _ => elementFor_escaped c)

theorem quotedAt_escaped (cs rest : List Char)
    : Lexeme.quotedAt (cs.flatMap escaped ++ '"' :: rest)
      = (⟨.quoted, '"' :: (cs.flatMap escaped ++ ['"'])⟩, rest) :=
  (elements_of_forall₂ (elementsFor_escaped cs)).quotedAt rest

theorem unescapeFrom_escape {c d : Char} (isEscape : escape? d = some c) (done cs : List Char)
    : unescapeFrom done ('\\' :: d :: cs) = unescapeFrom (c :: done) cs := by
  simp [unescapeFrom, isEscape]

theorem unescapeFrom_plain {c : Char} (notBackslash : c ≠ '\\') (done cs : List Char)
    : unescapeFrom done (c :: cs) = unescapeFrom (c :: done) cs := by
  cases cs with
  | nil => rfl
  | cons d more => simp [unescapeFrom, notBackslash]

/-- Elements of a string literal are read as the text that they stand for, by induction on it. -/
theorem unescapeFrom_elements {cs : List Char} {elements : List (List Char)}
    (isText : List.Forall₂ ElementFor cs elements) (done : List Char)
    : unescapeFrom done elements.flatten = .ok (done.reverse ++ cs) := by
  induction isText generalizing done with
  | nil => simp [unescapeFrom]
  | cons first _ ih =>
      rw [List.flatten_cons]
      cases first with
      | escape isEscape =>
          simp only [List.cons_append, List.nil_append]
          rw [unescapeFrom_escape isEscape, ih, List.reverse_cons, List.append_assoc,
            List.singleton_append]
      | plain notBackslash _ _ =>
          simp only [List.cons_append, List.nil_append]
          rw [unescapeFrom_plain notBackslash, ih, List.reverse_cons, List.append_assoc,
            List.singleton_append]

/-- The literal of a text stands for the text. -/
theorem unescapeFrom_escaped (done cs : List Char)
    : unescapeFrom done (cs.flatMap escaped) = .ok (done.reverse ++ cs) :=
  unescapeFrom_elements (elementsFor_escaped cs) done

end Strings

-----------------------------------------------------------------------------------------
-- Lexemes of pieces that stay apart
-----------------------------------------------------------------------------------------

section Lexemes

/-- Whether the character does not continue the lexeme of a piece. -/
def stops : Piece → Char → Bool
  | none, c => !isBlank c
  | some (.keyword _), c => !isWordPart c
  | some (.ident _), c => !isWordPart c
  | some (.int _), c => !c.isDigit
  | some (.mark m), c => m != .assign || c != '='
  | some (.str _), _ => true

theorem runAt_stops {shape : Shape} {p : Char → Bool} {c : Char} {cs rest : List Char}
    (run : ∀ d ∈ cs, p d = true) (stop : ∀ d ∈ rest.head?, p d = false)
    : Lexeme.runAt shape p c (cs ++ rest) = (⟨shape, c :: cs⟩, rest) := by
  rw [Lexeme.runAt, List.takeWhile_append_of_pos run, List.dropWhile_append_of_pos run]
  cases rest with
  | nil => simp
  | cons d more => simp [stop d rfl]

theorem next_word {cs rest : List Char} (word : isWord cs = true)
    (stop : ∀ d ∈ rest.head?, isWordPart d = false)
    : ∃ c more, cs = c :: more ∧ Lexeme.next c (more ++ rest) = (⟨.word, cs⟩, rest) := by
  cases cs with
  | nil => cases word
  | cons c more =>
      obtain ⟨start, run⟩ := isWordStart_of_isWord word
      refine ⟨c, more, rfl, ?_⟩
      unfold Lexeme.next
      simp only [isBlank_of_isWordStart start, start, Bool.false_eq_true, ↓reduceIte]
      exact runAt_stops run stop

theorem next_digits {n : Nat} {rest : List Char}
    (stop : ∀ d ∈ rest.head?, Char.isDigit d = false)
    : ∃ c more, Nat.toDigits 10 n = c :: more
      ∧ Lexeme.next c (more ++ rest) = (⟨.digits, Nat.toDigits 10 n⟩, rest) := by
  have digits : ∀ d ∈ Nat.toDigits 10 n, d.isDigit = true :=
    fun d member => Nat.isDigit_of_mem_toDigits (by decide) (by decide) member
  cases isDigits : Nat.toDigits 10 n with
  | nil => exact absurd isDigits Nat.toDigits_ne_nil
  | cons c more =>
      rw [isDigits] at digits
      have first := digits c List.mem_cons_self
      refine ⟨c, more, rfl, ?_⟩
      unfold Lexeme.next
      simp only [isBlank_of_isDigit first, isWordStart_of_isDigit first, first,
        Bool.false_eq_true, ↓reduceIte]
      exact runAt_stops (fun d member => digits d (List.mem_cons_of_mem c member)) stop

theorem isWord_spelling (word : Keyword) : isWord word.spelling.toList = true := by
  cases word <;> decide

/-- A piece is the next lexeme of a text that begins with it, if the text behind it does not
continue it.
-/
theorem next_lexemeOf {p : Piece} {rest : List Char} (writable : ∀ t ∈ p, t.Writable)
    (stop : ∀ d ∈ rest.head?, stops p d = true)
    : ∃ c cs, (lexemeOf p).text = c :: cs ∧ Lexeme.next c (cs ++ rest) = (lexemeOf p, rest) := by
  cases p with
  | none =>
      refine ⟨' ', [], rfl, runAt_stops (p := isBlank) nofun ?_⟩
      simpa only [stops, Bool.not_eq_true'] using stop
  | some t =>
      cases t with
      | keyword word =>
          refine next_word (isWord_spelling word) ?_
          simpa only [stops, Bool.not_eq_true'] using stop
      | ident name =>
          have free : IsFreeWord name := writable _ rfl
          refine next_word free.word ?_
          simpa only [stops, Bool.not_eq_true'] using stop
      | int n =>
          refine next_digits ?_
          simpa only [stops, Bool.not_eq_true'] using stop
      | str text =>
          refine ⟨'"', text.toList.flatMap escaped ++ ['"'], rfl, ?_⟩
          rw [List.append_assoc]
          exact quotedAt_escaped text.toList rest
      | mark m =>
          cases m with
          | assign =>
              refine ⟨'=', [], rfl, ?_⟩
              cases rest with
              | nil => rfl
              | cons d more =>
                  have notEqual : d ≠ '=' := bne_iff_ne.mp (stop d rfl)
                  -- Of the marks, only the equals sign can go on.
                  show Lexeme.markAt '=' (d :: more) = _
                  unfold Lexeme.markAt
                  split
                  · next same => exact absurd (List.cons.inj same).1 notEqual
                  all_goals first | rfl | contradiction
          | parenOpen => exact ⟨'(', [], rfl, rfl⟩
          | parenClose => exact ⟨')', [], rfl, rfl⟩
          | braceOpen => exact ⟨'\x7b', [], rfl, rfl⟩
          | braceClose => exact ⟨'\x7d', [], rfl, rfl⟩
          | comma => exact ⟨',', [], rfl, rfl⟩
          | dot => exact ⟨'.', [], rfl, rfl⟩
          | semicolon => exact ⟨';', [], rfl, rfl⟩
          | equal => exact ⟨'=', ['='], rfl, rfl⟩
          | notEqual => exact ⟨'!', ['='], rfl, rfl⟩

theorem head_isWord {cs : List Char} (word : isWord cs = true)
    : ∀ c ∈ cs.head?, isWordStart c = true := by
  cases cs with
  | nil => exact nofun
  | cons c more =>
      rintro _ ⟨⟩
      exact (isWordStart_of_isWord word).1

theorem head_toDigits (n : Nat) : ∀ c ∈ (Nat.toDigits 10 n).head?, c.isDigit = true :=
  fun _ member =>
    Nat.isDigit_of_mem_toDigits (by decide) (by decide) (List.mem_of_mem_head? member)

/-- How the text of a piece begins. -/
theorem head_lexemeOf {q : Piece} (writable : ∀ t ∈ q, t.Writable)
    : ∀ c ∈ (lexemeOf q).text.head?,
        (q = none ∧ c = ' ')
        ∨ (∃ t, q = some t ∧ t.isWord = true ∧ isWordStart c = true)
        ∨ (∃ t, q = some t ∧ t.isInt = true ∧ c.isDigit = true)
        ∨ (∃ text, q = some (.str text) ∧ c = '"')
        ∨ (∃ m, q = some (.mark m) ∧ some c = m.spelling.toList.head?) := by
  intro c head
  cases q with
  | none =>
      cases head
      exact Or.inl ⟨rfl, rfl⟩
  | some t =>
      cases t with
      | keyword word =>
          exact Or.inr (Or.inl ⟨_, rfl, rfl, head_isWord (isWord_spelling word) c head⟩)
      | ident name =>
          have free : IsFreeWord name := writable _ rfl
          exact Or.inr (Or.inl ⟨_, rfl, rfl, head_isWord free.word c head⟩)
      | int n => exact Or.inr (Or.inr (Or.inl ⟨_, rfl, rfl, head_toDigits _ c head⟩))
      | str text =>
          cases head
          exact Or.inr (Or.inr (Or.inr (Or.inl ⟨text, rfl, rfl⟩)))
      | mark m => exact Or.inr (Or.inr (Or.inr (Or.inr ⟨m, rfl, head.symm⟩)))

/-- A character stops every piece that begins with none like it. -/
theorem stops_of_classes {p : Piece} {c : Char} (blank : p = none → isBlank c = false)
    (word : ∀ t, p = some t → t.isWord = true → isWordPart c = false)
    (int : ∀ t, p = some t → t.isInt = true → c.isDigit = false)
    (assign : p = some (.mark .assign) → c ≠ '=')
    : stops p c = true := by
  cases p with
  | none => simp only [stops, blank rfl, Bool.not_false]
  | some t =>
      cases t with
      | keyword k => simp only [stops, word _ rfl rfl, Bool.not_false]
      | ident name => simp only [stops, word _ rfl rfl, Bool.not_false]
      | int n => simp only [stops, int _ rfl rfl, Bool.not_false]
      | str text => rfl
      | mark m =>
          cases m with
          | assign => exact bne_iff_ne.mpr (assign rfl)
          | _ => rfl

theorem isWordStart_class {c : Char} (start : isWordStart c = true)
    : isBlank c = false ∧ c.isDigit = false ∧ c ≠ '=' := by
  refine ⟨isBlank_of_isWordStart start, ?_, ?_⟩
  · by_contra digit
    rw [Bool.not_eq_false] at digit
    rw [isWordStart_of_isDigit digit] at start
    cases start
  · rintro rfl
    revert start
    decide

theorem isDigit_class {c : Char} (digit : c.isDigit = true)
    : isBlank c = false ∧ c ≠ '=' := by
  refine ⟨isBlank_of_isDigit digit, ?_⟩
  rintro rfl
  revert digit
  decide

theorem mark_class (m : Mark)
    : ∀ c ∈ m.spelling.toList.head?,
        isBlank c = false ∧ isWordPart c = false ∧ c.isDigit = false
        ∧ (m ≠ .assign → m ≠ .equal → c ≠ '=') := by
  intro c head
  cases m <;> cases head <;> decide

/-- Where pieces stay apart, the second one's text does not continue the first. -/
theorem stops_of_parted {p q : Piece} (writable : ∀ t ∈ q, t.Writable)
    (apart : parted p q = true)
    : ∀ c ∈ (lexemeOf q).text.head?, stops p c = true := by
  intro c head
  rcases head_lexemeOf writable c head with
    ⟨rfl, rfl⟩ | ⟨t, rfl, word, start⟩ | ⟨t, rfl, int, digit⟩ | ⟨text, rfl, rfl⟩
      | ⟨m, rfl, spelled⟩
  · refine stops_of_classes ?_ (fun _ _ _ => by decide) (fun _ _ _ => by decide)
      (fun _ => by decide)
    rintro rfl
    cases apart
  · obtain ⟨notBlank, notDigit, notEqual⟩ := isWordStart_class start
    refine stops_of_classes (fun _ => notBlank) ?_ (fun _ _ _ => notDigit) (fun _ => notEqual)
    rintro s rfl isWord
    simp [parted, isWord, word] at apart
  · obtain ⟨notBlank, notEqual⟩ := isDigit_class digit
    refine stops_of_classes (fun _ => notBlank) ?_ ?_ (fun _ => notEqual)
    · rintro s rfl isWord
      simp [parted, isWord, int] at apart
    · rintro s rfl isInt
      simp [parted, isInt, int] at apart
  · exact stops_of_classes (fun _ => by decide) (fun _ _ _ => by decide) (fun _ _ _ => by decide)
      (fun _ => by decide)
  · obtain ⟨notBlank, notPart, notDigit, notEqual⟩ := mark_class m c spelled.symm
    refine stops_of_classes (fun _ => notBlank) (fun _ _ _ => notPart) (fun _ _ _ => notDigit) ?_
    rintro rfl
    refine notEqual ?_ ?_
    · rintro rfl
      revert apart
      decide
    · rintro rfl
      revert apart
      decide

/-- Lexemes found before stay in front, by the recursion of the collection. -/
theorem collect_append (found before : List Lexeme) (cs : List Char)
    : Lexeme.collect (found ++ before) cs = Lexeme.collect found cs ++ before := by
  fun_induction Lexeme.collect found cs with
  | case1 found => rw [Lexeme.collect]
  | case2 found c cs ih =>
      rw [Lexeme.collect]
      exact ih

/-- The lexemes of a text are its first one and those of what follows it. -/
theorem ofText_cons {c : Char} {cs rest : List Char} {lexeme : Lexeme}
    (first : Lexeme.next c cs = (lexeme, rest))
    : Lexeme.ofText (c :: cs) = lexeme :: Lexeme.ofText rest := by
  have behind := collect_append [] [lexeme] rest
  rw [List.nil_append] at behind
  rw [Lexeme.ofText, Lexeme.collect, first, behind, List.reverse_append]
  rfl

end Lexemes

-----------------------------------------------------------------------------------------
-- Tokens of lexemes
-----------------------------------------------------------------------------------------

section Tokens

/-- A piece's lexeme spells the piece's token, or none for a blank. -/
theorem token?_lexemeOf {p : Piece} (writable : ∀ t ∈ p, t.Writable)
    : (lexemeOf p).token? = .ok p := by
  cases p with
  | none => rfl
  | some t =>
      cases t with
      | keyword word =>
          simp only [lexemeOf, Token.lexeme, Lexeme.token?, String.ofList_toList,
            Keyword.ofSpelling?_spelling]
      | ident name =>
          have free : IsFreeWord name := writable _ rfl
          simp only [lexemeOf, Token.lexeme, Lexeme.token?, String.ofList_toList, free.free]
      | int n =>
          have nonnegative : 0 ≤ n := writable _ rfl
          have fits : n.toNatClampNeg < integerLimit := Int64.toNatClampNeg_lt n
          simp only [lexemeOf, Token.lexeme, Lexeme.token?, digitsValue_toDigits, fits,
            ↓reduceIte, Int64.ofNat_toNatClampNeg n nonnegative]
      | str text =>
          have body : ('"' :: (text.toList.flatMap escaped ++ ['"'])).drop 1
              = text.toList.flatMap escaped ++ ['"'] := rfl
          simp only [lexemeOf, Token.lexeme, Lexeme.token?, body, List.dropLast_concat, unescape,
            unescapeFrom_escaped]
          simp [bind, Except.bind, pure, Except.pure]
      | mark m => rfl

/-- Tokens are collected only from lexemes that are no faults, by induction on the lexemes. -/
theorem pieces_of_collect {start : Nat} {found result : List PlacedToken} {ls : List Lexeme}
    (h : PlacedToken.collect start found ls = .ok result)
    : ∃ pieces : List Piece, ls.map Lexeme.token? = pieces.map Except.ok
        ∧ result.reverse.map PlacedToken.token
          = found.reverse.map PlacedToken.token ++ pieces.reduceOption := by
  induction ls generalizing start found with
  | nil =>
      cases h
      exact ⟨[], rfl, (List.append_nil _).symm⟩
  | cons l rest ih =>
      rw [PlacedToken.collect] at h
      split at h
      · cases h
      · next spells =>
        obtain ⟨pieces, spelled, kinds⟩ := ih h
        exact ⟨none :: pieces, by rw [List.map_cons, spells, spelled, List.map_cons], kinds⟩
      · next token spells =>
        obtain ⟨pieces, spelled, kinds⟩ := ih h
        refine ⟨some token :: pieces, by rw [List.map_cons, spells, spelled, List.map_cons], ?_⟩
        rw [kinds, List.reverse_cons, List.map_append, List.append_assoc,
          List.reduceOption_cons_of_some]
        rfl

/-- The tokens of lexemes that spell pieces are those of the pieces, by induction on them. -/
theorem collect_of_pieces {ls : List Lexeme} {pieces : List Piece}
    (spell : ls.map Lexeme.token? = pieces.map Except.ok) (start : Nat)
    (found : List PlacedToken)
    : ∃ ts : List PlacedToken,
        PlacedToken.collect start found ls = .ok (ts.reverse ++ found)
        ∧ ts.map PlacedToken.token = pieces.reduceOption := by
  induction pieces generalizing ls start found with
  | nil =>
      obtain rfl := List.map_eq_nil_iff.mp spell
      exact ⟨[], rfl, rfl⟩
  | cons p rest ih =>
      obtain ⟨l, more, rfl, first, others⟩ := List.map_eq_cons_iff.mp spell
      rw [PlacedToken.collect, first]
      cases p with
      | none => exact ih others _ found
      | some t =>
          let stop := start + byteCount l.text
          let placed : PlacedToken := ⟨t, ByteRange.ofOffsets start stop⟩
          obtain ⟨ts, collected, kinds⟩ := ih others stop (placed :: found)
          refine ⟨placed :: ts, ?_, ?_⟩
          · rw [List.reverse_cons, List.append_assoc]
            exact collected
          · rw [List.map_cons, kinds, List.reduceOption_cons_of_some]

/-- The tokens of a written text's lexemes are those of its pieces. -/
theorem collect_pieces {pieces : List Piece} (writable : ∀ t, some t ∈ pieces → t.Writable)
    (start : Nat) (found : List PlacedToken)
    : ∃ ts : List PlacedToken,
        PlacedToken.collect start found (pieces.map lexemeOf) = .ok (ts.reverse ++ found)
        ∧ ts.map PlacedToken.token = pieces.reduceOption := by
  refine collect_of_pieces ?_ start found
  rw [List.map_map]
  refine List.map_congr_left ?_
  intro p member
  exact token?_lexemeOf fun t isToken => writable t (isToken ▸ member)

end Tokens

end RecordSynth.Source
