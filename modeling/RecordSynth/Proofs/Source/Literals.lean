import RecordSynth.Proofs.Source.Spans

/-! String literals stand for what they encode. Where a literal ends is decided on its elements, and
what it stands for by a second pass over its characters. Both go by the same elements: a text that
is put between quotes, with backslashes, quotes and line feeds as escapes, is read as that text, and
in every literal that is found, a backslash that begins an escape has a character behind it.
-/

namespace RecordSynth.Source

-----------------------------------------------------------------------------------------
-- A backslash with nothing behind it
-----------------------------------------------------------------------------------------

/-- Reads the body of a string literal into the reversed `done`. What a backslash with nothing after
it stands for is up to `dangling`.
-/
def unescapeOr (dangling : List Char → Except Cause (List Char)) (done : List Char)
    : List Char → Except Cause (List Char)
  | [] => .ok done.reverse
  | [c] => if c == '\\' then dangling done else .ok (c :: done).reverse
  | c :: d :: cs =>
    if c == '\\' then
      match escape? d with
      | some e => unescapeOr dangling (e :: done) cs
      | none => .error (.unknownEscape d)
    else unescapeOr dangling (c :: done) (d :: cs)

/-- Such a backslash is taken for itself. -/
theorem unescapeFrom_eq_unescapeOr (done cs : List Char)
    : unescapeFrom done cs = unescapeOr (fun done => .ok ('\\' :: done).reverse) done cs := by
  fun_induction unescapeFrom done cs with
  | case1 done => rfl
  | case2 done c =>
      by_cases isBackslash : c = '\\'
      · rw [isBackslash]
        rfl
      · simp [unescapeOr, isBackslash]
  | case3 done c d cs isBackslash e isEscape ih => simp [unescapeOr, isBackslash, isEscape, ih]
  | case4 done c d cs isBackslash noEscape => simp [unescapeOr, isBackslash, noEscape]
  | case5 done c d cs notBackslash ih => simp [unescapeOr, notBackslash, ih]

/-- Among elements there is no such backslash, by induction on them. -/
theorem Elements.unescapeOr_eq {body : List Char} (elements : Elements body)
    (dangling : List Char → Except Cause (List Char)) (done : List Char)
    : unescapeOr dangling done body = unescapeFrom done body := by
  induction elements generalizing done with
  | nil => rfl
  | @plain c cs notBackslash _ _ _ ih =>
      rw [unescapeFrom_plain notBackslash, ← ih]
      cases cs with
      | nil => simp [unescapeOr, notBackslash]
      | cons d more => simp [unescapeOr, notBackslash]
  | @escape d cs _ _ ih =>
      cases isEscape : escape? d with
      | none => simp [unescapeOr, unescapeFrom, isEscape]
      | some c => rw [unescapeFrom_escape isEscape, ← ih, unescapeOr]; simp [isEscape]

-----------------------------------------------------------------------------------------
-- Literals that are found
-----------------------------------------------------------------------------------------

/-- A string literal is found at a quote only. -/
theorem Lexeme.next_of_quoted {c : Char} {cs : List Char} (quoted : (next c cs).1.shape = .quoted)
    : next c cs = quotedAt cs := by
  unfold next at quoted ⊢
  split
  · next blank => simp [blank, runAt] at quoted
  next notBlank =>
  rw [if_neg notBlank] at quoted
  split
  · next start => simp [start, runAt] at quoted
  next notStart =>
  rw [if_neg notStart] at quoted
  split
  · next digit => simp [digit, runAt] at quoted
  next notDigit =>
  rw [if_neg notDigit] at quoted
  split
  · rfl
  next notQuote =>
  rw [if_neg notQuote] at quoted
  split
  · next slashes => simp [slashes, runAt] at quoted
  next noComment =>
  rw [if_neg noComment] at quoted
  unfold markAt at quoted
  split at quoted <;> cases quoted

/-- Between the quotes of a literal of a text there are elements. -/
theorem Lexeme.exists_elements {cs : List Char} {l : Lexeme} (member : l ∈ ofText cs)
    (quoted : l.shape = .quoted)
    : ∃ body, l = ⟨.quoted, '"' :: (body ++ ['"'])⟩ ∧ Elements body := by
  rcases exists_next (List.mem_reverse.mp member) with none | ⟨c, more, rfl⟩
  · cases none
  · have isQuoted := next_of_quoted quoted
    rw [isQuoted] at quoted ⊢
    have sound : (quotedAt more).1.shape.isSound = true := by
      rw [quoted]
      rfl
    obtain ⟨body, rest, rfl, elements⟩ := exists_body sound
    rw [elements.quotedAt]
    exact ⟨body, rfl, elements⟩

/-- Texts are tokens of string literals only. -/
theorem Lexeme.quoted_of_token? {l : Lexeme} {text : String}
    (spells : l.token? = .ok (some (.str text)))
    : l.shape = .quoted := by
  unfold token? at spells
  cases isShape : l.shape with
  | quoted => rfl
  | word =>
      simp only [isShape] at spells
      split at spells <;> cases spells
  | digits =>
      simp only [isShape] at spells
      split at spells <;> cases spells
  | _ =>
      rw [isShape] at spells
      cases spells

/-- A literal spells the text that its body is read as. -/
theorem Lexeme.token?_quoted (body : List Char)
    : (⟨.quoted, '"' :: (body ++ ['"'])⟩ : Lexeme).token?
      = (unescape body).map fun text => some (.str (String.ofList text)) := by
  unfold token?
  simp only [List.drop_succ_cons, List.drop_zero, List.dropLast_concat]
  cases unescape body <;> rfl

/-- The lexeme of the list spells the token, whose range are the bytes of the lexeme in a text that
has the list from the byte `start` on.
-/
def PlacedToken.IsSpelledIn (t : PlacedToken) (start : Nat) (ls : List Lexeme) (l : Lexeme)
    : Prop :=
  ∃ before after,
    ls = before ++ l :: after
    ∧ l.token? = .ok (some t.token)
    ∧ t.range = .ofOffsets (start + byteCount (before.flatMap Lexeme.text))
      (start + byteCount (before.flatMap Lexeme.text) + byteCount l.text)

theorem PlacedToken.IsSpelledIn.cons {t : PlacedToken} {start : Nat} {ls : List Lexeme}
    {l first : Lexeme} (spelled : t.IsSpelledIn (start + byteCount first.text) ls l)
    : t.IsSpelledIn start (first :: ls) l := by
  obtain ⟨before, after, rfl, spells, range⟩ := spelled
  refine ⟨first :: before, after, rfl, spells, ?_⟩
  rw [range, List.flatMap_cons, byteCount_append, Nat.add_assoc start]

/-- Each token that is collected is spelled by a lexeme, by induction on the lexemes. -/
theorem PlacedToken.exists_isSpelledIn {start : Nat} {found result : List PlacedToken}
    {ls : List Lexeme} (collected : collect start found ls = .ok result)
    : ∀ t ∈ result, t ∈ found ∨ ∃ l, t.IsSpelledIn start ls l := by
  induction ls generalizing start found with
  | nil =>
      cases collected
      exact fun t member => .inl member
  | cons l rest ih =>
      rw [collect] at collected
      intro t member
      split at collected
      · cases collected
      · rcases ih collected t member with before | ⟨l', spelled⟩
        · exact .inl before
        · exact .inr ⟨l', spelled.cons⟩
      · next token spells =>
        rcases ih collected t member with now | ⟨l', spelled⟩
        · rcases List.mem_cons.mp now with rfl | before
          · exact .inr ⟨l, [], rest, rfl, spells, rfl⟩
          · exact .inl before
        · exact .inr ⟨l', spelled.cons⟩

-----------------------------------------------------------------------------------------
-- Literals that are written and read
-----------------------------------------------------------------------------------------

/-- A text between quotes, each of its characters as an element for it, is one token. -/
theorem PlacedToken.ofText_elements {text : String} {elements : List (List Char)}
    (isText : List.Forall₂ ElementFor text.toList elements)
    : ofText (String.ofList ('"' :: (elements.flatten ++ ['"'])))
      = .ok [⟨.str text, .ofOffsets 0 (byteCount ('"' :: (elements.flatten ++ ['"'])))⟩] := by
  have first : Lexeme.next '"' (elements.flatten ++ ['"'])
      = (⟨.quoted, '"' :: (elements.flatten ++ ['"'])⟩, []) :=
    (elements_of_forall₂ isText).quotedAt []
  have lexemes : Lexeme.ofText ('"' :: (elements.flatten ++ ['"']))
      = [⟨.quoted, '"' :: (elements.flatten ++ ['"'])⟩] := by
    rw [ofText_cons first, Lexeme.ofText, Lexeme.collect]
    rfl
  have spells := Lexeme.token?_quoted elements.flatten
  rw [unescape, unescapeFrom_elements isText, List.reverse_nil, List.nil_append, Except.map,
    String.ofList_toList] at spells
  rw [ofText, String.toList_ofList, lexemes, collect, spells, Nat.zero_add]
  rfl

/-- A literal that is a token has the text that its body is read as. -/
theorem Lexeme.unescape_of_token? {body : List Char} {text : String}
    (spells : (⟨.quoted, '"' :: (body ++ ['"'])⟩ : Lexeme).token? = .ok (some (.str text)))
    : unescape body = .ok text.toList := by
  rw [token?_quoted] at spells
  cases isRead : unescape body with
  | error cause =>
      rw [isRead] at spells
      cases spells
  | ok cs =>
      rw [isRead] at spells
      cases spells
      rw [String.toList_ofList]

/-- The body of a literal is read so that a backslash with nothing after it stands for itself. A
text between quotes, each of its characters as an element for it, is read as the text. In a text
that is lexed, each literal has elements between its quotes, so what a backslash at their end would
stand for does not matter; and each token that is a text is that of such a literal.
-/
theorem string_literals_decode
    : (∀ body, unescape body = unescapeOr (fun done => .ok ('\\' :: done).reverse) [] body)
      ∧ (∀ (text : String) (elements : List (List Char)),
        List.Forall₂ ElementFor text.toList elements →
        PlacedToken.ofText (String.ofList ('"' :: (elements.flatten ++ ['"'])))
          = .ok [⟨.str text, .ofOffsets 0 (byteCount ('"' :: (elements.flatten ++ ['"'])))⟩])
      ∧ (∀ source : String, ∀ l ∈ Lexeme.ofText source.toList,
        l.shape = .quoted →
        ∃ body,
          l.text = '"' :: (body ++ ['"'])
          ∧ Elements body
          ∧ ∀ dangling, unescapeOr dangling [] body = unescape body)
      ∧ ∀ source tokens,
        PlacedToken.ofText source = .ok tokens →
        ∀ t ∈ tokens, ∀ text,
          t.token = .str text →
          ∃ l body,
            t.IsSpelledIn 0 (Lexeme.ofText source.toList) l
            ∧ l = ⟨.quoted, '"' :: (body ++ ['"'])⟩
            ∧ Elements body
            ∧ ∀ dangling, unescapeOr dangling [] body = .ok text.toList := by
  refine ⟨unescapeFrom_eq_unescapeOr [],
    fun text elements isText => PlacedToken.ofText_elements isText, ?_, ?_⟩
  · intro source l member quoted
    obtain ⟨body, rfl, elements⟩ := Lexeme.exists_elements member quoted
    exact ⟨body, rfl, elements, fun dangling => elements.unescapeOr_eq dangling []⟩
  · intro source tokens lexed t member text isText
    obtain ⟨found, collected, rfl⟩ := PlacedToken.exists_collect lexed
    rcases PlacedToken.exists_isSpelledIn collected t (List.mem_reverse.mp member) with
      none | ⟨l, spelled⟩
    · cases none
    · have isSpelled := spelled
      obtain ⟨before, after, isSplit, spells, -⟩ := spelled
      rw [isText] at spells
      have inText : l ∈ Lexeme.ofText source.toList := by simp [isSplit]
      obtain ⟨body, rfl, elements⟩ :=
        Lexeme.exists_elements inText (Lexeme.quoted_of_token? spells)
      refine ⟨_, body, isSpelled, rfl, elements, fun dangling => ?_⟩
      exact (elements.unescapeOr_eq dangling []).trans (Lexeme.unescape_of_token? spells)

/-- Witness: a tab as itself and as an escape, a quote, and a backslash before the closing quote. -/
theorem string_literals_decode_backslash
    : PlacedToken.ofText "\"\t\\t\\\"\\\\\"" = .ok [⟨.str "\t\t\"\\", ⟨0, 9⟩⟩]
      ∧ ∃ l body,
        (⟨.str "\t\t\"\\", ⟨0, 9⟩⟩ : PlacedToken).IsSpelledIn 0
          (Lexeme.ofText "\"\t\\t\\\"\\\\\"".toList) l
        ∧ l = ⟨.quoted, '"' :: (body ++ ['"'])⟩
        ∧ Elements body
        ∧ ∀ dangling, unescapeOr dangling [] body = .ok ['\t', '\t', '"', '\\'] := by
  obtain ⟨-, reads, -, found⟩ := string_literals_decode
  have isText : List.Forall₂ ElementFor "\t\t\"\\".toList
      [['\t'], ['\\', 't'], ['\\', '"'], ['\\', '\\']] := by
    refine .cons (.plain ?_ ?_ ?_) (.cons (.escape rfl) (.cons (.escape rfl)
      (.cons (.escape rfl) .nil))) <;> decide
  have lexed := reads _ _ isText
  exact ⟨lexed, found _ _ lexed _ (List.mem_singleton_self _) _ rfl⟩

end RecordSynth.Source
