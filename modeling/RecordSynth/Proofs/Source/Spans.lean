import RecordSynth.Proofs.Source.Separation

/-! Where the tokens of a text stand. Their ranges are taken from the text one after the other, each
of at least one byte, and what is left out between them, before the first and behind the last, is
blank or a comment up to the end of its line.
-/

namespace RecordSynth.Source

-----------------------------------------------------------------------------------------
-- Slices of a text
-----------------------------------------------------------------------------------------

section Slices

theorem byteCount_toList (s : String) : byteCount s.toList = s.utf8ByteSize := by
  have ofList (cs : List Char) : (String.ofList cs).utf8ByteSize = byteCount cs := by
    induction cs with
    | nil => rfl
    | cons c rest ih =>
        rw [byteCount, ← ih, ← List.singleton_append, String.ofList_append,
          String.utf8ByteSize_append, ← String.singleton_eq_ofList, String.utf8ByteSize_singleton]
  rw [← ofList, String.ofList_toList]

theorem byteCount_pos {cs : List Char} (nonempty : cs ≠ []) : 0 < byteCount cs := by
  cases cs with
  | nil => exact absurd rfl nonempty
  | cons c rest => exact Nat.lt_of_lt_of_le c.utf8Size_pos (Nat.le_add_right _ _)

/-- Characters are split off after their bytes, by induction on the characters. -/
theorem splitBytesFrom?_append (done cs rest : List Char)
    : splitBytesFrom? done (byteCount cs) (cs ++ rest) = some (done.reverse ++ cs, rest) := by
  induction cs generalizing done with
  | nil => cases rest <;> simp [byteCount, splitBytesFrom?]
  | cons c more ih =>
      have positive := c.utf8Size_pos
      obtain ⟨n, bytes⟩ : ∃ n, byteCount (c :: more) = n + 1 :=
        Nat.exists_eq_succ_of_ne_zero (by rw [byteCount]; omega)
      have fits : c.utf8Size ≤ n + 1 := by
        rw [← bytes, byteCount]
        omega
      have left : n + 1 - c.utf8Size = byteCount more := by
        rw [← bytes, byteCount]
        omega
      rw [bytes, List.cons_append, splitBytesFrom?, if_pos fits, left, ih]
      simp

theorem splitBytes?_append (cs rest : List Char)
    : splitBytes? (byteCount cs) (cs ++ rest) = some (cs, rest) :=
  splitBytesFrom?_append [] cs rest

/-- The part of a text behind what takes the bytes up to it. -/
theorem slice?_of_toList {source : String} {before part behind : List Char}
    (whole : source.toList = before ++ (part ++ behind))
    : (⟨byteCount before, byteCount (before ++ part)⟩ : ByteRange).slice? source
      = some (String.ofList part) := by
  have inOrder : ¬byteCount (before ++ part) < byteCount before := by
    rw [byteCount_append]
    omega
  have bytes : byteCount (before ++ part) - byteCount before = byteCount part := by
    rw [byteCount_append]
    omega
  simp only [ByteRange.slice?, if_neg inOrder, whole, splitBytes?_append, bytes,
    Option.bind_eq_bind, Option.bind_some, Option.pure_def]

end Slices

-----------------------------------------------------------------------------------------
-- Gaps
-----------------------------------------------------------------------------------------

/-- Blanks and comments before the rest of a text. A comment ends where its line does. -/
inductive IsGap : List Char → List Char → Prop
  | nil (rest : List Char) : IsGap [] rest
  | blank {c : Char} {cs rest : List Char} (isBlank : isBlank c = true) (more : IsGap cs rest)
    : IsGap (c :: cs) rest
  | comment {body cs rest : List Char} (oneLine : '\n' ∉ body)
    (ends : ∀ c ∈ (cs ++ rest).head?, c = '\n') (more : IsGap cs rest)
    : IsGap ('/' :: '/' :: (body ++ cs)) rest

section Gaps

/-- A gap may be followed by another one, by induction on the first one. -/
theorem IsGap.append {left right rest : List Char} (first : IsGap left (right ++ rest))
    (second : IsGap right rest)
    : IsGap (left ++ right) rest := by
  generalize isRest : right ++ rest = rest' at first
  induction first with
  | nil => exact second
  | blank isBlank _ ih => exact .blank isBlank (ih isRest)
  | comment oneLine ends _ ih =>
      subst isRest
      rw [List.cons_append, List.cons_append, List.append_assoc]
      refine .comment oneLine ?_ (ih rfl)
      rw [List.append_assoc]
      exact ends

theorem isGap_of_blank {cs : List Char} (blank : ∀ c ∈ cs, isBlank c = true) (rest : List Char)
    : IsGap cs rest := by
  induction cs with
  | nil => exact .nil rest
  | cons c more ih =>
      obtain ⟨first, others⟩ := List.forall_mem_cons.mp blank
      exact .blank first (ih others)

/-- Whether a lexeme of the shape only separates others. -/
def Shape.isSeparator : Shape → Bool
  | .blank | .comment => true
  | _ => false

theorem isSeparator_quotedAt (cs : List Char)
    : (Lexeme.quotedAt cs).1.shape.isSeparator = false := by
  unfold Lexeme.quotedAt
  dsimp only
  split <;> rfl

theorem isSeparator_markAt (c : Char) (cs : List Char)
    : (Lexeme.markAt c cs).1.shape.isSeparator = false := by
  unfold Lexeme.markAt
  split <;> rfl

/-- A separator is a gap before what does not continue it. -/
theorem isGap_next {c : Char} {cs rest : List Char}
    (separates : (Lexeme.next c cs).1.shape.isSeparator = true)
    (stops : ∀ d ∈ rest.head?, (Lexeme.next c cs).1.shape.stops d = true)
    : IsGap (Lexeme.next c cs).1.text rest := by
  unfold Lexeme.next at separates stops ⊢
  split
  · next blank =>
    refine isGap_of_blank (List.forall_mem_cons.mpr ⟨blank, ?_⟩) rest
    exact fun d member => List.mem_takeWhile_imp member
  next notBlank =>
  rw [if_neg notBlank] at separates stops
  split
  · next start =>
    rw [if_pos start] at separates
    cases separates
  next notStart =>
  rw [if_neg notStart] at separates stops
  split
  · next digit =>
    rw [if_pos digit] at separates
    cases separates
  next notDigit =>
  rw [if_neg notDigit] at separates stops
  split
  · next isQuote =>
    rw [if_pos isQuote, isSeparator_quotedAt] at separates
    cases separates
  next notQuote =>
  rw [if_neg notQuote] at separates stops
  split
  · next slashes =>
    rw [if_pos slashes] at stops
    obtain ⟨isSlash, second⟩ := (Bool.and_eq_true _ _).mp slashes
    obtain ⟨more, rfl⟩ := List.head?_eq_some_iff.mp (eq_of_beq second)
    rw [eq_of_beq isSlash]
    have oneLine : '\n' ∉ more.takeWhile (· != '\n') := by
      intro member
      simpa using List.mem_takeWhile_imp member
    have ends : ∀ d ∈ ([] ++ rest).head?, d = '\n' :=
      fun d isNext => eq_of_beq (stops d isNext)
    simpa [Lexeme.runAt] using IsGap.comment oneLine ends (.nil rest)
  · next noComment =>
    rw [if_neg noComment, isSeparator_markAt] at separates
    cases separates

end Gaps

/-- The range is a gap of the text. -/
def ByteRange.IsGapOf (r : ByteRange) (source : String) : Prop :=
  ∃ gap rest, r.slice? source = some gap
    ∧ (⟨r.stop, source.utf8ByteSize⟩ : ByteRange).slice? source = some rest
    ∧ IsGap gap.toList rest.toList

theorem isGapOf_of_toList {source : String} {left gap rest : List Char}
    (whole : source.toList = left ++ (gap ++ rest)) (isGap : IsGap gap rest)
    : (⟨byteCount left, byteCount (left ++ gap)⟩ : ByteRange).IsGapOf source := by
  have toEnd : source.toList = (left ++ gap) ++ (rest ++ []) := by
    simpa using whole
  have size : byteCount ((left ++ gap) ++ rest) = source.utf8ByteSize := by
    rw [← byteCount_toList, toEnd, List.append_nil]
  have behind := slice?_of_toList toEnd
  rw [size] at behind
  refine ⟨_, _, slice?_of_toList whole, behind, ?_⟩
  rw [String.toList_ofList, String.toList_ofList]
  exact isGap

-----------------------------------------------------------------------------------------
-- Tokens in their places
-----------------------------------------------------------------------------------------

/-- What the tokens leave out between a byte of the text and its end: a range before each of them
and one behind the last.
-/
def gapsFrom (start stop : Nat) : List PlacedToken → List ByteRange
  | [] => [⟨start, stop⟩]
  | t :: ts => ⟨start, t.range.start⟩ :: gapsFrom t.range.stop stop ts

/-- What follows a lexeme does not continue it. -/
theorem Lexeme.stops_of_chain {l : Lexeme} {ls : List Lexeme} (chain : (l :: ls).IsChain Apart)
    (found : ∀ l' ∈ ls, ∃ c cs, l' = (next c cs).1)
    : ∀ d ∈ (ls.flatMap text).head?, l.shape.stops d = true := by
  cases ls with
  | nil => nofun
  | cons l' more =>
      obtain ⟨c, cs, rfl⟩ := found l' List.mem_cons_self
      rw [List.flatMap_cons, List.head?_append_of_ne_nil _ (next_text_ne_nil c cs)]
      exact (List.isChain_cons_cons.mp chain).1

/-- A lexeme spells a token unless it only separates others. -/
theorem isSeparator_of_token? {l : Lexeme} {piece : Piece} (spells : l.token? = .ok piece)
    : l.shape.isSeparator = piece.isNone := by
  unfold Lexeme.token? at spells
  cases isShape : l.shape with
  | blank | comment | mark m =>
      rw [isShape] at spells
      cases spells
      rfl
  | word =>
      simp only [isShape] at spells
      split at spells <;> cases spells <;> rfl
  | digits =>
      simp only [isShape] at spells
      split at spells
      · cases spells
        rfl
      · cases spells
  | quoted =>
      simp only [isShape] at spells
      cases isRead : unescape (l.text.drop 1).dropLast with
      | error cause =>
          rw [isRead] at spells
          cases spells
      | ok text =>
          rw [isRead] at spells
          cases spells
          rfl
  | unclosed | stray =>
      rw [isShape] at spells
      cases spells

/-- Behind what stands before them, the lexemes have these tokens in their places. -/
inductive Placed : List Char → List Lexeme → List PlacedToken → Prop
  | done (before : List Char) : Placed before [] []
  | skip {before : List Char} {l : Lexeme} {ls : List Lexeme} {ts : List PlacedToken}
    (spells : l.token? = .ok none) (more : Placed (before ++ l.text) ls ts)
    : Placed before (l :: ls) ts
  | token {before : List Char} {l : Lexeme} {ls : List Lexeme} {t : PlacedToken}
    {ts : List PlacedToken} (spells : l.token? = .ok (some t.token))
    (range : t.range = ⟨byteCount before, byteCount (before ++ l.text)⟩)
    (more : Placed (before ++ l.text) ls ts)
    : Placed before (l :: ls) (t :: ts)

/-- Offsets that are not too large are not cut off. -/
theorem ByteRange.ofOffsets_eq {start stop : Nat} (inOrder : start ≤ stop)
    (short : stop ≤ maxOffset)
    : ofOffsets start stop = ⟨start, stop⟩ := by
  rw [ofOffsets, Nat.min_eq_left (inOrder.trans short), Nat.min_eq_left short]

/-- Tokens that are collected are in their places, if the text is not too long for them, by
induction on the lexemes.
-/
theorem placed_of_collect {before : List Char} {ls : List Lexeme}
    {found result : List PlacedToken}
    (collected : PlacedToken.collect (byteCount before) found ls = .ok result)
    (fits : byteCount (before ++ ls.flatMap Lexeme.text) ≤ maxOffset)
    : ∃ ts, result = ts.reverse ++ found ∧ Placed before ls ts := by
  induction ls generalizing before found with
  | nil =>
      cases collected
      exact ⟨[], rfl, .done before⟩
  | cons l rest ih =>
      rw [List.flatMap_cons, ← List.append_assoc] at fits
      rw [PlacedToken.collect, ← byteCount_append] at collected
      split at collected
      · cases collected
      · next spells =>
        obtain ⟨ts, isResult, placed⟩ := ih collected fits
        exact ⟨ts, isResult, .skip spells placed⟩
      · next token spells =>
        obtain ⟨ts, isResult, placed⟩ := ih collected fits
        have range : ByteRange.ofOffsets (byteCount before) (byteCount (before ++ l.text))
            = ⟨byteCount before, byteCount (before ++ l.text)⟩ := by
          rw [byteCount_append] at fits
          refine ByteRange.ofOffsets_eq ?_ (by omega)
          rw [byteCount_append]
          exact Nat.le_add_right _ _
        refine ⟨⟨token, _⟩ :: ts, ?_, .token spells range placed⟩
        rw [isResult, List.reverse_cons, List.append_assoc]
        rfl

/-- The tokens of a text are those collected from its lexemes, which come last one first. -/
theorem PlacedToken.exists_collect {source : String} {ts : List PlacedToken}
    (lexed : PlacedToken.ofText source = .ok ts)
    : ∃ found, PlacedToken.collect 0 [] (Lexeme.ofText source.toList) = .ok found
        ∧ found.reverse = ts := by
  rw [PlacedToken.ofText] at lexed
  cases collected : PlacedToken.collect 0 [] (Lexeme.ofText source.toList) with
  | error fault =>
      rw [collected] at lexed
      cases lexed
  | ok found =>
      rw [collected] at lexed
      exact ⟨found, rfl, Except.ok.inj lexed⟩

theorem byteCount_lexemes (source : String)
    : byteCount ([] ++ (Lexeme.ofText source.toList).flatMap Lexeme.text)
      = source.utf8ByteSize := by
  rw [List.nil_append, Lexeme.flatMap_text_ofText, byteCount_toList]

/-- The tokens of a text that is not too long are in their places. -/
theorem placed_of_ofText {source : String} {ts : List PlacedToken}
    (short : source.utf8ByteSize ≤ maxOffset) (lexed : PlacedToken.ofText source = .ok ts)
    : Placed [] (Lexeme.ofText source.toList) ts := by
  obtain ⟨found, collected, rfl⟩ := PlacedToken.exists_collect lexed
  obtain ⟨ts, rfl, placed⟩ := @placed_of_collect [] _ _ _ collected
    (byteCount_lexemes source ▸ short)
  rw [List.append_nil, List.reverse_reverse]
  exact placed

namespace Placed

variable {source : String} {before : List Char} {ls : List Lexeme} {ts : List PlacedToken}

/-- The tokens stand behind what is before them and in the text, and each takes a byte at least. -/
theorem range_bounds (placed : Placed before ls ts) (nonempty : ∀ l ∈ ls, l.text ≠ [])
    : ∀ t ∈ ts, byteCount before ≤ t.range.start ∧ t.range.start < t.range.stop
        ∧ t.range.stop ≤ byteCount (before ++ ls.flatMap Lexeme.text) := by
  induction placed with
  | done => nofun
  | @skip before l ls ts _ _ ih =>
      intro t member
      obtain ⟨starts, inner, stops⟩ := ih (List.forall_mem_cons.mp nonempty).2 t member
      rw [byteCount_append] at starts
      rw [List.flatMap_cons, ← List.append_assoc]
      exact ⟨by omega, inner, stops⟩
  | @token before l ls t ts _ range _ ih =>
      obtain ⟨first, others⟩ := List.forall_mem_cons.mp nonempty
      have later := ih others
      rw [List.flatMap_cons, ← List.append_assoc]
      refine List.forall_mem_cons.mpr ⟨?_, ?_⟩
      · have positive : 0 < byteCount l.text := byteCount_pos first
        simp only [range, byteCount_append]
        omega
      · intro t' member
        obtain ⟨starts, inner, stops⟩ := later t' member
        rw [byteCount_append] at starts
        exact ⟨by omega, inner, stops⟩

/-- A token stands behind those before it. -/
theorem pairwise (placed : Placed before ls ts) (nonempty : ∀ l ∈ ls, l.text ≠ [])
    : ts.Pairwise fun t t' => t.range.stop ≤ t'.range.start := by
  induction placed with
  | done => exact .nil
  | skip _ _ ih => exact ih (List.forall_mem_cons.mp nonempty).2
  | token _ range more ih =>
      have others := (List.forall_mem_cons.mp nonempty).2
      refine List.pairwise_cons.mpr ⟨?_, ih others⟩
      intro t' member
      rw [range]
      exact (more.range_bounds others t' member).1

/-- The ranges of the tokens have the texts of their lexemes. -/
theorem slices (placed : Placed before ls ts)
    (whole : source.toList = before ++ ls.flatMap Lexeme.text)
    : ts.map (fun t => t.range.slice? source)
      = (ls.filter fun l => !l.shape.isSeparator).map fun l => some (String.ofList l.text) := by
  induction placed with
  | done => rfl
  | @skip before l ls ts spells _ ih =>
      rw [List.flatMap_cons, ← List.append_assoc] at whole
      rw [List.filter_cons_of_neg (by simp [isSeparator_of_token? spells]), ih whole]
  | @token before l ls t ts spells range _ ih =>
      rw [List.flatMap_cons] at whole
      rw [List.filter_cons_of_pos (by simp [isSeparator_of_token? spells]), List.map_cons,
        List.map_cons, range, slice?_of_toList whole]
      rw [← List.append_assoc] at whole
      rw [ih whole]

theorem spells (placed : Placed before ls ts)
    : (ls.filter fun l => !l.shape.isSeparator).map Lexeme.token?
      = ts.map fun t => .ok (some t.token) := by
  induction placed with
  | done => rfl
  | skip spells _ ih =>
      rw [List.filter_cons_of_neg (by simp [isSeparator_of_token? spells]), ih]
  | token spells _ _ ih =>
      rw [List.filter_cons_of_pos (by simp [isSeparator_of_token? spells]), List.map_cons,
        List.map_cons, ih, spells]

/-- What is left out by the tokens is gaps: the first one goes on with the separators in front, by
induction on the lexemes.
-/
theorem gaps {left gap : List Char} (placed : Placed (left ++ gap) ls ts)
    (whole : source.toList = (left ++ gap) ++ ls.flatMap Lexeme.text)
    (isGap : IsGap gap (ls.flatMap Lexeme.text)) (chain : ls.IsChain Lexeme.Apart)
    (found : ∀ l ∈ ls, ∃ c cs, l = (Lexeme.next c cs).1)
    : ∀ r ∈ gapsFrom (byteCount left) source.utf8ByteSize ts, r.IsGapOf source := by
  generalize isBefore : left ++ gap = before at placed
  induction placed generalizing left gap with
  | done =>
      subst isBefore
      rw [List.flatMap_nil, List.append_assoc] at whole
      have ends : source.utf8ByteSize = byteCount (left ++ gap) := by
        rw [← byteCount_toList, whole, List.append_nil]
      refine List.forall_mem_singleton.mpr ?_
      rw [ends]
      exact isGapOf_of_toList whole isGap
  | @skip before l ls ts spells more ih =>
      subst isBefore
      obtain ⟨⟨c, cs, rfl⟩, others⟩ := List.forall_mem_cons.mp found
      rw [List.flatMap_cons] at whole isGap
      rw [← List.append_assoc, List.append_assoc left] at whole
      have separates : (Lexeme.next c cs).1.shape.isSeparator = true :=
        isSeparator_of_token? spells
      have stops := Lexeme.stops_of_chain chain others
      have longer := isGap.append (isGap_next separates stops)
      exact ih whole longer (List.isChain_cons.mp chain).2 others (List.append_assoc _ _ _).symm
  | @token before l ls t ts spells range more ih =>
      subst isBefore
      refine List.forall_mem_cons.mpr ⟨?_, ?_⟩
      · rw [range]
        rw [List.append_assoc] at whole
        exact isGapOf_of_toList whole isGap
      · rw [range]
        have others := (List.forall_mem_cons.mp found).2
        rw [List.flatMap_cons, ← List.append_assoc, ← List.append_nil (left ++ gap ++ l.text)]
          at whole
        exact ih whole (.nil _) (List.isChain_cons.mp chain).2 others (List.append_nil _)

end Placed

end RecordSynth.Source
