import Mathlib.Data.List.ReduceOption
import RecordSynth.Proofs.Program.Renaming
import RecordSynth.Proofs.Source.Derivation
import RecordSynth.Proofs.Source.RoundTrip

/-! Other names for the identifiers of a source text. What stands between the identifiers stays
as it is, and the text is read as the old definition with the other names.
-/

namespace RecordSynth.Source

/-- The token with another name, if it is an identifier. -/
def Token.renamed (f : String → String) : Token → Token
  | .ident name => .ident (f name)
  | t => t

/-- The lexeme of the token with another name, if the token is an identifier. -/
def Lexeme.renamed (f : String → String) (l : Lexeme) : Lexeme :=
  match l.token? with
  | .ok (some (.ident name)) => (Token.ident (f name)).lexeme
  | _ => l

/-- The source text with other names for its identifiers. -/
def renamedText (f : String → String) (source : String) : String :=
  String.ofList ((Lexeme.ofText source.toList).flatMap fun l => (l.renamed f).text)

-----------------------------------------------------------------------------------------
-- Tokens with other names spell the phrase with these names
-----------------------------------------------------------------------------------------

section Phrases

variable {f : String → String}

theorem comparator?_renamed (t : Token)
    : Reader.comparator? (t.renamed f) = Reader.comparator? t := by
  cases t <;> rfl

theorem literal?_renamed (t : Token) : Reader.literal? (t.renamed f) = Reader.literal? t := by
  cases t <;> rfl

theorem Expr.renamed_placedAt (range : ByteRange) (x : Expr)
    : (x.placedAt range).renamed f = (x.renamed f).placedAt range := by
  cases x <;> rfl

/-- The phrase with other names for its identifiers. -/
def Phrase.renamed (f : String → String) : Phrase → Phrase
  | .primary x => .primary (x.renamed f)
  | .operand x => .operand (x.renamed f)
  | .expr x => .expr (x.renamed f)
  | .items comma xs => .items comma (Expr.renamedAll f xs)
  | .stmt s => .stmt (s.renamed f)
  | .branch s => .branch (s.renamed f)
  | .block ss => .block (Stmt.renamedAll f ss)
  | .stmts ss => .stmts (Stmt.renamedAll f ss)

/-- What tokens spell, they spell with other names as well, by induction on the spelling. -/
theorem Spells.renamed {ts : List Token} {phrase : Phrase} (h : Spells ts phrase)
    : Spells (ts.map (Token.renamed f)) (phrase.renamed f) := by
  induction h with
  | literal spelled => exact .literal (by rw [literal?_renamed, spelled])
  | var => exact .var
  | call _ ih =>
      rw [List.map_cons, List.map_cons, List.map_append]
      exact .call ih
  | group _ ih =>
      rw [List.map_cons, List.map_append, Phrase.renamed, Expr.renamed_placedAt]
      exact .group ih
  | tuple _ marked ih =>
      rw [List.map_cons, List.map_append]
      refine .tuple ih ?_
      rw [length_renamedAll]
      exact marked
  | operand _ ih => exact .operand ih
  | attr _ ih =>
      rw [List.map_append]
      exact .attr ih
  | expr _ ih => exact .expr ih
  | compare _ operator _ ih ih' =>
      rw [List.map_append, List.map_cons]
      exact .compare ih (by rw [comparator?_renamed, operator]) ih'
  | noItems => exact .noItems
  | lastItem _ ih => exact .lastItem ih
  | @item _ _ _ comma xs _ _ ih ih' =>
      have same : xs.isEmpty = (Expr.renamedAll f xs).isEmpty := by
        cases xs <;> rfl
      rw [List.map_append, List.map_cons, same]
      exact .item ih ih'
  | assign _ _ ih ih' =>
      rw [List.map_append, List.map_cons, List.map_append]
      exact .assign ih ih'
  | giveBackNone => exact .giveBackNone
  | giveBack _ ih =>
      rw [List.map_cons, List.map_append]
      exact .giveBack ih
  | yield _ ih =>
      rw [List.map_cons, List.map_append]
      exact .yield ih
  | discard _ ih =>
      rw [List.map_append]
      exact .discard ih
  | branch _ ih => exact .branch ih
  | ifThen _ _ ih ih' =>
      rw [List.map_append]
      exact .ifThen ih ih'
  | ifElse _ _ _ ih ih' ih'' =>
      rw [List.map_append, List.map_append, List.map_cons]
      exact .ifElse ih ih' ih''
  | elseIf _ _ _ ih ih' ih'' =>
      rw [List.map_append, List.map_append, List.map_cons, List.map_cons]
      exact .elseIf ih ih' ih''
  | block _ ih =>
      rw [List.map_cons, List.map_append]
      exact .block ih
  | noStmts => exact .noStmts
  | nextStmt _ _ ih ih' =>
      rw [List.map_append]
      exact .nextStmt ih ih'

theorem SpellsParams.renamed {ts : List Token} {ps : List Param} (h : SpellsParams ts ps)
    : SpellsParams (ts.map (Token.renamed f)) (ps.map (Param.renamed f)) := by
  induction h with
  | noParams => exact .noParams
  | lastParam => exact .lastParam
  | param _ ih => exact .param ih

/-- A definition that keeps its name is spelled by its tokens with the other names. -/
theorem SpellsDefinition.renamed {ts : List Token} {d : Definition} (h : SpellsDefinition ts d)
    (keeps : f d.name = d.name)
    : SpellsDefinition (ts.map (Token.renamed f)) (d.renamed f) := by
  cases h with
  | @definition name ts us ps isGenerator body range params body =>
      have opening : (openingTokens isGenerator).map (Token.renamed f)
          = openingTokens isGenerator := by
        cases isGenerator <;> rfl
      have named : Token.renamed f (.ident name) = .ident name := congrArg Token.ident keeps
      simp only [List.map_append, List.map_cons, opening, named]
      exact .definition params.renamed body.renamed

end Phrases

-----------------------------------------------------------------------------------------
-- Lexemes with other names
-----------------------------------------------------------------------------------------

section Lexemes

variable {f : String → String}

/-- A lexeme is renamed if it is an identifier, and otherwise kept. -/
theorem Lexeme.renamed_cases (f : String → String) (l : Lexeme)
    : (∃ name, l.token? = .ok (some (.ident name)) ∧ l.shape = .word
        ∧ l.renamed f = ⟨.word, (f name).toList⟩)
      ∨ l.renamed f = l ∧ ∀ name, l.token? ≠ .ok (some (.ident name)) := by
  unfold Lexeme.renamed
  split
  · next name isIdent => exact Or.inl ⟨name, isIdent, (shape_of_ident isIdent).1, rfl⟩
  · next other => exact Or.inr ⟨rfl, other⟩

theorem Lexeme.shape_renamed (l : Lexeme) : (l.renamed f).shape = l.shape := by
  rcases l.renamed_cases f with ⟨name, _, isWord, renamed⟩ | ⟨renamed, _⟩
  · rw [renamed, isWord]
  · rw [renamed]

theorem isWordPart_of_isWordStart {c : Char} (start : isWordStart c = true)
    : isWordPart c = true := by
  rcases (Bool.or_eq_true _ _).mp start with alpha | underscore
  · simp [isWordPart, alpha]
  · simp [isWordPart, underscore]

/-- All characters that begin a word stop the same shapes. -/
theorem Shape.stops_congr {c d : Char} (startC : isWordStart c = true)
    (startD : isWordStart d = true) (shape : Shape)
    : shape.stops c = shape.stops d := by
  obtain ⟨blankC, digitC, equalC⟩ := isWordStart_class startC
  obtain ⟨blankD, digitD, equalD⟩ := isWordStart_class startD
  cases shape with
  | blank => rw [Shape.stops, Shape.stops, blankC, blankD]
  | comment =>
      have noNewline : ∀ {e : Char}, isBlank e = false → (e == '\n') = false := by
        intro e notBlank
        by_contra isNewline
        rw [Bool.not_eq_false, beq_iff_eq] at isNewline
        subst isNewline
        cases notBlank
      rw [Shape.stops, Shape.stops, noNewline blankC, noNewline blankD]
  | word =>
      rw [Shape.stops, Shape.stops, isWordPart_of_isWordStart startC,
        isWordPart_of_isWordStart startD]
  | digits => rw [Shape.stops, Shape.stops, digitC, digitD]
  | mark m =>
      cases m with
      | assign => rw [Shape.stops, Shape.stops, bne_iff_ne.mpr equalC, bne_iff_ne.mpr equalD]
      | _ => rfl
  | quoted => rfl
  | unclosed => rfl
  | stray => rfl

/-- A name that is found as an identifier is a word and no keyword. -/
theorem Lexeme.Stands.isFreeWord {l : Lexeme} {name : String} (stands : l.Stands)
    (isIdent : l.token? = .ok (some (.ident name)))
    : IsFreeWord name := by
  obtain ⟨isWordShape, text, free⟩ := shape_of_ident isIdent
  obtain ⟨c, cs, begins, first⟩ := stands [] nofun
  rw [List.append_nil] at first
  have isNext : (Lexeme.next c cs).1.shape = .word := by
    rw [first, isWordShape]
  obtain ⟨start, run⟩ := next_eq_word isNext
  refine ⟨?_, free⟩
  rw [first, begins] at run
  rw [← text, begins, isWord, start, Bool.true_and, (List.cons.inj run).2]
  exact List.all_eq_true.mpr fun d member => List.mem_takeWhile_imp member

/-- The function makes words that are no keywords of such words. -/
def KeepsFree (f : String → String) : Prop :=
  ∀ name, IsFreeWord name → IsFreeWord (f name)

/-- A lexeme stands with another name. -/
theorem Lexeme.Stands.renamed {l : Lexeme} (stands : l.Stands) (free : KeepsFree f)
    : (l.renamed f).Stands := by
  rcases l.renamed_cases f with ⟨name, isIdent, _, renamed⟩ | ⟨renamed, _⟩
  · rw [renamed]
    exact stands_word (free name (stands.isFreeWord isIdent)).word
  · rw [renamed]
    exact stands

/-- Lexemes are apart with other names, since a word begins like any other. -/
theorem Lexeme.Apart.renamed {l l' : Lexeme} (apart : l.Apart l') (stands : l'.Stands)
    (free : KeepsFree f)
    : (l.renamed f).Apart (l'.renamed f) := by
  intro c head
  rw [shape_renamed]
  rcases l'.renamed_cases f with ⟨name, isIdent, _, renamed⟩ | ⟨renamed, _⟩
  · have old := stands.isFreeWord isIdent
    rw [renamed] at head
    obtain ⟨_, text, _⟩ := shape_of_ident isIdent
    obtain ⟨d, ds, begins, _⟩ := stands [] nofun
    have startD : isWordStart d = true :=
      head_isWord old.word d (by rw [← text, begins]; rfl)
    rw [Shape.stops_congr (head_isWord (free name old).word c head) startD]
    exact apart d (by rw [begins]; rfl)
  · rw [renamed] at head
    exact apart c head

/-- A lexeme with another name spells the token with that name. -/
theorem Lexeme.Stands.token?_renamed {l : Lexeme} {piece : Piece} (stands : l.Stands)
    (free : KeepsFree f) (spells : l.token? = .ok piece)
    : (l.renamed f).token? = .ok (piece.map (Token.renamed f)) := by
  rcases l.renamed_cases f with ⟨name, isIdent, _, renamed⟩ | ⟨renamed, other⟩
  · rw [isIdent] at spells
    cases spells
    have writable : ∀ t ∈ some (Token.ident (f name)), t.Writable := by
      rintro _ ⟨⟩
      exact free name (stands.isFreeWord isIdent)
    rw [renamed]
    exact token?_lexemeOf writable
  · rw [renamed, spells]
    cases piece with
    | none => rfl
    | some t =>
        cases t with
        | ident name => exact absurd spells (other name)
        | _ => rfl

end Lexemes

-----------------------------------------------------------------------------------------
-- Source texts with other names
-----------------------------------------------------------------------------------------

section Texts

variable {f : String → String}

/-- Only a lexeme of a sound shape spells something. -/
theorem isSound_of_token? {l : Lexeme} {piece : Piece} (spells : l.token? = .ok piece)
    : l.shape.isSound = true := by
  unfold Lexeme.token? at spells
  cases isShape : l.shape with
  | unclosed => simp [isShape] at spells
  | stray => simp [isShape] at spells
  | _ => rfl

/-- The lexemes of a text without a fault stand. -/
theorem stands_of_collect {cs : List Char} {start : Nat} {found result : List PlacedToken}
    (collected : PlacedToken.collect start found (Lexeme.ofText cs) = .ok result)
    : ∀ l ∈ Lexeme.ofText cs, l.Stands := by
  obtain ⟨pieces, spelled, _⟩ := pieces_of_collect collected
  intro l member
  have inPieces : l.token? ∈ pieces.map Except.ok := spelled ▸ List.mem_map_of_mem member
  obtain ⟨piece, _, isPiece⟩ := List.mem_map.mp inPieces
  exact Lexeme.stands_of_mem_ofText member (isSound_of_token? isPiece.symm)

/-- The lexemes of a text with other names are its lexemes with these names: they stand and are
apart as the old ones do.
-/
theorem lexemes_renamedText {source : String} (free : KeepsFree f)
    (stands : ∀ l ∈ Lexeme.ofText source.toList, l.Stands)
    : Lexeme.ofText (renamedText f source).toList
      = (Lexeme.ofText source.toList).map (Lexeme.renamed f) := by
  have chain : ((Lexeme.ofText source.toList).map (Lexeme.renamed f)).IsChain Lexeme.Apart := by
    rw [List.isChain_map]
    refine List.IsChain.imp_of_mem_imp ?_ (Lexeme.chain_ofText source.toList)
    intro l l' _ inLexemes apart
    exact apart.renamed (stands l' inLexemes) free
  rw [renamedText, String.toList_ofList, ← List.flatMap_map]
  refine Lexeme.ofText_flatMap_text chain ?_
  intro _ member
  obtain ⟨l, inLexemes, rfl⟩ := List.mem_map.mp member
  exact (stands l inLexemes).renamed free

/-- Lexemes with other names spell the pieces with these names, by induction on the pieces. -/
theorem spelled_renamed {ls : List Lexeme} {pieces : List Piece} (free : KeepsFree f)
    (spelled : ls.map Lexeme.token? = pieces.map Except.ok) (stands : ∀ l ∈ ls, l.Stands)
    : (ls.map (Lexeme.renamed f)).map Lexeme.token?
      = (pieces.map (Option.map (Token.renamed f))).map Except.ok := by
  induction pieces generalizing ls with
  | nil =>
      obtain rfl := List.map_eq_nil_iff.mp spelled
      rfl
  | cons piece rest ih =>
      obtain ⟨l, more, rfl, first, others⟩ := List.map_eq_cons_iff.mp spelled
      have again := ih others fun l' member => stands l' (List.mem_cons_of_mem l member)
      simp only [List.map_cons] at again ⊢
      rw [(stands l List.mem_cons_self).token?_renamed free first, again]

/-- A text with other names has the tokens with these names. -/
theorem tokens_renamedText {source : String} {ts : List PlacedToken} (free : KeepsFree f)
    (h : PlacedToken.ofText source = .ok ts)
    : ∃ ts', PlacedToken.ofText (renamedText f source) = .ok ts'
        ∧ ts'.map PlacedToken.token = (ts.map PlacedToken.token).map (Token.renamed f) := by
  rw [PlacedToken.ofText] at h
  cases collected : PlacedToken.collect 0 [] (Lexeme.ofText source.toList) with
  | error fault =>
      rw [collected] at h
      cases h
  | ok found =>
      rw [collected] at h
      cases h
      obtain ⟨pieces, spelled, kinds⟩ := pieces_of_collect collected
      have stands := stands_of_collect collected
      obtain ⟨ts', collected', kinds'⟩ :=
        collect_of_pieces (spelled_renamed free spelled stands) 0 []
      refine ⟨ts', ?_, ?_⟩
      · rw [PlacedToken.ofText, lexemes_renamedText free stands, collected', List.append_nil]
        exact congrArg Except.ok (List.reverse_reverse ts')
      · rw [kinds', List.reduceOption_map]
        exact congrArg (List.map (Token.renamed f)) kinds.symm

/-- A written text with other names is written with these names. -/
theorem renamedText_textOf {pieces : List Piece}
    (chain : pieces.IsChain (fun a b => parted a b = true))
    (writable : ∀ t, some t ∈ pieces → t.Writable)
    : renamedText f (textOf pieces) = textOf (pieces.map (Option.map (Token.renamed f))) := by
  rw [renamedText, textOf, textOf, String.toList_ofList, ofText_pieces chain writable,
    List.flatMap_map, List.flatMap_map]
  refine congrArg String.ofList (List.flatMap_congr ?_)
  intro p member
  have spells := token?_lexemeOf fun t isToken => writable t (isToken ▸ member)
  rcases (lexemeOf p).renamed_cases f with ⟨name, isIdent, _, renamed⟩ | ⟨renamed, other⟩
  · obtain rfl := Except.ok.inj (spells.symm.trans isIdent)
    rw [renamed]
    rfl
  · rw [renamed]
    rcases p with _ | t
    · rfl
    · cases t with
      | ident name => exact absurd spells (other name)
      | _ => rfl

/-- A text with other names is read as the definition with these names, up to places. -/
theorem Definition.ofText_renamedText {source : String} {d : Definition} (free : KeepsFree f)
    (keeps : f d.name = d.name) (h : Definition.ofText source = .ok d)
    : ∃ d', d'.erased = (d.renamed f).erased
        ∧ Definition.ofText (renamedText f source) = .ok d' := by
  unfold Definition.ofText at h
  split at h
  · cases h
  · next ts lexed =>
    obtain ⟨ts', lexed', kinds⟩ := tokens_renamedText free lexed
    unfold Definition.ofText
    rw [lexed']
    exact ((Definition.spells_of_ofTokens h).renamed keeps).read _ kinds

end Texts

end RecordSynth.Source
