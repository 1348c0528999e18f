import RecordSynth.Proofs.Source.Spans
import RecordSynth.Proofs.Source.Substitution

/-! Spacing does not matter. The tokens of a text are the tokens of their slices with one space
between any two, and what has the same tokens compiles to the same program.
-/

namespace RecordSynth

namespace Source

/-- The lexeme of one space. -/
def space : Lexeme :=
  lexemeOf none

-----------------------------------------------------------------------------------------
-- Tokens and spaces stay apart
-----------------------------------------------------------------------------------------

section Spacing

theorem stands_space : space.Stands :=
  Lexeme.stands_lexemeOf nofun

/-- A space continues separators only. -/
theorem apart_space {l : Lexeme} (token : l.shape.isSeparator = false) : l.Apart space := by
  rintro _ ⟨⟩
  cases isShape : l.shape with
  | blank | comment =>
      rw [isShape] at token
      cases token
  | mark m => cases m <;> rfl
  | _ => rfl

/-- A space is continued by blanks only. -/
theorem space_apart {l : Lexeme} (stands : l.Stands) (token : l.shape.isSeparator = false)
    : space.Apart l := by
  obtain ⟨c, cs, text, first⟩ := stands [] nofun
  rw [List.append_nil] at first
  intro d head
  rw [text] at head
  obtain rfl := Option.some.inj head
  cases blank : isBlank c with
  | false => simp [Shape.stops, space, lexemeOf, blank]
  | true =>
      rw [Lexeme.next, if_pos blank, Lexeme.runAt] at first
      obtain rfl := (Prod.mk.inj first).1
      cases token

/-- Tokens with a space between any two stay apart, by induction on the tokens. -/
theorem chain_intersperse {ls : List Lexeme} (stands : ∀ l ∈ ls, l.Stands)
    (tokens : ∀ l ∈ ls, l.shape.isSeparator = false)
    : (ls.intersperse space).IsChain Lexeme.Apart := by
  induction ls with
  | nil => exact .nil
  | cons l rest ih =>
      obtain ⟨-, restStands⟩ := List.forall_mem_cons.mp stands
      obtain ⟨token, restTokens⟩ := List.forall_mem_cons.mp tokens
      have chain := ih restStands restTokens
      cases rest with
      | nil => exact .singleton l
      | cons next more =>
          have nextStands := restStands next List.mem_cons_self
          have apart := space_apart nextStands (restTokens next List.mem_cons_self)
          rw [List.intersperse_cons_cons]
          refine List.isChain_cons_cons.mpr ⟨apart_space token, ?_⟩
          refine List.isChain_cons.mpr ⟨?_, chain⟩
          intro l' head
          cases more <;> cases head <;> exact apart

theorem forall_mem_intersperse {α : Type} {holds : α → Prop} {sep : α} {xs : List α}
    (separator : holds sep) (each : ∀ x ∈ xs, holds x)
    : ∀ x ∈ xs.intersperse sep, holds x := by
  induction xs with
  | nil => nofun
  | cons x rest ih =>
      obtain ⟨first, others⟩ := List.forall_mem_cons.mp each
      cases rest with
      | nil => exact each
      | cons next more =>
          rw [List.intersperse_cons_cons]
          exact List.forall_mem_cons.mpr ⟨first, List.forall_mem_cons.mpr ⟨separator, ih others⟩⟩

theorem toList_intercalate_space (ls : List Lexeme)
    : (String.intercalate " " (ls.map fun l => String.ofList l.text)).toList
      = (ls.intersperse space).flatMap Lexeme.text := by
  rw [String.toList_intercalate, List.map_map]
  induction ls with
  | nil => rfl
  | cons l rest ih =>
      cases rest with
      | nil => simp [List.intersperse]
      | cons next more =>
          rw [List.map_cons, List.intercalate_cons_of_ne_nil (by simp), ih]
          simp [List.intersperse_cons_cons, space, lexemeOf]

/-- Lexemes with a space between any two spell what they spell without, by induction on them. -/
theorem spells_intersperse {ls : List Lexeme} {tokens : List Token}
    (spell : ls.map Lexeme.token? = tokens.map fun t => .ok (some t))
    : ∃ pieces : List Piece, (ls.intersperse space).map Lexeme.token? = pieces.map Except.ok
        ∧ pieces.reduceOption = tokens := by
  induction tokens generalizing ls with
  | nil =>
      obtain rfl := List.map_eq_nil_iff.mp spell
      exact ⟨[], rfl, rfl⟩
  | cons t rest ih =>
      obtain ⟨l, more, rfl, first, others⟩ := List.map_eq_cons_iff.mp spell
      obtain ⟨pieces, spelled, kinds⟩ := ih others
      cases more with
      | nil =>
          obtain rfl := List.map_eq_nil_iff.mp others.symm
          exact ⟨[some t], congrArg (List.cons · []) first, rfl⟩
      | cons next others =>
          refine ⟨some t :: none :: pieces, ?_, ?_⟩
          · rw [List.intersperse_cons_cons, List.map_cons, List.map_cons, spelled, first]
            rfl
          · rw [List.reduceOption_cons_of_some, List.reduceOption_cons_of_none, kinds]

/-- A text of tokens with one space between any two has these tokens. -/
theorem ofText_intercalate_space {ls : List Lexeme} {tokens : List Token}
    (stands : ∀ l ∈ ls, l.Stands) (areTokens : ∀ l ∈ ls, l.shape.isSeparator = false)
    (spell : ls.map Lexeme.token? = tokens.map fun t => .ok (some t))
    : ∃ ts, PlacedToken.ofText (String.intercalate " " (ls.map fun l => String.ofList l.text))
          = .ok ts
        ∧ ts.map PlacedToken.token = tokens := by
  obtain ⟨pieces, spelled, kinds⟩ := spells_intersperse spell
  obtain ⟨ts, collected, tokens⟩ := collect_of_pieces spelled 0 []
  refine ⟨ts, ?_, tokens.trans kinds⟩
  rw [PlacedToken.ofText, toList_intercalate_space,
    Lexeme.ofText_flatMap_text (chain_intersperse stands areTokens)
      (forall_mem_intersperse stands_space stands), collected, List.append_nil]
  exact congrArg Except.ok (List.reverse_reverse ts)

end Spacing

end Source

open Source

/-- Texts with the same tokens compile to the same program. -/
theorem Program.ofText_of_tokens {source source' : String} {ts ts' : List PlacedToken}
    {p : Program} (lexed : PlacedToken.ofText source = .ok ts)
    (lexed' : PlacedToken.ofText source' = .ok ts')
    (kinds : ts'.map PlacedToken.token = ts.map PlacedToken.token)
    (compiled : Program.ofText source = .ok p)
    : Program.ofText source' = .ok p := by
  obtain ⟨d, isRead, built⟩ := bind_eq_ok.mp compiled
  rw [Definition.ofText, lexed] at isRead
  obtain ⟨d', same, isRead'⟩ := (Definition.spells_of_ofTokens isRead).read
    (ByteRange.ofOffsets source'.utf8ByteSize source'.utf8ByteSize) kinds
  refine bind_eq_ok.mpr ⟨d', ?_, Program.ofDefinition_of_erased_eq same built⟩
  rw [Definition.ofText, lexed']
  exact isRead'

namespace Source

/-- Tokens tile their text, and their spacing does not matter. In a text that is not too long for
ranges, each token has a range of its own of at least one byte, one behind the other, and what is
left out is blank or a comment; the end of input is the empty range at the end of the text. With
the slices of the tokens joined by single spaces, the text has the same tokens, and compiles if and
only if it did, to the same program.
-/
theorem PlacedToken.tiles_and_respaces {source : String} {ts : List PlacedToken}
    (short : source.utf8ByteSize ≤ maxOffset) (lexed : PlacedToken.ofText source = .ok ts)
    : (∀ t ∈ ts, t.range.start < t.range.stop ∧ t.range.stop ≤ source.utf8ByteSize)
      ∧ ts.Pairwise (fun t t' => t.range.stop ≤ t'.range.start)
      ∧ (∀ r ∈ gapsFrom 0 source.utf8ByteSize ts, r.IsGapOf source)
      ∧ Definition.ofText source
        = Definition.ofTokens ⟨source.utf8ByteSize, source.utf8ByteSize⟩ ts
      ∧ ∃ slices : List String,
        (ts.map fun t => t.range.slice? source) = slices.map some
        ∧ (∃ ts', PlacedToken.ofText (String.intercalate " " slices) = .ok ts'
            ∧ ts'.map PlacedToken.token = ts.map PlacedToken.token)
        ∧ ∀ p, Program.ofText (String.intercalate " " slices) = .ok p
            ↔ Program.ofText source = .ok p := by
  have tiles : source.toList = [] ++ (Lexeme.ofText source.toList).flatMap Lexeme.text :=
    (Lexeme.flatMap_text_ofText source.toList).symm
  have placed := placed_of_ofText short lexed
  obtain ⟨result, collected, -⟩ := PlacedToken.exists_collect lexed
  have nonempty : ∀ l ∈ Lexeme.ofText source.toList, l.text ≠ [] :=
    fun l member => Lexeme.text_ne_nil_of_mem_ofText member
  have found : ∀ l ∈ Lexeme.ofText source.toList, ∃ c cs, l = (Lexeme.next c cs).1 := by
    intro l member
    rcases Lexeme.exists_next (List.mem_reverse.mp member) with none | isNext
    · cases none
    · exact isNext
  have range : ByteRange.ofOffsets source.utf8ByteSize source.utf8ByteSize
      = ⟨source.utf8ByteSize, source.utf8ByteSize⟩ :=
    ByteRange.ofOffsets_eq (Nat.le_refl _) short
  have spells : ((Lexeme.ofText source.toList).filter fun l => !l.shape.isSeparator).map
      Lexeme.token? = (ts.map PlacedToken.token).map fun t => .ok (some t) := by
    rw [placed.spells, List.map_map]
    rfl
  obtain ⟨spaced, lexed', kinds⟩ := ofText_intercalate_space
    (fun l member => stands_of_collect collected l (List.mem_filter.mp member).1)
    (fun l member => by simpa using (List.mem_filter.mp member).2) spells
  refine ⟨?_, placed.pairwise nonempty, ?_, ?_, ?_⟩
  · intro t member
    obtain ⟨-, inner, stops⟩ := placed.range_bounds nonempty t member
    exact ⟨inner, byteCount_lexemes source ▸ stops⟩
  · exact @Placed.gaps source _ _ [] [] placed tiles (.nil _)
      (Lexeme.chain_ofText source.toList) found
  · rw [Definition.ofText, lexed]
    dsimp only
    rw [range]
  · refine ⟨_, ?_, ⟨spaced, lexed', kinds⟩, ?_⟩
    · rw [placed.slices tiles, List.map_map]
      rfl
    · intro p
      exact ⟨Program.ofText_of_tokens lexed' lexed kinds.symm,
        Program.ofText_of_tokens lexed lexed' kinds⟩

/-- Witness: a word up against a string literal with slashes in it, and a comment with a quote in it
up against a mark.
-/
theorem PlacedToken.tiles_and_respaces_adjacent
    : let source := "fn f()\x7breturn\"//\";\x7d// \""
      ∃ ts, source.utf8ByteSize ≤ maxOffset ∧ PlacedToken.ofText source = .ok ts
        ∧ (∀ r ∈ gapsFrom 0 source.utf8ByteSize ts, r.IsGapOf source)
        ∧ (∃ p, Program.ofText source = .ok p)
        ∧ ∀ p, Program.ofText "fn f ( ) \x7b return \"//\" ; \x7d" = .ok p
          ↔ Program.ofText source = .ok p := by
  intro source
  have lexed : PlacedToken.ofText source = .ok
      [⟨.keyword .fn, ⟨0, 2⟩⟩, ⟨.ident "f", ⟨3, 4⟩⟩, ⟨.mark .parenOpen, ⟨4, 5⟩⟩,
        ⟨.mark .parenClose, ⟨5, 6⟩⟩, ⟨.mark .braceOpen, ⟨6, 7⟩⟩, ⟨.keyword .return, ⟨7, 13⟩⟩,
        ⟨.str "//", ⟨13, 17⟩⟩, ⟨.mark .semicolon, ⟨17, 18⟩⟩, ⟨.mark .braceClose, ⟨18, 19⟩⟩] := by
    decide +kernel
  have short : source.utf8ByteSize ≤ maxOffset := by decide
  obtain ⟨-, -, gaps, -, slices, areSlices, -, same⟩ :=
    PlacedToken.tiles_and_respaces short lexed
  have explicit : slices = ["fn", "f", "(", ")", "\x7b", "return", "\"//\"", ";", "\x7d"] := by
    refine List.map_injective_iff.mpr (fun _ _ => Option.some.inj) (areSlices.symm.trans ?_)
    decide +kernel
  have joined : String.intercalate " " slices = "fn f ( ) \x7b return \"//\" ; \x7d" := by
    rw [explicit]
    decide
  have compiles : ∃ p, Program.ofText source = .ok p := by
    let d : Definition :=
      ⟨"f", [], false, [.giveBack ⟨7, 18⟩ (some (.literal ⟨13, 17⟩ (.str "//")))], ⟨0, 19⟩⟩
    have accepted : d.Accepted :=
      ⟨.nil, by decide, ⟨trivial, trivial⟩, by decide, by decide,
        targetsFit_cons.mpr ⟨nofun, targetsFit_singleton rfl⟩⟩
    obtain ⟨d', same, isRead⟩
        : ∃ d', d'.erased = d.erased ∧ Definition.ofText source = .ok d' := by
      rw [Definition.ofText, lexed]
      exact d.spells_written.read _ rfl
    have accepted' : d'.Accepted := by
      rw [← d'.accepted_erased_iff, same, d.accepted_erased_iff]
      exact accepted
    exact ⟨_, bind_eq_ok.mpr ⟨_, isRead, Program.ofDefinition_eq_ok_iff.mpr ⟨accepted', rfl⟩⟩⟩
  rw [joined] at same
  exact ⟨_, short, lexed, gaps, compiles, same⟩

end Source

end RecordSynth
