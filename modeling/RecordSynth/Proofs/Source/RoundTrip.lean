import Mathlib.Data.List.TakeWhile
import RecordSynth.Proofs.Source.Reading
import RecordSynth.Proofs.Source.Separation

/-! The round trip: a definition that is written down is read back, up to places. The names that
can be written are those that lex as one identifier.
-/

namespace RecordSynth.Source

/-- The name lexes as one token, the identifier of that name. -/
def IsIdentifier (name : String) : Prop :=
  ∃ range, PlacedToken.ofText name = .ok [⟨.ident name, range⟩]

-----------------------------------------------------------------------------------------
-- Names that lex as one identifier
-----------------------------------------------------------------------------------------

section Identifiers

/-- Only a word that is no keyword spells an identifier. -/
theorem shape_of_ident {l : Lexeme} {name : String}
    (h : l.token? = .ok (some (.ident name)))
    : l.shape = .word ∧ l.text = name.toList ∧ Keyword.ofSpelling? name = none := by
  unfold Lexeme.token? at h
  split at h
  · cases h
  · cases h
  · next isWord =>
    dsimp only at h
    split at h
    · cases h
    · next free =>
      cases h
      exact ⟨isWord, by simp, free⟩
  · dsimp only at h
    split at h <;> cases h
  · cases isText : unescape (l.text.drop 1).dropLast <;> rw [isText] at h <;> cases h
  · cases h
  · cases h
  · cases h

/-- The first lexeme of a text is a word only if the text begins with one. -/
theorem next_eq_word {c : Char} {cs : List Char} (h : (Lexeme.next c cs).1.shape = .word)
    : isWordStart c = true ∧ (Lexeme.next c cs).1.text = c :: cs.takeWhile isWordPart := by
  unfold Lexeme.next at h ⊢
  split at h
  · cases h
  split at h
  · next notBlank start => simp [notBlank, start, Lexeme.runAt]
  split at h
  · cases h
  split at h
  · unfold Lexeme.quotedAt at h
    dsimp only at h
    split at h <;> cases h
  split at h
  · cases h
  · unfold Lexeme.markAt at h
    split at h <;> cases h

/-- A lexeme of a text is no longer than the text. -/
theorem length_text_le {cs : List Char} {l : Lexeme} (member : l ∈ Lexeme.ofText cs)
    : l.text.length ≤ cs.length := by
  obtain ⟨before, behind, split⟩ := List.append_of_mem member
  have tiles := congrArg List.length (Lexeme.flatMap_text_ofText cs)
  rw [split, List.flatMap_append, List.flatMap_cons, List.length_append, List.length_append]
    at tiles
  omega

/-- A name lexes as one identifier exactly if it is a word and no keyword. -/
theorem isIdentifier_iff {name : String} : IsIdentifier name ↔ IsFreeWord name := by
  constructor
  · rintro ⟨range, h⟩
    obtain ⟨found, collected, reversed⟩
        : ∃ found, PlacedToken.collect 0 [] (Lexeme.ofText name.toList) = .ok found
          ∧ found.reverse = [⟨.ident name, range⟩] := by
      rw [PlacedToken.ofText] at h
      cases isFound : PlacedToken.collect 0 [] (Lexeme.ofText name.toList) with
      | error fault =>
          rw [isFound] at h
          cases h
      | ok found =>
          rw [isFound] at h
          exact ⟨found, rfl, Except.ok.inj h⟩
    -- The one token comes from one lexeme, whose text is the name.
    obtain ⟨pieces, spelled, kinds⟩ := pieces_of_collect collected
    have only : [Token.ident name] = pieces.reduceOption := by
      simpa [reversed] using kinds
    have inPieces : some (Token.ident name) ∈ pieces := by
      rw [← List.reduceOption_mem_iff, ← only]
      exact List.mem_singleton_self _
    obtain ⟨l, inLexemes, spells⟩ :=
      List.mem_map.mp (spelled ▸ List.mem_map_of_mem (f := Except.ok) inPieces)
    obtain ⟨isWordShape, text, free⟩ := shape_of_ident spells
    refine ⟨?_, free⟩
    cases isText : name.toList with
    | nil =>
        have nonempty := Lexeme.text_ne_nil_of_mem_ofText inLexemes
        exact absurd (text.trans isText) nonempty
    | cons c cs =>
        have first : Lexeme.next c cs = ((Lexeme.next c cs).1, (Lexeme.next c cs).2) := rfl
        rw [isText, ofText_cons first] at inLexemes
        have tiles := Lexeme.next_text c cs
        -- A later lexeme would be shorter than the text, since the first one is not empty.
        rcases List.mem_cons.mp inLexemes with rfl | behind
        · obtain ⟨start, whole⟩ := next_eq_word isWordShape
          have run : cs.takeWhile isWordPart = cs :=
            (List.cons.inj (whole.symm.trans (text.trans isText))).2
          simpa [isWord, start] using List.takeWhile_eq_self_iff.mp run
        · have short := length_text_le behind
          have nonempty := List.length_pos_iff.mpr (Lexeme.next_text_ne_nil c cs)
          have lengths := congrArg List.length tiles
          rw [text, isText] at short
          rw [List.length_append] at lengths
          omega
  · intro free
    obtain ⟨ts, lexed, kinds⟩ := @ofText_textOf [some (.ident name)] (.singleton _)
      (by simpa [Token.Writable] using free)
    obtain ⟨p, _, rfl, isIdent, none⟩ := List.map_eq_cons_iff.mp kinds
    obtain rfl := List.map_eq_nil_iff.mp none
    have itself : textOf [some (.ident name)] = name := by
      simp [textOf, lexemeOf, Token.lexeme]
    exact ⟨p.range, by rw [← isIdent, ← itself, lexed]⟩

end Identifiers

-----------------------------------------------------------------------------------------
-- Trees over such names
-----------------------------------------------------------------------------------------

section Trees

mutual

/-- Every identifier of the expression can be written, and no integer of it has a sign. -/
def Expr.Writable : Expr → Prop
  | .literal _ value => value.token.Writable
  | .var _ name => IsFreeWord name
  | .attr _ object field => object.Writable ∧ IsFreeWord field
  | .call _ callee _ args => IsFreeWord callee ∧ Expr.WritableAll args
  | .tuple _ items => Expr.WritableAll items
  | .compare _ _ left right => left.Writable ∧ right.Writable

/-- Each of the expressions can be written. -/
def Expr.WritableAll : List Expr → Prop
  | [] => True
  | x :: xs => x.Writable ∧ Expr.WritableAll xs

end

mutual

/-- Every expression of the statement can be written, and so can its attribute. -/
def Stmt.Writable : Stmt → Prop
  | .assign _ object field value => object.Writable ∧ IsFreeWord field ∧ value.Writable
  | .giveBack _ none => True
  | .giveBack _ (some value) => value.Writable
  | .yield _ value => value.Writable
  | .branch _ test thenBody elseBody =>
      test.Writable ∧ Stmt.WritableAll thenBody ∧ Stmt.WritableAll elseBody
  | .discard _ value => value.Writable

/-- Each of the statements can be written. -/
def Stmt.WritableAll : List Stmt → Prop
  | [] => True
  | s :: ss => s.Writable ∧ Stmt.WritableAll ss

end

theorem Expr.writableAll_iff {xs : List Expr}
    : Expr.WritableAll xs ↔ ∀ x ∈ xs, x.Writable := by
  induction xs with
  | nil => simp [Expr.WritableAll]
  | cons x rest ih => rw [Expr.WritableAll, ih, List.forall_mem_cons]

theorem Stmt.writableAll_iff {ss : List Stmt}
    : Stmt.WritableAll ss ↔ ∀ s ∈ ss, s.Writable := by
  induction ss with
  | nil => simp [Stmt.WritableAll]
  | cons s rest ih => rw [Stmt.WritableAll, ih, List.forall_mem_cons]

/-- The definitions that can be written down. -/
structure Definition.Writable (d : Definition) : Prop where
  name : IsFreeWord d.name
  params : ∀ p ∈ d.params, IsFreeWord p.name
  body : Stmt.WritableAll d.body

/-- Each token among the pieces can be written. -/
def AllWritable (pieces : List Piece) : Prop :=
  ∀ t, some t ∈ pieces → t.Writable

@[simp] theorem allWritable_nil : AllWritable [] := by
  intro t member
  cases member

@[simp] theorem allWritable_cons_none {pieces : List Piece}
    : AllWritable (none :: pieces) ↔ AllWritable pieces := by
  simp [AllWritable]

@[simp] theorem allWritable_cons_some {t : Token} {pieces : List Piece}
    : AllWritable (some t :: pieces) ↔ t.Writable ∧ AllWritable pieces := by
  simp [AllWritable]

@[simp] theorem allWritable_append {left right : List Piece}
    : AllWritable (left ++ right) ↔ AllWritable left ∧ AllWritable right := by
  simp only [AllWritable, List.mem_append, or_imp, forall_and]

@[simp] theorem writable_mark (m : Mark) : (Token.mark m).Writable :=
  trivial

@[simp] theorem writable_keyword (word : Keyword) : (Token.keyword word).Writable :=
  trivial

@[simp] theorem writable_ident {name : String} : (Token.ident name).Writable ↔ IsFreeWord name :=
  Iff.rfl

theorem writable_operator (op : Comparator) : op.token.Writable := by
  cases op <;> trivial

@[simp] theorem allWritable_inParens {pieces : List Piece}
    : AllWritable (inParens pieces) ↔ AllWritable pieces := by
  simp [inParens]

@[simp] theorem allWritable_inBraces {pieces : List Piece}
    : AllWritable (inBraces pieces) ↔ AllWritable pieces := by
  simp [inBraces]

@[simp] theorem allWritable_guarded {x : Expr} {pieces : List Piece}
    : AllWritable (guarded x pieces) ↔ AllWritable pieces := by
  unfold guarded
  split <;> simp

@[simp] theorem allWritable_separator {α : Type} (trailing : Bool) (rest : List α)
    : AllWritable (separator trailing rest) := by
  unfold separator
  split
  · split <;> simp
  · simp

mutual

/-- The pieces of an expression can be written if it can, by recursion on it. -/
theorem Expr.allWritable_written (x : Expr) (h : x.Writable) : AllWritable x.written := by
  cases x with
  | literal range value => exact allWritable_cons_some.mpr ⟨h, allWritable_nil⟩
  | var range name => exact allWritable_cons_some.mpr ⟨h, allWritable_nil⟩
  | attr range object field =>
      have objectWritable := Expr.allWritable_written object h.1
      simpa [Expr.written, objectWritable] using h.2
  | call range callee calleeRange args =>
      have argsWritable := Expr.allWritable_writtenAll false args h.2
      simpa [Expr.written, argsWritable] using h.1
  | tuple range items =>
      simpa [Expr.written] using Expr.allWritable_writtenAll true items h
  | compare range op left right =>
      have leftWritable := Expr.allWritable_written left h.1
      have rightWritable := Expr.allWritable_written right h.2
      simp [Expr.written, leftWritable, rightWritable, writable_operator]

/-- The pieces of expressions can be written if they can. -/
theorem Expr.allWritable_writtenAll (trailing : Bool) (xs : List Expr)
    (h : Expr.WritableAll xs)
    : AllWritable (Expr.writtenAll trailing xs) := by
  cases xs with
  | nil => exact allWritable_nil
  | cons x rest =>
      have headWritable := Expr.allWritable_written x h.1
      have restWritable := Expr.allWritable_writtenAll trailing rest h.2
      simp [Expr.writtenAll, headWritable, restWritable]

end

mutual

/-- The pieces of a statement can be written if it can, by recursion on it. -/
theorem Stmt.allWritable_written (s : Stmt) (h : s.Writable) : AllWritable s.written := by
  cases s with
  | assign range object field value =>
      have objectWritable := object.allWritable_written h.1
      have valueWritable := value.allWritable_written h.2.2
      simpa [Stmt.written, objectWritable, valueWritable] using h.2.1
  | giveBack range value =>
      cases value with
      | none => simp [Stmt.written]
      | some value => simpa [Stmt.written] using value.allWritable_written h
  | yield range value => simpa [Stmt.written] using value.allWritable_written h
  | branch range test thenBody elseBody =>
      have testWritable := test.allWritable_written h.1
      have thenWritable := Stmt.allWritable_writtenAll thenBody h.2.1
      have elseWritable := Stmt.allWritable_writtenAll elseBody h.2.2
      cases elseBody with
      | nil => simp [Stmt.written, testWritable, thenWritable]
      | cons first rest => simp [Stmt.written, testWritable, thenWritable, elseWritable]
  | discard range value => simpa [Stmt.written] using value.allWritable_written h

/-- The pieces of statements can be written if they can. -/
theorem Stmt.allWritable_writtenAll (ss : List Stmt) (h : Stmt.WritableAll ss)
    : AllWritable (Stmt.writtenAll ss) := by
  cases ss with
  | nil => exact allWritable_nil
  | cons s rest =>
      have headWritable := Stmt.allWritable_written s h.1
      have restWritable := Stmt.allWritable_writtenAll rest h.2
      simp [Stmt.writtenAll, headWritable, restWritable]

end

/-- The pieces of parameters can be written if their names can, by induction on them. -/
theorem Param.allWritable_writtenAll {ps : List Param} (h : ∀ p ∈ ps, IsFreeWord p.name)
    : AllWritable (Param.writtenAll ps) := by
  induction ps with
  | nil => exact allWritable_nil
  | cons p rest ih =>
      have restWritable := ih (fun q member => h q (List.mem_cons_of_mem p member))
      simpa [Param.writtenAll, restWritable] using h p List.mem_cons_self

theorem Definition.Writable.allWritable {d : Definition} (h : d.Writable)
    : AllWritable d.written := by
  have paramsWritable := Param.allWritable_writtenAll h.params
  have bodyWritable := Stmt.allWritable_writtenAll d.body h.body
  have opens : AllWritable (opening d.isGenerator) := by
    unfold opening
    split <;> simp
  simpa [Definition.written, paramsWritable, bodyWritable, opens] using h.name

end Trees

/-- A definition that is written down is read back, up to places. -/
theorem Definition.Writable.ofText_textOf {d : Definition} (h : d.Writable)
    : ∃ d', d'.erased = d.erased ∧ Definition.ofText (textOf d.written) = .ok d' := by
  obtain ⟨ts, lexed, kinds⟩ := Source.ofText_textOf d.firm_written.chain h.allWritable
  unfold Definition.ofText
  rw [lexed]
  exact d.spells_written.read _ kinds

end RecordSynth.Source
