import Mathlib.Computability.Language
import RecordSynth.Proofs.Source.Reading

/-! Tokens that can be continued to complete definitions, and what they can be continued with. The
languages here are those of the phrases of the grammar, some of them with the mark that ends the
phrase. Each rule of the grammar says what can stand behind the beginning of a phrase.
-/

namespace RecordSynth.Source

open Computability

-----------------------------------------------------------------------------------------
-- Languages of the grammar
-----------------------------------------------------------------------------------------

/-- What spells phrases of one kind. -/
def spellings {α : Type} (kind : α → Phrase) : Language Token :=
  {us | ∃ a, Spells us (kind a)}

/-- The one token, and nothing else. -/
def only (token : Token) : Language Token :=
  {[token]}

/-- Any one identifier. -/
def identifiers : Language Token :=
  {us | ∃ name, us = [.ident name]}

/-- What spells the items of a list. -/
def itemSpellings : Language Token :=
  {us | ∃ comma xs, Spells us (.items comma xs)}

/-- Items with the parenthesis that closes their list. -/
def lists : Language Token :=
  itemSpellings * only (.mark .parenClose)

/-- An expression with its semicolon. -/
def lines : Language Token :=
  spellings .expr * only (.mark .semicolon)

/-- The statements of a block with the brace that closes it. -/
def bodies : Language Token :=
  spellings .stmts * only (.mark .braceClose)

/-- What spells a list of parameters. -/
def paramSpellings : Language Token :=
  {us | ∃ ps, SpellsParams us ps}

/-- Parameters with the parenthesis that closes their list. -/
def paramLists : Language Token :=
  paramSpellings * only (.mark .parenClose)

/-- A definition from its `fn` on. -/
def signatures : Language Token :=
  only (.keyword .fn)
    * (identifiers * (only (.mark .parenOpen) * (paramLists * spellings .block)))

/-- What spells a definition. -/
def definitionSpellings : Language Token :=
  {us | ∃ d, SpellsDefinition us d}

/-- Complete definitions, one after the other. -/
def sources : Language Token :=
  definitionSpellings∗

section Languages

variable {token : Token} {us vs ws : List Token} {l : Language Token}

theorem only_mem (token : Token) : [token] ∈ only token :=
  rfl

theorem mem_mul_only (l : Language Token) (mem : us ∈ l) (token : Token)
    : us ++ [token] ∈ l * only token :=
  Language.append_mem_mul mem (only_mem token)

theorem ident_mem (name : String) : [.ident name] ∈ identifiers :=
  ⟨name, rfl⟩

theorem exists_of_mem_mul_only (mem : us ∈ l * only token) : ∃ vs ∈ l, us = vs ++ [token] := by
  obtain ⟨vs, isFront, _, rfl, rfl⟩ := Language.mem_mul.mp mem
  exact ⟨vs, isFront, rfl⟩

theorem none_mem_primaries : [.keyword .none] ∈ spellings .primary :=
  ⟨.literal default .none, .literal rfl⟩

/-- A primary is an operand, and an operand is an expression. -/
theorem mem_operands (mem : us ∈ spellings .primary) : us ∈ spellings .operand := by
  obtain ⟨x, spelled⟩ := mem
  exact ⟨x, .operand spelled⟩

theorem mem_exprs (mem : us ∈ spellings .operand) : us ∈ spellings .expr := by
  obtain ⟨x, spelled⟩ := mem
  exact ⟨x, .expr spelled⟩

theorem attr_mem_operands (mem : us ∈ spellings .operand) (name : String)
    : us ++ [.mark .dot, .ident name] ∈ spellings .operand := by
  obtain ⟨x, spelled⟩ := mem
  exact ⟨.attr default x name, .attr spelled⟩

theorem compare_mem_exprs {op : Comparator} (mem : us ∈ spellings .expr)
    (operator : Reader.comparator? token = some op) (right : vs ∈ spellings .operand)
    : us ++ token :: vs ∈ spellings .expr := by
  obtain ⟨x, spelled⟩ := mem
  obtain ⟨y, rightSpelled⟩ := right
  exact ⟨.compare default op x y, .compare spelled operator rightSpelled⟩

/-- Behind an item, a list ends or goes on with a comma and what is a list again. -/
theorem lastItem_mem_lists (mem : us ∈ spellings .expr) : us ++ [.mark .parenClose] ∈ lists := by
  obtain ⟨x, spelled⟩ := mem
  exact mem_mul_only itemSpellings ⟨false, [x], .lastItem spelled⟩ _

theorem item_mem_lists (mem : us ∈ spellings .expr) (more : vs ∈ lists)
    : us ++ .mark .comma :: vs ∈ lists := by
  obtain ⟨x, spelled⟩ := mem
  obtain ⟨ws, ⟨comma, xs, listSpelled⟩, rfl⟩ := exists_of_mem_mul_only more
  rw [← List.cons_append, ← List.append_assoc]
  exact mem_mul_only itemSpellings ⟨_, x :: xs, .item spelled listSpelled⟩ _

theorem call_mem_primaries (callee : String) (mem : us ∈ lists)
    : .ident callee :: .mark .parenOpen :: us ∈ spellings .primary := by
  obtain ⟨vs, ⟨comma, xs, spelled⟩, rfl⟩ := exists_of_mem_mul_only mem
  exact ⟨.call default callee default xs, .call spelled⟩

/-- A list behind an opening parenthesis is a group or a tuple. -/
theorem paren_mem_primaries (mem : us ∈ lists) : .mark .parenOpen :: us ∈ spellings .primary := by
  obtain ⟨vs, ⟨comma, xs, spelled⟩, rfl⟩ := exists_of_mem_mul_only mem
  cases spelled with
  | noItems => exact ⟨.tuple default [], .tuple .noItems nofun⟩
  | @lastItem _ x spelled => exact ⟨x.placedAt default, .group spelled⟩
  | @item _ _ x comma xs first rest =>
      refine ⟨.tuple default (x :: xs), .tuple (.item first rest) ?_⟩
      intro single
      obtain rfl : xs = [] := List.length_eq_zero_iff.mp (Nat.succ.inj single)
      exact Bool.or_true comma

theorem discard_mem_stmts (mem : us ∈ lines) : us ∈ spellings .stmt := by
  obtain ⟨vs, ⟨x, spelled⟩, rfl⟩ := exists_of_mem_mul_only mem
  exact ⟨.discard default x, .discard spelled⟩

theorem assign_mem_stmts {range : ByteRange} {object : Expr} {field : String}
    (target : Spells us (.expr (.attr range object field))) (mem : vs ∈ lines)
    : us ++ .mark .assign :: vs ∈ spellings .stmt := by
  obtain ⟨ws, ⟨x, spelled⟩, rfl⟩ := exists_of_mem_mul_only mem
  exact ⟨.assign default object field x, .assign target spelled⟩

theorem return_mem_stmts (mem : us ∈ lines) : .keyword .return :: us ∈ spellings .stmt := by
  obtain ⟨vs, ⟨x, spelled⟩, rfl⟩ := exists_of_mem_mul_only mem
  exact ⟨.giveBack default (some x), .giveBack spelled⟩

theorem yield_mem_stmts (mem : us ∈ lines) : .keyword .yield :: us ∈ spellings .stmt := by
  obtain ⟨vs, ⟨x, spelled⟩, rfl⟩ := exists_of_mem_mul_only mem
  exact ⟨.yield default x, .yield spelled⟩

theorem if_mem_stmts (mem : us ∈ spellings .branch) : .keyword .if :: us ∈ spellings .stmt := by
  obtain ⟨s, spelled⟩ := mem
  exact ⟨s, .branch spelled⟩

theorem ifThen_mem_branches (test : us ∈ spellings .expr) (mem : vs ∈ spellings .block)
    : us ++ vs ∈ spellings .branch := by
  obtain ⟨x, testSpelled⟩ := test
  obtain ⟨ss, spelled⟩ := mem
  exact ⟨.branch default x ss [], .ifThen testSpelled spelled⟩

theorem ifElse_mem_branches (test : us ∈ spellings .expr) (mem : vs ∈ spellings .block)
    (other : ws ∈ spellings .block)
    : us ++ (vs ++ .keyword .else :: ws) ∈ spellings .branch := by
  obtain ⟨x, testSpelled⟩ := test
  obtain ⟨ss, spelled⟩ := mem
  obtain ⟨others, otherSpelled⟩ := other
  exact ⟨.branch default x ss others, .ifElse testSpelled spelled otherSpelled⟩

theorem elseIf_mem_branches (test : us ∈ spellings .expr) (mem : vs ∈ spellings .block)
    (nested : ws ∈ spellings .branch)
    : us ++ (vs ++ .keyword .else :: .keyword .if :: ws) ∈ spellings .branch := by
  obtain ⟨x, testSpelled⟩ := test
  obtain ⟨ss, spelled⟩ := mem
  obtain ⟨s, nestedSpelled⟩ := nested
  exact ⟨.branch default x ss [s], .elseIf testSpelled spelled nestedSpelled⟩

theorem brace_mem_blocks (mem : us ∈ bodies) : .mark .braceOpen :: us ∈ spellings .block := by
  obtain ⟨vs, ⟨ss, spelled⟩, rfl⟩ := exists_of_mem_mul_only mem
  exact ⟨ss, .block spelled⟩

theorem close_mem_bodies : [.mark .braceClose] ∈ bodies :=
  mem_mul_only (spellings .stmts) ⟨[], .noStmts⟩ (.mark .braceClose)

theorem empty_mem_blocks : [.mark .braceOpen, .mark .braceClose] ∈ spellings .block :=
  brace_mem_blocks close_mem_bodies

theorem stmt_mem_bodies (mem : us ∈ spellings .stmt) (more : vs ∈ bodies)
    : us ++ vs ∈ bodies := by
  obtain ⟨s, spelled⟩ := mem
  obtain ⟨ws, ⟨ss, bodySpelled⟩, rfl⟩ := exists_of_mem_mul_only more
  rw [← List.append_assoc]
  exact mem_mul_only (spellings .stmts) ⟨s :: ss, .nextStmt spelled bodySpelled⟩ _

theorem close_mem_paramLists : [.mark .parenClose] ∈ paramLists :=
  mem_mul_only paramSpellings ⟨[], .noParams⟩ (.mark .parenClose)

theorem lastParam_mem_paramLists (name : String)
    : [.ident name, .mark .parenClose] ∈ paramLists :=
  mem_mul_only paramSpellings ⟨[⟨name, default⟩], .lastParam⟩ (.mark .parenClose)

theorem param_mem_paramLists (name : String) (mem : us ∈ paramLists)
    : .ident name :: .mark .comma :: us ∈ paramLists := by
  obtain ⟨vs, ⟨ps, spelled⟩, rfl⟩ := exists_of_mem_mul_only mem
  exact mem_mul_only paramSpellings ⟨⟨name, default⟩ :: ps, .param spelled⟩
    (.mark .parenClose)

theorem fromParams_mem
    : [.mark .parenClose, .mark .braceOpen, .mark .braceClose]
      ∈ paramLists * spellings .block :=
  Language.append_mem_mul close_mem_paramLists empty_mem_blocks

theorem fromParen_mem
    : [.mark .parenOpen, .mark .parenClose, .mark .braceOpen, .mark .braceClose]
      ∈ only (.mark .parenOpen) * (paramLists * spellings .block) :=
  Language.append_mem_mul (only_mem _) fromParams_mem

theorem fromName_mem
    : [.ident "", .mark .parenOpen, .mark .parenClose, .mark .braceOpen, .mark .braceClose]
      ∈ identifiers * (only (.mark .parenOpen) * (paramLists * spellings .block)) :=
  Language.append_mem_mul (ident_mem "") fromParen_mem

/-- A definition of any kind goes on alike from its `fn` on. -/
theorem exists_of_mem_signatures (mem : us ∈ signatures) (isGenerator : Bool)
    : ∃ vs, us = .keyword .fn :: vs
      ∧ openingTokens isGenerator ++ vs ∈ definitionSpellings := by
  obtain ⟨_, rfl, _, fromName, rfl⟩ := Language.mem_mul.mp mem
  obtain ⟨_, ⟨name, rfl⟩, _, fromParen, rfl⟩ := Language.mem_mul.mp fromName
  obtain ⟨_, rfl, _, inParens, rfl⟩ := Language.mem_mul.mp fromParen
  obtain ⟨_, list, vs, ⟨body, bodySpelled⟩, rfl⟩ := Language.mem_mul.mp inParens
  obtain ⟨ts, ⟨ps, paramsSpelled⟩, rfl⟩ := exists_of_mem_mul_only list
  refine ⟨_, rfl, ⟨name, ps, isGenerator, body, default⟩, ?_⟩
  have spelled : SpellsDefinition _ ⟨name, ps, isGenerator, body, default⟩ :=
    .definition paramsSpelled bodySpelled
  simpa using spelled

theorem definition_append_mem_sources (mem : us ∈ definitionSpellings) (more : vs ∈ sources)
    : us ++ vs ∈ sources := by
  have le : definitionSpellings * definitionSpellings∗ ≤ definitionSpellings∗ :=
    mul_kstar_le_kstar
  exact le (Language.append_mem_mul mem more)

end Languages

-----------------------------------------------------------------------------------------
-- What can be completed
-----------------------------------------------------------------------------------------

/-- The tokens can be continued to complete definitions. -/
def Completable (us : List Token) : Prop :=
  ∃ more, us ++ more ∈ sources

theorem Completable.of_append {us vs : List Token} (h : Completable (us ++ vs))
    : Completable us := by
  obtain ⟨more, complete⟩ := h
  rw [List.append_assoc] at complete
  exact ⟨vs ++ more, complete⟩

/-- Behind the tokens, anything of the language can stand, and be continued. -/
def Admits (before : List PlacedToken) (l : Language Token) : Prop :=
  ∀ us ∈ l, Completable (before.map PlacedToken.token ++ us)

namespace Admits

variable {before front : List PlacedToken} {l m : Language Token} {us : List Token}

/-- What already stands there can be continued. -/
theorem completable (h : Admits before l) (mem : us ∈ l)
    : Completable (before.map PlacedToken.token) :=
  (h us mem).of_append

/-- What makes a phrase of `front` can stand behind it where the phrase can stand. -/
theorem behind (h : Admits before m)
    (inside : ∀ us ∈ l, front.map PlacedToken.token ++ us ∈ m)
    : Admits (before ++ front) l := by
  intro us mem
  rw [List.map_append, List.append_assoc]
  exact h _ (inside us mem)

theorem mono (h : Admits before m) (inside : ∀ us ∈ l, us ∈ m) : Admits before l :=
  fun us mem => h us (inside us mem)

/-- What makes a phrase with more behind it can stand where the phrase can. -/
theorem ahead (h : Admits before m) (us : List Token) (inside : ∀ vs ∈ l, vs ++ us ∈ m)
    : Admits before l := by
  intro vs mem
  have whole := h _ (inside vs mem)
  rw [← List.append_assoc] at whole
  exact whole.of_append

/-- The first part of a phrase can stand where the phrase can. -/
theorem first (h : Admits before (l * m)) (mem : us ∈ m) : Admits before l :=
  h.ahead us fun _ isFirst => Language.append_mem_mul isFirst mem

/-- Behind the first part of a phrase, the second one can stand. -/
theorem second (h : Admits before (l * m)) (front : List PlacedToken)
    (mem : front.map PlacedToken.token ∈ l)
    : Admits (before ++ front) m :=
  h.behind fun _ isSecond => Language.append_mem_mul mem isSecond

end Admits

theorem admits_sources : Admits [] sources := by
  intro us complete
  exact ⟨[], by rw [List.append_nil]; exact complete⟩

end RecordSynth.Source
