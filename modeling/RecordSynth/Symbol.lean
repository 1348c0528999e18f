import RecordSynth.Roster.Basic
import RecordSynth.Text.Inspect

/-! Symbols stand for texts, equal symbols for equal texts. They are numbered within sixteen
shards, and the first bytes of a text decide its shard. A symbol is one word of 32 bits.
-/

namespace RecordSynth

/-- The shard of a text, in the upper four bits of a word, and its number there, in the others. -/
structure Symbol where
  word : UInt32
  deriving DecidableEq, Inhabited

namespace Symbol

/-- The symbol of the empty text. -/
def empty : Symbol :=
  ⟨0⟩

/-- The largest number in a shard. -/
def maxNumber : Nat := 268435455

/-- The symbol with a number in a shard. -/
def ofParts (shard : Fin 16) (number : Nat) : Symbol :=
  ⟨UInt32.ofNat shard.val <<< 28 ||| UInt32.ofNat number⟩

/-- The shard of the symbol's text. -/
def shard (symbol : Symbol) : Fin 16 :=
  Fin.ofNat 16 (symbol.word >>> 28).toNat

/-- The number of the symbol's text in its shard. -/
def number (symbol : Symbol) : Nat :=
  (symbol.word &&& 268435455).toNat

/-- The two parts of a word are apart, so that the word is their sum. -/
theorem toNat_word_ofParts (shard : Fin 16) {number : Nat} (fits : number ≤ maxNumber)
    : (ofParts shard number).word.toNat = shard.val * 268435456 + number := by
  have below : number < 2 ^ 28 := Nat.lt_of_le_of_lt fits (by decide)
  have shardBelow : shard.val < 2 ^ 4 := shard.isLt
  have upper : (UInt32.ofNat shard.val <<< 28).toNat = shard.val <<< 28 := by
    have shifted : shard.val <<< 28 < 2 ^ 32 := by
      rw [Nat.shiftLeft_eq]
      omega
    simp only [UInt32.toNat_shiftLeft, UInt32.toNat_ofNat']
    rw [Nat.mod_eq_of_lt (Nat.lt_trans shardBelow (by decide))]
    exact Nat.mod_eq_of_lt shifted
  have lower : (UInt32.ofNat number).toNat = number :=
    Nat.mod_eq_of_lt (Nat.lt_trans below (by decide))
  rw [ofParts, UInt32.toNat_or, upper, lower, ← Nat.shiftLeft_add_eq_or_of_lt below,
    Nat.shiftLeft_eq]

theorem shard_ofParts (shard : Fin 16) {number : Nat} (fits : number ≤ maxNumber)
    : (ofParts shard number).shard = shard := by
  have shardBelow := shard.isLt
  have quotient : (shard.val * 268435456 + number) / 2 ^ 28 = shard.val := by
    simp only [maxNumber] at fits
    omega
  refine Fin.ext ?_
  simp only [Symbol.shard, Fin.val_ofNat, UInt32.toNat_shiftRight, toNat_word_ofParts shard fits,
    Nat.shiftRight_eq_div_pow]
  exact quotient.symm ▸ Nat.mod_eq_of_lt shardBelow

theorem number_ofParts (shard : Fin 16) {number : Nat} (fits : number ≤ maxNumber)
    : (ofParts shard number).number = number := by
  have remainder : (shard.val * 268435456 + number) % 2 ^ 28 = number := by
    simp only [maxNumber] at fits
    omega
  rw [Symbol.number, UInt32.toNat_and, toNat_word_ofParts shard fits]
  exact (Nat.and_two_pow_sub_one_eq_mod _ 28).trans remainder

/-- The inspected form of the symbol of a text. -/
def inspect (text : String) : String :=
  "Name(" ++ Text.inspect text ++ ")"

end Symbol

/-- A shard that has no number left for another text. -/
structure ShardFull where
  shard : Nat
  count : Nat
  deriving DecidableEq, Inhabited

/-- The error message. -/
def ShardFull.message (error : ShardFull) : String :=
  "interner shard " ++ toString error.shard ++ " exceeded capacity: " ++ toString error.count
    ++ " strings, max is " ++ toString Symbol.maxNumber

/-- The texts of each shard in the order of their numbers. -/
structure SymbolTable where
  shards : Vector (Roster (id : String → String)) 16

namespace SymbolTable

/-- The table that holds the empty text only. -/
def initial : SymbolTable :=
  ⟨(Vector.replicate 16 .empty).set 0 (Roster.empty.insert "")⟩

/-- How many bytes of a text decide its shard. -/
def shardBytes : Nat := 8

/-- The bytes at the front of a text that decide its shard, as a polynomial in 31. -/
def shardHash (text : String) : UInt32 :=
  (text.toUTF8.toList.take shardBytes).foldl (fun h byte => h * 31 + byte.toUInt32) 0

/-- The shard of a text. -/
def shardOf (text : String) : Fin 16 :=
  Fin.ofNat 16 (shardHash text).toNat

/-- The texts of a shard. -/
def textsOf (t : SymbolTable) (shard : Fin 16) : Roster (id : String → String) :=
  t.shards[shard]

/-- The table with other texts in a shard. -/
def setTexts (t : SymbolTable) (shard : Fin 16) (texts : Roster (id : String → String))
    : SymbolTable :=
  ⟨t.shards.set shard texts shard.isLt⟩

theorem textsOf_setTexts (t : SymbolTable) (i j : Fin 16)
    (texts : Roster (id : String → String))
    : (t.setTexts i texts).textsOf j = if i = j then texts else t.textsOf j := by
  simp only [textsOf, setTexts, Fin.getElem_fin, Vector.getElem_set, Fin.ext_iff]

/-- A request for the symbol of a text, and the table after it: the text is entered unless it is
present or its shard is full.
-/
def request (t : SymbolTable) (text : String) : Except ShardFull Symbol × SymbolTable :=
  let shard := shardOf text
  let texts := t.textsOf shard
  match h : texts.position? text with
  | some number => (.ok (.ofParts shard number), t)
  | none =>
    if texts.size ≤ Symbol.maxNumber then
      (.ok (.ofParts shard texts.size), t.setTexts shard (texts.push text h))
    else (.error ⟨shard, texts.size⟩, t)

/-- The symbol of a text and the table that has it, unless the request for it fails. -/
def intern (t : SymbolTable) (text : String) : Except ShardFull (Symbol × SymbolTable) :=
  let (answer, after) := t.request text
  answer.map fun symbol => (symbol, after)

/-- The text of a symbol. -/
def text? (t : SymbolTable) (symbol : Symbol) : Option String :=
  (t.textsOf symbol.shard).entries[symbol.number]?

end SymbolTable

end RecordSynth
