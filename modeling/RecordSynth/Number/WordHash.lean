/-! Hashing by words: a state of 64 bits absorbs one word at a time by adding and multiplying,
and a text is first folded into one word.
-/

namespace RecordSynth

/-- The state of a hash over words. -/
structure WordHash where
  state : UInt64
  deriving DecidableEq, Inhabited

namespace WordHash

/-- The state before any word. -/
def initial : WordHash :=
  ⟨0⟩

/-- The multiplier of each step. -/
def multiplier : UInt64 := 0xf1357aea2e62a9c5

/-- Absorbs a word. -/
def add (h : WordHash) (word : UInt64) : WordHash :=
  ⟨(h.state + word) * multiplier⟩

/-- The hash: the state, rotated so that its best bits come to the bottom. -/
def finish (h : WordHash) : UInt64 :=
  h.state <<< 26 ||| h.state >>> 38

/-- The two halves of a product of words, combined. -/
def mix (x y : UInt64) : UInt64 :=
  let product := x.toNat * y.toNat
  UInt64.ofNat product ^^^ UInt64.ofNat (product >>> 64)

/-- The word of `count` bytes from position `i` on, the first byte lowest. -/
def wordAt (bytes : ByteArray) (i : Nat) : Nat → UInt64
  | 0 => 0
  | count + 1 => (bytes[i]?.getD 0).toUInt64 ||| wordAt bytes (i + 1) count <<< 8

/-- The two start words. -/
def seed₀ : UInt64 := 0x243f6a8885a308d3

@[inherit_doc seed₀]
def seed₁ : UInt64 := 0x13198a2e03707344

/-- What is mixed into the first word of each block. -/
def blockKey : UInt64 := 0xa4093822299f31d0

/-- Folds `blocks` blocks of sixteen bytes from position `i` on into two words. -/
def foldBlocks (bytes : ByteArray) (s₀ s₁ : UInt64) (i : Nat) : Nat → UInt64 × UInt64
  | 0 => (s₀, s₁)
  | blocks + 1 =>
    let t := mix (s₀ ^^^ wordAt bytes i 8) (blockKey ^^^ wordAt bytes (i + 8) 8)
    foldBlocks bytes s₁ t (i + 16) blocks

/-- The word of some bytes. The last sixteen bytes, or what there is of them, are taken from
both ends.
-/
def ofBytes (bytes : ByteArray) : UInt64 :=
  let size := bytes.size
  let (s₀, s₁) :=
    if size = 0 then (seed₀, seed₁)
    else if size < 4 then
      (seed₀ ^^^ wordAt bytes 0 1,
        seed₁ ^^^ (wordAt bytes (size - 1) 1 <<< 8 ||| wordAt bytes (size / 2) 1))
    else if size < 8 then
      (seed₀ ^^^ wordAt bytes 0 4, seed₁ ^^^ wordAt bytes (size - 4) 4)
    else if size ≤ 16 then
      (seed₀ ^^^ wordAt bytes 0 8, seed₁ ^^^ wordAt bytes (size - 8) 8)
    else
      let (s₀, s₁) := foldBlocks bytes seed₀ seed₁ 0 ((size - 1) / 16)
      (s₀ ^^^ wordAt bytes (size - 16) 8, s₁ ^^^ wordAt bytes (size - 8) 8)
  mix s₀ s₁ ^^^ UInt64.ofNat size

/-- Absorbs a text: the word of its bytes, and a word that ends it. -/
def addText (h : WordHash) (text : String) : WordHash :=
  (h.add (ofBytes text.toUTF8)).add 0xff

end WordHash

end RecordSynth
