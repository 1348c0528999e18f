/-! Byte ranges in a source text: where a token, a phrase or a fault stands.
Offsets count the bytes of the text's UTF-8 encoding and saturate at 32 bits.
-/

namespace RecordSynth.Source

/-- The largest offset that a range records. -/
def maxOffset : Nat := 4294967295

/-- The bytes of a source text from `start` up to, not including, `stop`. -/
structure ByteRange where
  start : Nat
  stop : Nat
  deriving DecidableEq, Inhabited

namespace ByteRange

/-- The range between two offsets, each cut off at `maxOffset`. -/
def ofOffsets (start stop : Nat) : ByteRange :=
  ⟨min start maxOffset, min stop maxOffset⟩

/-- The smallest range that covers both. -/
def merge (a b : ByteRange) : ByteRange :=
  ⟨min a.start b.start, max a.stop b.stop⟩

/-- A range is written as its two offsets with two dots between them. -/
def text (r : ByteRange) : String :=
  toString r.start ++ ".." ++ toString r.stop

@[simp] theorem merge_start (a b : ByteRange)
    : (a.merge b).start = min a.start b.start :=
  rfl

@[simp] theorem merge_stop (a b : ByteRange)
    : (a.merge b).stop = max a.stop b.stop :=
  rfl

end ByteRange

/-- Bytes that a list of characters takes in UTF-8. -/
def byteCount : List Char → Nat
  | [] => 0
  | c :: cs => c.utf8Size + byteCount cs

@[simp] theorem byteCount_append (cs ds : List Char)
    : byteCount (cs ++ ds) = byteCount cs + byteCount ds := by
  induction cs with
  | nil => simp [byteCount]
  | cons c cs ih => simp [byteCount, ih, Nat.add_assoc]

/-- Splits `cs` after exactly `n` bytes, in front of the collected `done`; fails where the
offset is inside a character or past the end.
-/
def splitBytesFrom? (done : List Char) : Nat → List Char → Option (List Char × List Char)
  | 0, cs => some (done.reverse, cs)
  | _ + 1, [] => none
  | n + 1, c :: cs =>
    if c.utf8Size ≤ n + 1 then splitBytesFrom? (c :: done) (n + 1 - c.utf8Size) cs else none

/-- Splits `cs` after exactly `n` bytes. -/
def splitBytes? (n : Nat) (cs : List Char) : Option (List Char × List Char) :=
  splitBytesFrom? [] n cs

/-- The part of `source` at range `r`, when both ends are character boundaries of it. -/
def ByteRange.slice? (r : ByteRange) (source : String) : Option String := do
  if r.stop < r.start then none
  let (_, rest) ← splitBytes? r.start source.toList
  let (part, _) ← splitBytes? (r.stop - r.start) rest
  return String.ofList part

end RecordSynth.Source
