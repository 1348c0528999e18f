import RecordSynth.Eval.Call
import RecordSynth.Number.WordHash

/-! Hashing: the hash of a value is built from words. Records have the hash that their hashing
behavior gives back, or one of their own.
-/

namespace RecordSynth.Protocol

/-- The hash of the value called none; its complement is that of the one called not applicable. -/
def noneHash : UInt64 := 0x6e6f6e65

/-- The word that stands for a record in hashes. -/
def recordWord (id : RecordId) : UInt64 :=
  0x7f3a00000000 + 16 * UInt64.ofNat id.index

/-- The word that stands for a record type in hashes. -/
def typeWord : TypeRef → UInt64
  | .builtin kind => UInt64.ofNat kind.number
  | .record id => 0x7e2900000000 + 16 * UInt64.ofNat id.index

/-- The word that stands for a float in hashes: that of the integer it counts as, or its bits. -/
def floatWord (x : Binary64) : UInt64 :=
  match x.toInt64? with
  | some n => n.toUInt64
  | none => x.bits

/-- Adds the hashes of values to a hash. -/
def hashAll (p : Protocol) (h : WordHash) : List Value → Eval WordHash
  | [] => return h
  | value :: rest => do
    let word ← p.hash value
    hashAll p (h.add word) rest

/-- The hash of a single word. -/
def hashWord (word : UInt64) : UInt64 :=
  (WordHash.initial.add word).finish

/-- Hashes a value, given how the values inside are hashed. -/
def hashLayer (p : Protocol) (value : Value) : Eval UInt64 := do
  match value with
  | .none => return noneHash
  | .notApplicable => return ~~~noneHash
  | .bool b => return hashWord (if b then 1 else 0)
  | .int n => return hashWord n.toUInt64
  | .float x => return hashWord (floatWord x)
  | .str _ text => return (WordHash.initial.addText text).finish
  | .tuple _ items =>
    let h ← hashAll p (WordHash.initial.add (UInt64.ofNat items.length)) items
    return h.finish
  | .record id =>
    match ← Eval.ask (·.methodOf? id .hashing) with
    | some method =>
      match ← method.call p #[value] with
      | .int n => return n.toUInt64
      | other => Eval.badReturn .hashing value .int other
    | none => return hashWord (recordWord id)
  | .type ref => return hashWord (typeWord ref)

end RecordSynth.Protocol
