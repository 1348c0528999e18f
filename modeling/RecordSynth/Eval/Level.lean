import RecordSynth.Eval.Display
import RecordSynth.Eval.Equality
import RecordSynth.Eval.Hashing
import RecordSynth.Eval.Natives

/-! Levels of evaluation: each display, equality and hash is a layer over those of the values
inside, each call of a native method one over what it calls, and as many layers are stacked as
values are nested deep.
-/

namespace RecordSynth.Protocol

/-- The protocol that answers for no value. -/
def exhausted : Protocol where
  display _ := throw .exhausted
  equals _ _ := throw .exhausted
  hash _ := throw .exhausted
  native _ _ := throw .exhausted

section Levels

variable [Natives]

/-- One more layer over a protocol. -/
def layer (p : Protocol) : Protocol where
  display := displayLayer p
  equals := equalsLayer p
  hash := hashLayer p
  native operation := Natives.call operation p

/-- The protocol that answers for values nested less than `n` deep. -/
def level : Nat → Protocol
  | 0 => exhausted
  | n + 1 => {
      display := fun value => (level n).displayLayer value
      equals := fun left right => (level n).equalsLayer left right
      hash := fun value => (level n).hashLayer value
      native := fun operation args => Natives.call operation (level n) args }

theorem level_succ (n : Nat) : level (n + 1) = (level n).layer :=
  rfl

end Levels

/-- More levels than any heap has values. -/
def depthLimit : Nat := 9223372036854775807

open Natives in
/-- The protocol for all values, with the stock of native methods. -/
def full : Protocol :=
  level depthLimit

end RecordSynth.Protocol
