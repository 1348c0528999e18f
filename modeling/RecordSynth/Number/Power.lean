/-! Powers of the two bases in which numbers are written. -/

namespace RecordSynth

/-- Two to a power. -/
def twoPow (k : Nat) : Nat :=
  Nat.pow 2 k

/-- Ten to a power. -/
def tenPow (k : Nat) : Nat :=
  Nat.pow 10 k

theorem twoPow_pos (k : Nat) : 0 < twoPow k :=
  Nat.pow_pos (by decide)

end RecordSynth
