import RecordSynth.Eval.Machine

/-! Calls of methods: programs run on the machine, and native methods are those of the protocol. -/

namespace RecordSynth

/-- Calls a method. -/
def Method.call (p : Protocol) (method : Method) (args : Array Value) : Eval Value :=
  match method with
  | .compiled artifact => Machine.call p artifact args
  | .primitive operation => p.native operation args

end RecordSynth
