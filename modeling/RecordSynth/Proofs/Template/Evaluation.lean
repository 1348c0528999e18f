import RecordSynth.Proofs.Eval.Simulation
import RecordSynth.Proofs.Template.Trees

/-! What the parts of the templates' trees evaluate to, given the values of the parameters. -/

namespace RecordSynth

namespace Template

open Source

variable {scope : Scope} {name : String} {value : Value}

theorem evaluate_named (bound : scope.bindings.lookup name = some value)
    : (named name).evaluate scope = return value := by
  rw [named, Expr.evaluate, Scope.valueOf?, bound]

theorem evaluate_fieldOf (bound : scope.bindings.lookup name = some value) (field : String)
    : (fieldOf name field).evaluate scope = Eval.getAttr value field := by
  rw [fieldOf, Expr.evaluate, evaluate_named bound, pure_bind]

/-- A call of a builtin function evaluates the argument and calls the function. -/
theorem evaluate_builtin (function : Builtin) (x : Expr)
    : (callTo function.name [x]).evaluate scope
      = x.evaluate scope >>= fun value => scope.apply function.name [value] := by
  have noLabel : labelOf? function.name [x] = none :=
    labelOf?_of_ne (by cases function <;> decide) _
  rw [callTo, evaluate_call noLabel]
  simp only [Expr.evaluateAll, bind_assoc, pure_bind]

/-- The tuple of the fields of a receiver holds the values that are read. -/
theorem evaluate_tupleOf (bound : scope.bindings.lookup name = some value) (fields : List String)
    : (tupleOf name fields).evaluate scope
      = fields.mapM (Eval.getAttr value) >>= Eval.newTuple := by
  have all : Expr.evaluateAll scope (fields.map (fieldOf name))
      = fields.mapM (Eval.getAttr value) := by
    induction fields with
    | nil => rfl
    | cons field rest ih =>
        rw [List.map_cons, Expr.evaluateAll, evaluate_fieldOf bound, ih, List.mapM_cons]
  rw [tupleOf, Expr.evaluate, all]

/-- A definition whose body gives back an expression has its value, unless it yields. -/
theorem evaluate_of_giveBack {d : Definition} {x : Expr} {range : ByteRange}
    (body : d.body = [.giveBack range (some x)]) (plain : d.isGenerator = false) (p : Protocol)
    (pool : String → Address) (args : Array Value)
    : d.evaluate p pool args = x.evaluate (d.scope p pool args) := by
  have finish (yielded : List Value) (value : Value)
      : (d.scope p pool args).finish yielded value = return value := by
    rw [Scope.finish, Definition.scope, plain]
    rfl
  unfold Definition.evaluate
  rw [body]
  simp [Stmt.executeAll, Stmt.execute, finish]

end Template

end RecordSynth
