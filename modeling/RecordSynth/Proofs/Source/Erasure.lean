import RecordSynth.Source.Tree

/-! Trees without their places: what a phrase is, whatever source text it was read from. -/

namespace RecordSynth.Source

mutual

/-- The expression without its places. -/
def Expr.erased : Expr → Expr
  | .literal _ value => .literal default value
  | .var _ name => .var default name
  | .attr _ object field => .attr default object.erased field
  | .call _ callee _ args => .call default callee default (Expr.erasedAll args)
  | .tuple _ items => .tuple default (Expr.erasedAll items)
  | .compare _ op left right => .compare default op left.erased right.erased

/-- The expressions without their places. -/
def Expr.erasedAll : List Expr → List Expr
  | [] => []
  | x :: xs => x.erased :: Expr.erasedAll xs

end

mutual

/-- The statement without its places. -/
def Stmt.erased : Stmt → Stmt
  | .assign _ object field value => .assign default object.erased field value.erased
  | .giveBack _ none => .giveBack default none
  | .giveBack _ (some value) => .giveBack default (some value.erased)
  | .yield _ value => .yield default value.erased
  | .branch _ test thenBody elseBody =>
      .branch default test.erased (Stmt.erasedAll thenBody) (Stmt.erasedAll elseBody)
  | .discard _ value => .discard default value.erased

/-- The statements without their places. -/
def Stmt.erasedAll : List Stmt → List Stmt
  | [] => []
  | s :: ss => s.erased :: Stmt.erasedAll ss

end

/-- The parameter without its place. -/
def Param.erased (p : Param) : Param :=
  ⟨p.name, default⟩

/-- The definition without its places. -/
def Definition.erased (d : Definition) : Definition :=
  ⟨d.name, d.params.map Param.erased, d.isGenerator, Stmt.erasedAll d.body, default⟩

theorem Expr.erased_placedAt (range : ByteRange) (x : Expr)
    : (x.placedAt range).erased = x.erased := by
  cases x <;> rfl

theorem Expr.erasedAll_eq_map (xs : List Expr) : Expr.erasedAll xs = xs.map Expr.erased := by
  induction xs with
  | nil => rfl
  | cons x rest ih => rw [Expr.erasedAll, List.map_cons, ih]

theorem Stmt.erasedAll_eq_map (ss : List Stmt) : Stmt.erasedAll ss = ss.map Stmt.erased := by
  induction ss with
  | nil => rfl
  | cons s rest ih => rw [Stmt.erasedAll, List.map_cons, ih]

end RecordSynth.Source
