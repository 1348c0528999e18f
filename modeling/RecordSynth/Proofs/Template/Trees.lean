import RecordSynth.Proofs.Source.RoundTrip
import RecordSynth.Template

/-! The trees of the templates. Written down, each tree is the template's text, so reading the
text gives the tree.
-/

namespace RecordSynth.Template

open Source

/-- A parameter or a field, as a variable. -/
def named (name : String) : Expr :=
  .var default name

/-- A field of a receiver. -/
def fieldOf (receiver field : String) : Expr :=
  .attr default (named receiver) field

/-- A text constant. -/
def constant (text : String) : Expr :=
  .literal default (.str text)

/-- A call. -/
def callTo (callee : String) (args : List Expr) : Expr :=
  .call default callee default args

/-- The fields of a receiver as a tuple. -/
def tupleOf (receiver : String) (fields : List String) : Expr :=
  .tuple default (fields.map (fieldOf receiver))

/-- What the display of one field joins. -/
def displayParts (field : String) : List Expr :=
  [callTo "nameof" [named field], constant "=", callTo "repr" [fieldOf "self" field]]

/-- Groups of parts with a comma and a space between two groups. -/
def separated (groups : List (List Expr)) : List Expr :=
  [constant ", "].intercalate groups

/-- What the display of a group of fields joins. -/
def groupParts (fields : List String) : List Expr :=
  separated (fields.map displayParts)

/-- What the display of all fields joins: their parts, or the joined groups if there is more than
one.
-/
def allParts (fields : List String) : List Expr :=
  match groupsOf displayGroup fields with
  | [] => []
  | [group] => groupParts group
  | groups => separated (groups.map fun group => [callTo "concat" (groupParts group)])

/-- The parameters of a behavior. -/
def parameters : Behavior → List String → List String
  | .construct, fields => "self" :: fields
  | .equality, _ => ["self", "other"]
  | _, _ => ["self"]

/-- The body of a behavior. -/
def body : Behavior → List String → List Stmt
  | .construct, fields =>
      fields.map fun field => .assign default (named "self") field (named field)
  | .display, fields =>
      [.giveBack default (some (callTo "concat"
        (callTo "typename" [named "self"] :: constant "("
          :: (allParts fields ++ [constant ")"]))))]
  | .equality, fields =>
      [.branch default
        (.compare default .same (callTo "type" [named "self"])
          (callTo "type" [named "other"]))
        [.giveBack default (some (.compare default .equal (tupleOf "self" fields)
          (tupleOf "other" fields)))] [],
        .giveBack default (some (.literal default .notApplicable))]
  | .iteration, fields => fields.map fun field => .yield default (fieldOf "self" field)
  | .hashing, fields =>
      [.giveBack default (some (callTo "hash" [tupleOf "self" fields]))]

/-- The tree of a behavior over field names. -/
def tree (behavior : Behavior) (fields : List String) : Definition where
  name := behavior.methodName
  params := (parameters behavior fields).map fun name => ⟨name, default⟩
  isGenerator := behavior == .iteration
  body := body behavior fields
  range := default

-----------------------------------------------------------------------------------------
-- Characters of what is written
-----------------------------------------------------------------------------------------

section Texts

/-- The characters that pieces are written as. -/
def charsOf (pieces : List Piece) : List Char :=
  pieces.flatMap fun p => (lexemeOf p).text

theorem toList_textOf (pieces : List Piece) : (textOf pieces).toList = charsOf pieces := by
  simp [textOf, charsOf]

@[simp] theorem charsOf_nil : charsOf [] = [] :=
  rfl

@[simp] theorem charsOf_none (rest : List Piece)
    : charsOf (none :: rest) = ' ' :: charsOf rest :=
  rfl

@[simp] theorem charsOf_ident (name : String) (rest : List Piece)
    : charsOf (some (.ident name) :: rest) = name.toList ++ charsOf rest :=
  rfl

@[simp] theorem charsOf_keyword (word : Keyword) (rest : List Piece)
    : charsOf (some (.keyword word) :: rest) = word.spelling.toList ++ charsOf rest :=
  rfl

@[simp] theorem charsOf_mark (m : Mark) (rest : List Piece)
    : charsOf (some (.mark m) :: rest) = m.spelling.toList ++ charsOf rest :=
  rfl

@[simp] theorem charsOf_append (left right : List Piece)
    : charsOf (left ++ right) = charsOf left ++ charsOf right := by
  simp [charsOf]

theorem charsOf_params (p : Param) (ps : List Param)
    : charsOf (Param.writtenAll (p :: ps))
      = p.name.toList ++ ps.flatMap fun q => ',' :: ' ' :: q.name.toList := by
  induction ps generalizing p with
  | nil => simp [Param.writtenAll, separator]
  | cons q rest ih =>
      rw [Param.writtenAll, charsOf_ident, charsOf_append, ih]
      simp [separator, Mark.spelling]

/-- Expressions are written with a comma and a blank between two of them. -/
theorem charsOf_joined (xs : List Expr)
    : charsOf (Expr.writtenAll false xs)
      = [',', ' '].intercalate (xs.map fun x => charsOf x.written) := by
  induction xs with
  | nil => rfl
  | cons x rest ih =>
      rw [Expr.writtenAll, charsOf_append, charsOf_append, ih]
      cases rest with
      | nil => simp [separator]
      | cons y more => simp [separator, Mark.spelling]

/-- In tuples, a comma follows each expression. -/
theorem charsOf_tuple (xs : List Expr)
    : charsOf (Expr.writtenAll true xs)
      = [' '].intercalate (xs.map fun x => charsOf x.written ++ [',']) := by
  induction xs with
  | nil => rfl
  | cons x rest ih =>
      rw [Expr.writtenAll, charsOf_append, charsOf_append, ih]
      cases rest with
      | nil => simp [separator, Mark.spelling]
      | cons y more => simp [separator, Mark.spelling]

theorem charsOf_stmts (ss : List Stmt)
    : charsOf (Stmt.writtenAll ss) = ss.flatMap fun s => ' ' :: charsOf s.written := by
  induction ss with
  | nil => rfl
  | cons s rest ih => simp [Stmt.writtenAll, ih]

theorem charsOf_tupleOf (receiver : String) (fields : List String)
    : charsOf (tupleOf receiver fields).written = (attributeTuple receiver fields).toList := by
  have items : charsOf (Expr.writtenAll true (fields.map (fieldOf receiver)))
      = (String.intercalate " " (fields.map fun f => receiver ++ "." ++ f ++ ",")).toList := by
    rw [charsOf_tuple, String.toList_intercalate, List.map_map, List.map_map]
    congr 2
    funext f
    simp [fieldOf, named, Expr.written, guarded, Mark.spelling]
  rw [tupleOf, Expr.written, inParens, charsOf_mark, charsOf_append, items]
  unfold attributeTuple
  cases fields with
  | nil => simp [Mark.spelling]
  | cons field rest => simp [Mark.spelling]

theorem charsOf_definition (d : Definition)
    : charsOf d.written
      = charsOf (opening d.isGenerator) ++ d.name.toList
        ++ '(' :: (charsOf (Param.writtenAll d.params)
          ++ ')' :: ' ' :: '\x7b' :: ((d.body.flatMap fun s => ' ' :: charsOf s.written)
            ++ [' ', '\x7d'])) := by
  simp [Definition.written, inParens, inBraces, charsOf_stmts, Mark.spelling]

/-- The written construction is the template of construction. -/
theorem textOf_construct (fields : List String)
    : textOf (tree .construct fields).written = construct fields := by
  rw [← String.toList_inj, toList_textOf, charsOf_definition]
  have params : charsOf (Param.writtenAll (tree .construct fields).params)
      = "self".toList ++ fields.flatMap fun f => ", ".toList ++ f.toList := by
    simp [tree, parameters, charsOf_params, List.flatMap_map]
  have body : (tree .construct fields).body.flatMap (fun s => ' ' :: charsOf s.written)
      = fields.flatMap fun f => (" self." ++ f ++ " = " ++ f ++ ";").toList := by
    simp [tree, body, List.flatMap_map, Stmt.written, named, guarded, Expr.written, Mark.spelling]
  rw [params, body]
  unfold construct
  simp [tree, opening, Behavior.methodName, List.flatMap_map, Keyword.spelling]

/-- The written iteration is the template of iteration. -/
theorem textOf_iteration (fields : List String)
    : textOf (tree .iteration fields).written = iteration fields := by
  rw [← String.toList_inj, toList_textOf, charsOf_definition]
  have params : charsOf (Param.writtenAll (tree .iteration fields).params) = "self".toList := by
    simp [tree, parameters, charsOf_params]
  have body : (tree .iteration fields).body.flatMap (fun s => ' ' :: charsOf s.written)
      = fields.flatMap fun f => (" yield self." ++ f ++ ";").toList := by
    simp [tree, body, List.flatMap_map, Stmt.written, fieldOf, named, guarded, Expr.written,
      Keyword.spelling, Mark.spelling]
  rw [params, body]
  unfold iteration
  simp [tree, opening, Behavior.methodName, List.flatMap_map, Keyword.spelling]

/-- The written hashing is the template of hashing. -/
theorem textOf_hashing (fields : List String)
    : textOf (tree .hashing fields).written = hashing fields := by
  rw [← String.toList_inj, toList_textOf, charsOf_definition]
  have params : charsOf (Param.writtenAll (tree .hashing fields).params) = "self".toList := by
    simp [tree, parameters, charsOf_params]
  have body : (tree .hashing fields).body.flatMap (fun s => ' ' :: charsOf s.written)
      = " return hash(".toList ++ (attributeTuple "self" fields).toList ++ ");".toList := by
    simp [tree, body, Stmt.written, callTo, Expr.written, inParens, charsOf_joined,
      charsOf_tupleOf, Keyword.spelling, Mark.spelling]
  rw [params, body]
  unfold hashing
  simp [tree, opening, Behavior.methodName, Keyword.spelling]

/-- The written equality is the template of equality. -/
theorem textOf_equality (fields : List String)
    : textOf (tree .equality fields).written = equality fields := by
  rw [← String.toList_inj, toList_textOf, charsOf_definition]
  have params : charsOf (Param.writtenAll (tree .equality fields).params)
      = "self, other".toList := by
    simp [tree, parameters, charsOf_params]
  have body : (tree .equality fields).body.flatMap (fun s => ' ' :: charsOf s.written)
      = " if type(self) is type(other) \x7b return ".toList
        ++ (attributeTuple "self" fields).toList ++ " == ".toList
        ++ (attributeTuple "other" fields).toList
        ++ "; \x7d return NotApplicable;".toList := by
    have typeOf (name : String)
        : charsOf (callTo "type" [named name]).written
          = "type(".toList ++ name.toList ++ ")".toList := by
      simp [callTo, named, Expr.written, inParens, charsOf_joined, Mark.spelling]
    have guardedType : guarded (callTo "type" [named "other"])
        (callTo "type" [named "other"]).written = (callTo "type" [named "other"]).written := rfl
    have guardedTuple : guarded (tupleOf "other" fields) (tupleOf "other" fields).written
        = (tupleOf "other" fields).written := rfl
    simp [tree, body, Stmt.written, Stmt.writtenAll, Expr.written, inBraces, typeOf, guardedType,
      guardedTuple, charsOf_tupleOf, Comparator.token, Literal.token, Keyword.spelling,
      Mark.spelling]
  rw [params, body]
  unfold equality
  simp [tree, opening, Behavior.methodName, Keyword.spelling]

end Texts

-----------------------------------------------------------------------------------------
-- Display, whose parts may come in groups
-----------------------------------------------------------------------------------------

section Display

/-- Each group of a list is cut off from its front, by the recursion of the grouping. -/
theorem forall_mem_groupsFrom {α : Type} {size : Nat} {done : List (List α)} {xs : List α}
    {holds : List α → Prop} (old : ∀ group ∈ done, holds group)
    (cut : ∀ (x : α) (more : List α), holds (x :: more.take (size - 1)))
    : ∀ group ∈ groupsFrom size done xs, holds group := by
  fun_induction groupsFrom size done xs with
  | case1 done => exact fun group member => old group (List.mem_reverse.mp member)
  | case2 done x xs ih =>
      refine ih ?_
      intro group member
      rcases List.mem_cons.mp member with rfl | before
      · exact cut x xs
      · exact old group before

/-- No group of a list is empty. -/
theorem ne_nil_of_mem_groupsOf {α : Type} {size : Nat} {xs : List α}
    : ∀ group ∈ groupsOf size xs, group ≠ [] :=
  forall_mem_groupsFrom (List.forall_mem_nil _) (fun _ _ => List.cons_ne_nil _ _)

/-- No group is larger than the size. -/
theorem length_of_mem_groupsOf {α : Type} {size : Nat} (positive : 0 < size) {xs : List α}
    : ∀ group ∈ groupsOf size xs, group.length ≤ size := by
  refine forall_mem_groupsFrom (List.forall_mem_nil _) ?_
  intro x more
  rw [List.length_cons, List.length_take]
  omega

theorem separated_cons {group : List Expr} {rest : List (List Expr)} (nonempty : rest ≠ [])
    : separated (group :: rest) = group ++ constant ", " :: separated rest := by
  rw [separated, List.intercalate_cons_of_ne_nil nonempty]
  simp [separated]

theorem separated_ne_nil {groups : List (List Expr)} (some : groups ≠ [])
    (nonempty : ∀ group ∈ groups, group ≠ [])
    : separated groups ≠ [] := by
  cases groups with
  | nil => exact absurd rfl some
  | cons group rest =>
      have first := nonempty group List.mem_cons_self
      cases rest with
      | nil => simpa [separated] using first
      | cons next more => simp [separated_cons, first]

/-- How arguments of a call are written. -/
def argumentChars (xs : List Expr) : List Char :=
  [',', ' '].intercalate (xs.map fun x => charsOf x.written)

theorem argumentChars_singleton (x : Expr) : argumentChars [x] = charsOf x.written := by
  simp [argumentChars]

theorem argumentChars_cons {x : Expr} {rest : List Expr} (nonempty : rest ≠ [])
    : argumentChars (x :: rest) = charsOf x.written ++ ", ".toList ++ argumentChars rest := by
  have mapped : rest.map (fun x => charsOf x.written) ≠ [] := by simpa using nonempty
  simp [argumentChars, List.intercalate_cons_of_ne_nil mapped]

theorem argumentChars_append {xs ys : List Expr} (left : xs ≠ []) (right : ys ≠ [])
    : argumentChars (xs ++ ys) = argumentChars xs ++ ", ".toList ++ argumentChars ys := by
  induction xs with
  | nil => exact absurd rfl left
  | cons x rest ih =>
      cases rest with
      | nil => rw [List.singleton_append, argumentChars_cons right, argumentChars_singleton]
      | cons y more =>
          have tail := ih (List.cons_ne_nil y more)
          rw [List.cons_append, argumentChars_cons (by simp), tail,
            argumentChars_cons (List.cons_ne_nil y more)]
          simp

theorem charsOf_callTo (callee : String) (args : List Expr)
    : charsOf (callTo callee args).written
      = callee.toList ++ "(".toList ++ argumentChars args ++ ")".toList := by
  simp [callTo, Expr.written, inParens, charsOf_joined, argumentChars, Mark.spelling]

theorem charsOf_constant (text : String)
    : charsOf (constant text).written = '"' :: (text.toList.flatMap escaped ++ ['"']) := by
  simp [constant, Expr.written, Literal.token, charsOf, lexemeOf, Token.lexeme]

/-- Groups are written with the literal of a comma and a space between two of them, by induction
on the groups.
-/
theorem argumentChars_separated {groups : List (List Expr)}
    (nonempty : ∀ group ∈ groups, group ≠ [])
    : argumentChars (separated groups)
      = displaySeparator.toList.intercalate (groups.map argumentChars) := by
  induction groups with
  | nil => rfl
  | cons group rest ih =>
      have first := nonempty group List.mem_cons_self
      have others := fun g member => nonempty g (List.mem_cons_of_mem group member)
      cases rest with
      | nil => simp [separated]
      | cons next more =>
          have behind := separated_ne_nil (List.cons_ne_nil next more) others
          have comma : charsOf (constant ", ").written = "\", \"".toList := by
            rw [charsOf_constant]
            decide
          rw [separated_cons (List.cons_ne_nil next more),
            argumentChars_append first (List.cons_ne_nil _ _), argumentChars_cons behind,
            ih others, comma]
          simp [displaySeparator]

/-- The parts of a field are written as the template's display of the field. -/
theorem argumentChars_displayParts (field : String)
    : argumentChars (displayParts field) = (displayField field).toList := by
  have equals : charsOf (constant "=").written = "\"=\"".toList := by
    rw [charsOf_constant]
    decide
  have spelled : charsOf (named field).written = field.toList := by
    simp [named, Expr.written]
  have access : charsOf (fieldOf "self" field).written = "self.".toList ++ field.toList := by
    simp [fieldOf, named, Expr.written, guarded, Mark.spelling]
  rw [displayParts, argumentChars_cons (by simp), argumentChars_cons (by simp),
    argumentChars_singleton, charsOf_callTo, charsOf_callTo, argumentChars_singleton,
    argumentChars_singleton, equals, spelled, access]
  simp [displayField]

theorem argumentChars_groupParts (fields : List String)
    : argumentChars (groupParts fields) = (displayFields fields).toList := by
  have nonempty : ∀ group ∈ fields.map displayParts, group ≠ [] := by
    simp [displayParts]
  rw [groupParts, argumentChars_separated nonempty, displayFields, String.toList_intercalate,
    List.map_map, List.map_map]
  congr 2
  funext field
  exact argumentChars_displayParts field

/-- Behind what stands before them, the parts of all fields are written as in the template. -/
theorem argumentChars_allParts (fields : List String) (before : Expr) {after : List Expr}
    (some : after ≠ [])
    : argumentChars (before :: (allParts fields ++ after))
      = charsOf before.written ++ ", ".toList ++ (displayArguments fields).toList
        ++ argumentChars after := by
  have groups_ne_nil := @ne_nil_of_mem_groupsOf _ displayGroup fields
  rw [argumentChars_cons (by simp [some])]
  unfold allParts displayArguments
  cases isGroups : groupsOf displayGroup fields with
  | nil => simp
  | cons group rest =>
      have first : group ≠ [] := groups_ne_nil group (isGroups ▸ List.mem_cons_self)
      cases rest with
      | nil =>
          have parts : groupParts group ≠ [] :=
            separated_ne_nil (by simpa using first) (by simp [displayParts])
          simp [argumentChars_append parts some, argumentChars_groupParts]
      | cons next more =>
          have nonempty : ∀ parts ∈ (group :: next :: more).map
              (fun group => [callTo "concat" (groupParts group)]), parts ≠ [] := by
            simp
          have joined : ((group :: next :: more).map
                (fun group => [callTo "concat" (groupParts group)])).map argumentChars
              = ((group :: next :: more).map displayFields).map
                (fun g => ("concat(" ++ g ++ ")").toList) := by
            rw [List.map_map, List.map_map]
            refine List.map_congr_left ?_
            intro parts _
            simp [argumentChars_singleton, charsOf_callTo, argumentChars_groupParts]
          have parts : separated ((group :: next :: more).map
              fun group => [callTo "concat" (groupParts group)]) ≠ [] :=
            separated_ne_nil (by simp) nonempty
          have texts : (String.intercalate displaySeparator
                (((group :: next :: more).map displayFields).map fun g => "concat(" ++ g ++ ")")
              ++ ", ").toList
              = displaySeparator.toList.intercalate (((group :: next :: more).map
                  displayFields).map fun g => ("concat(" ++ g ++ ")").toList) ++ ", ".toList := by
            rw [String.toList_append, String.toList_intercalate, List.map_map]
            rfl
          refine .trans ?_ (congrArg (charsOf before.written ++ ", ".toList ++ · ++
            argumentChars after) texts.symm)
          dsimp only
          rw [argumentChars_append parts some, argumentChars_separated nonempty, joined]
          simp only [List.append_assoc]

/-- The written display is the template of display. -/
theorem textOf_display (fields : List String)
    : textOf (tree .display fields).written = display fields := by
  rw [← String.toList_inj, toList_textOf, charsOf_definition]
  have params : charsOf (Param.writtenAll (tree .display fields).params) = "self".toList := by
    simp [tree, parameters, charsOf_params]
  have typename : charsOf (callTo "typename" [named "self"]).written
      = "typename(self)".toList := by
    rw [charsOf_callTo, argumentChars_singleton]
    decide
  have opens : charsOf (constant "(").written = "\"(\"".toList := by
    rw [charsOf_constant]
    decide
  have closes : charsOf (constant ")").written = "\")\"".toList := by
    rw [charsOf_constant]
    decide
  have body : (tree .display fields).body.flatMap (fun s => ' ' :: charsOf s.written)
      = " return concat(typename(self), \"(\", ".toList ++ (displayArguments fields).toList
        ++ "\")\");".toList := by
    simp only [tree, body, List.flatMap_cons, List.flatMap_nil, List.append_nil, Stmt.written]
    rw [charsOf_keyword, charsOf_none, charsOf_append, charsOf_callTo,
      argumentChars_cons (List.cons_ne_nil _ _),
      argumentChars_allParts fields _ (List.cons_ne_nil _ _), argumentChars_singleton, typename,
      opens, closes]
    simp [Keyword.spelling, Mark.spelling]
  rw [params, body]
  unfold display
  simp [tree, opening, Behavior.methodName, Keyword.spelling]

/-- Each tree is written as the text of its template. -/
theorem textOf_tree (behavior : Behavior) (fields : List String)
    : textOf (tree behavior fields).written = render behavior fields := by
  cases behavior with
  | construct => exact textOf_construct fields
  | display => exact textOf_display fields
  | equality => exact textOf_equality fields
  | iteration => exact textOf_iteration fields
  | hashing => exact textOf_hashing fields

end Display

end RecordSynth.Template
