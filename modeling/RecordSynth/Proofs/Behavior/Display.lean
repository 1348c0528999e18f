import Mathlib.Data.List.ReduceOption
import RecordSynth.Proofs.Eval.Levels
import RecordSynth.Proofs.Synthesis.Installation
import RecordSynth.Proofs.Template.Evaluation

/-! Synthesized display. It reads and displays the fields in order and joins their texts; that the
template joins many fields in groups shows in nothing but how many texts are made on the way.
-/

namespace RecordSynth

-----------------------------------------------------------------------------------------
-- Expressions that give texts
-----------------------------------------------------------------------------------------

namespace Source

/-- Texts as values. -/
def textValues (texts : List (Address × String)) : List Value :=
  texts.map fun text => .str text.1 text.2

/-- Texts joined. -/
def joinedTexts (texts : List (Address × String)) : String :=
  String.join (texts.map Prod.snd)

/-- The expressions give texts, which joined are what `text` gives. -/
def Joins (scope : Scope) (xs : List Expr) (text : Eval String) : Prop :=
  ∃ made : Eval (List (Address × String)),
    Expr.evaluateAll scope xs = made >>= (fun texts => return textValues texts)
    ∧ text = made >>= (fun texts => return joinedTexts texts)

section Joining

variable {scope : Scope} {xs ys : List Expr} {x : Expr} {s t : Eval String}

theorem joined_textValues (scope : Scope) (texts : List (Address × String))
    : scope.joined (textValues texts) = return joinedTexts texts := by
  induction texts with
  | nil => rfl
  | cons text rest ih =>
      rw [textValues, List.map_cons, Scope.joined, ← textValues, ih]
      simp [Scope.textOf, joinedTexts]

theorem evaluateAll_append (scope : Scope) (xs ys : List Expr)
    : Expr.evaluateAll scope (xs ++ ys)
      = Expr.evaluateAll scope xs >>= fun left =>
          Expr.evaluateAll scope ys >>= fun right => return left ++ right := by
  induction xs with
  | nil => simp [Expr.evaluateAll]
  | cons x rest ih => simp [Expr.evaluateAll, ih]

theorem joins_nil (scope : Scope) : Joins scope [] (return "") :=
  ⟨return [], rfl, rfl⟩

theorem Joins.append (left : Joins scope xs s) (right : Joins scope ys t)
    : Joins scope (xs ++ ys) (s >>= fun a => t >>= fun b => return a ++ b) := by
  obtain ⟨leftMade, leftValues, rfl⟩ := left
  obtain ⟨rightMade, rightValues, rfl⟩ := right
  refine ⟨leftMade >>= fun a => rightMade >>= fun b => return a ++ b, ?_, ?_⟩
  · rw [evaluateAll_append, leftValues, rightValues]
    simp [textValues]
  · simp [joinedTexts]

/-- An expression that makes a text. -/
theorem joins_of_newStr (evaluates : x.evaluate scope = t >>= Eval.newStr)
    : Joins scope [x] (t >>= fun text => Eval.change (·.allocated 1) >>= fun _ => return text) := by
  refine ⟨t >>= fun text => modifyGet (·.allocate 1) >>= fun address =>
    return [(address, text)], ?_, ?_⟩
  · simp [Expr.evaluateAll, evaluates, Eval.newStr, textValues]
  · have joined (address : Address) (text : String) : joinedTexts [(address, text)] = text := by
      simp [joinedTexts]
    simp only [bind_assoc, pure_bind, joined]
    refine bind_congr ?_
    intro text
    exact Eval.ext_outcome fun h => rfl

/-- A text constant makes no text. -/
theorem joins_constant (scope : Scope) (text : String)
    : Joins scope [Template.constant text] (return text) := by
  refine ⟨return [(scope.pool text, text)], ?_, ?_⟩
  · simp [Expr.evaluateAll, Template.constant, Expr.evaluate, constantOf, textValues]
  · simp [joinedTexts]

theorem evaluate_concat (joins : Joins scope xs t)
    : (Template.callTo "concat" xs).evaluate scope = t >>= Eval.newStr := by
  obtain ⟨made, values, rfl⟩ := joins
  rw [Template.callTo, evaluate_call (labelOf?_of_ne (by decide) xs), values]
  simp [Scope.apply, joined_textValues]

end Joining

end Source

-----------------------------------------------------------------------------------------
-- Fields that are read and displayed
-----------------------------------------------------------------------------------------

/-- The texts of fields of a record, read and displayed in order. Where `reads` has no field, a
text is made.
-/
def Protocol.fieldTexts (p : Protocol) (record : Value) : List (Option String) → Eval (List String)
  | [] => return []
  | none :: reads => do
    Eval.change (·.allocated 1)
    fieldTexts p record reads
  | some field :: reads => do
    let value ← Eval.getAttr record field
    let text ← p.display value
    let texts ← fieldTexts p record reads
    return (field ++ "=" ++ text) :: texts

/-- Texts with a comma and a space between two of them. -/
def commaJoined (texts : List String) : String :=
  String.intercalate ", " texts

namespace Protocol

variable {h h' : Heap} {texts : List String}

theorem fieldTexts_append (p : Protocol) (record : Value) (left right : List (Option String))
    : p.fieldTexts record (left ++ right)
      = p.fieldTexts record left >>= fun texts =>
          p.fieldTexts record right >>= fun more => return texts ++ more := by
  induction left with
  | nil => simp [fieldTexts]
  | cons read rest ih =>
      cases read with
      | none => simp [fieldTexts, ih]
      | some field => simp [fieldTexts, ih]

/-- There are as many texts as fields, by induction on what is read. -/
theorem length_fieldTexts {p : Protocol} {record : Value} {reads : List (Option String)}
    (given : (p.fieldTexts record reads).outcome h = (.ok texts, h'))
    : texts.length = reads.reduceOption.length := by
  induction reads generalizing h h' texts with
  | nil =>
      cases given
      rfl
  | cons read rest ih =>
      cases read with
      | none =>
          obtain ⟨_, _, _, given⟩ := Eval.outcome_bind_eq_ok_iff.mp given
          exact ih given
      | some field =>
          obtain ⟨_, _, _, given⟩ := Eval.outcome_bind_eq_ok_iff.mp given
          obtain ⟨_, _, _, given⟩ := Eval.outcome_bind_eq_ok_iff.mp given
          obtain ⟨more, _, givenMore, given⟩ := Eval.outcome_bind_eq_ok_iff.mp given
          cases given
          rw [List.length_cons, List.reduceOption_cons_of_some, List.length_cons, ih givenMore]

/-- What is read in two parts, each of which has a field, is joined with a comma in between. -/
theorem commaJoined_fieldTexts_append (p : Protocol) (record : Value)
    {left right : List (Option String)} (leftReads : left.reduceOption ≠ [])
    (rightReads : right.reduceOption ≠ [])
    : (p.fieldTexts record left >>= fun texts => return commaJoined texts) >>= (fun a =>
        (p.fieldTexts record right >>= fun texts => return commaJoined texts) >>= fun b =>
          return a ++ (", " ++ b))
      = p.fieldTexts record (left ++ right) >>= fun texts => return commaJoined texts := by
  rw [fieldTexts_append]
  simp only [bind_assoc, pure_bind]
  refine Eval.bind_congr_of_outcome ?_
  intro h texts h' given
  refine Eval.bind_congr_of_outcome ?_
  intro h more h' givenMore
  have some : texts ≠ [] := by
    rw [← List.length_pos_iff, length_fieldTexts given, List.length_pos_iff]
    exact leftReads
  have someMore : more ≠ [] := by
    rw [← List.length_pos_iff, length_fieldTexts givenMore, List.length_pos_iff]
    exact rightReads
  rw [commaJoined, commaJoined, commaJoined, String.intercalate_append_of_ne_nil some someMore,
    String.append_assoc]

end Protocol

-----------------------------------------------------------------------------------------
-- What the template joins
-----------------------------------------------------------------------------------------

namespace Template

open Source

variable {scope : Scope} {record : Value}

/-- The expressions join what is read and displayed of the record's fields. -/
def JoinsFields (scope : Scope) (record : Value) (xs : List Expr) (reads : List (Option String))
    : Prop :=
  Joins scope xs
    (scope.protocol.fieldTexts record reads >>= fun texts => return commaJoined texts)

/-- The name and the display of a field are texts that are made. -/
theorem joinsFields_displayParts (self : scope.bindings.lookup "self" = some record)
    (field : String)
    : JoinsFields scope record (displayParts field) [none, some field, none] := by
  have label : (callTo "nameof" [named field]).evaluate scope = pure field >>= Eval.newStr := by
    rw [callTo, evaluate_label (by rfl : labelOf? "nameof" [named field] = some field), pure_bind]
  have shown : (callTo "repr" [fieldOf "self" field]).evaluate scope
      = (Eval.getAttr record field >>= scope.protocol.display) >>= Eval.newStr := by
    refine (evaluate_builtin .repr (fieldOf "self" field)).trans ?_
    rw [evaluate_fieldOf self, bind_assoc]
    rfl
  have parts := (joins_of_newStr label).append
    ((joins_constant scope "=").append (joins_of_newStr shown))
  unfold JoinsFields
  refine cast (congrArg (Joins scope (displayParts field)) ?_) parts
  simp [Protocol.fieldTexts, commaJoined, String.append_assoc]

/-- Groups with a comma in between join what each of them joins, by induction on the groups. -/
theorem joinsFields_separated {α : Type} {parts : α → List Expr} {reads : α → List (Option String)}
    {items : List α} (joins : ∀ item ∈ items, JoinsFields scope record (parts item) (reads item))
    (some : ∀ item ∈ items, (reads item).reduceOption ≠ [])
    : JoinsFields scope record (separated (items.map parts)) (items.flatMap reads) := by
  induction items with
  | nil =>
      have nothing : (scope.protocol.fieldTexts record [] >>= fun texts => return commaJoined texts)
          = return "" := by
        simp [Protocol.fieldTexts, commaJoined]
      exact cast (congrArg (Joins scope []) nothing.symm) (joins_nil scope)
  | cons item rest ih =>
      obtain ⟨first, others⟩ := List.forall_mem_cons.mp joins
      obtain ⟨firstSome, othersSome⟩ := List.forall_mem_cons.mp some
      cases rest with
      | nil => simpa [separated] using first
      | cons next more =>
          have behind : ((next :: more).flatMap reads).reduceOption ≠ [] := by
            rw [List.flatMap_cons, List.reduceOption_append]
            exact List.append_ne_nil_of_left_ne_nil (othersSome next List.mem_cons_self) _
          have all := first.append ((joins_constant scope ", ").append (ih others othersSome))
          rw [List.map_cons, separated_cons (by simp), List.flatMap_cons, JoinsFields,
            ← Protocol.commaJoined_fieldTexts_append _ _ firstSome behind]
          simpa using all

/-- A joined group is one text more. -/
theorem JoinsFields.concat {xs : List Expr} {reads : List (Option String)}
    (joins : JoinsFields scope record xs reads)
    : JoinsFields scope record [callTo "concat" xs] (reads ++ [none]) := by
  have made := joins_of_newStr (evaluate_concat joins)
  unfold JoinsFields
  refine cast (congrArg (Joins scope [callTo "concat" xs]) ?_) made
  rw [Protocol.fieldTexts_append]
  simp [Protocol.fieldTexts]

/-- What the display of a group of fields reads. -/
def groupReads (fields : List String) : List (Option String) :=
  fields.flatMap fun field => [none, some field, none]

theorem reduceOption_groupReads (fields : List String)
    : (groupReads fields).reduceOption = fields := by
  induction fields with
  | nil => rfl
  | cons field rest ih =>
      rw [groupReads, List.flatMap_cons, List.reduceOption_append, ← groupReads, ih]
      rfl

theorem joinsFields_groupParts (self : scope.bindings.lookup "self" = some record)
    (fields : List String)
    : JoinsFields scope record (groupParts fields) (groupReads fields) :=
  joinsFields_separated (fun field _ => joinsFields_displayParts self field)
    (fun field _ => List.cons_ne_nil field [])

/-- What the display of all fields reads. -/
def allReads (fields : List String) : List (Option String) :=
  match groupsOf displayGroup fields with
  | [] => []
  | [group] => groupReads group
  | groups => groups.flatMap fun group => groupReads group ++ [none]

/-- All fields are read in their order, each once. -/
theorem reduceOption_allReads (fields : List String)
    : (allReads fields).reduceOption = fields := by
  have joined (groups : List (List String))
      : (groups.flatMap fun group => groupReads group ++ [none]).reduceOption = groups.flatten := by
    induction groups with
    | nil => rfl
    | cons group rest ih =>
        rw [List.flatMap_cons, List.reduceOption_append, List.reduceOption_append,
          reduceOption_groupReads, ih, List.flatten_cons]
        simp
  have together := flatten_groupsOf displayGroup fields
  unfold allReads
  split
  · next isGroups => rwa [isGroups] at together
  · next group isGroups =>
    rw [isGroups, List.flatten_singleton] at together
    rw [reduceOption_groupReads, together]
  · rw [joined, together]

/-- Grouped or not, the display of all fields joins what it reads. -/
theorem joinsFields_allParts (self : scope.bindings.lookup "self" = some record)
    (fields : List String)
    : JoinsFields scope record (allParts fields) (allReads fields) := by
  have grouped (groups : List (List String)) (some : ∀ group ∈ groups, group ≠ [])
      : JoinsFields scope record
          (separated (groups.map fun group => [callTo "concat" (groupParts group)]))
          (groups.flatMap fun group => groupReads group ++ [none]) := by
    refine joinsFields_separated (fun group _ => (joinsFields_groupParts self group).concat) ?_
    intro group member
    rw [List.reduceOption_append, reduceOption_groupReads]
    exact List.append_ne_nil_of_left_ne_nil (some group member) _
  have nonempty := @ne_nil_of_mem_groupsOf _ displayGroup fields
  unfold allParts allReads
  cases isGroups : groupsOf displayGroup fields with
  | nil => exact grouped [] (List.forall_mem_nil _)
  | cons group rest =>
      cases rest with
      | nil => exact joinsFields_groupParts self group
      | cons next more => exact grouped _ (isGroups ▸ nonempty)

/-- The display of a record reads its fields in order, and joins the name of its type with their
texts.
-/
theorem evaluate_display (fields : List String) (p : Protocol) (pool : String → Address)
    : (tree .display fields).evaluate p pool #[record]
      = (do
          let name ← Eval.ask (·.typeName record)
          let texts ← p.fieldTexts record (none :: allReads fields)
          return name ++ ("(" ++ (commaJoined texts ++ ")")) : Eval String) >>= Eval.newStr := by
  have self : ((tree .display fields).scope p pool #[record]).bindings.lookup "self"
      = some record := rfl
  have typename : (callTo "typename" [named "self"]).evaluate
      ((tree .display fields).scope p pool #[record])
        = Eval.ask (·.typeName record) >>= Eval.newStr := by
    refine (evaluate_builtin .typename (named "self")).trans ?_
    rw [evaluate_named self, pure_bind]
    rfl
  have all := (joins_of_newStr typename).append ((joins_constant _ "(").append
    ((joinsFields_allParts self fields).append (joins_constant _ ")")))
  rw [evaluate_of_giveBack rfl rfl]
  refine (evaluate_concat all).trans ?_
  simp only [bind_assoc, pure_bind, Protocol.fieldTexts]
  rfl

end Template

-----------------------------------------------------------------------------------------
-- Displays of records
-----------------------------------------------------------------------------------------

namespace Protocol

variable {h : Heap} {id : RecordId}

theorem monotone_fieldTexts (record : Value) (reads : List (Option String))
    : Monotone fun p => p.fieldTexts record reads := by
  intro p q refines
  induction reads with
  | nil => exact .refl _
  | cons read rest ih =>
      cases read with
      | none => exact .after _ fun _ => ih
      | some field =>
          exact .after _ fun value => (refines.display value).bind fun _ => ih.bind fun _ => .refl _

/-- What the display of a record reads: the name of its type and the joined text are made, too. -/
def recordReads (fields : List String) : List (Option String) :=
  none :: (Template.allReads fields ++ [none])

theorem reduceOption_recordReads (fields : List String)
    : (recordReads fields).reduceOption = fields := by
  rw [recordReads, List.reduceOption_cons_of_none, List.reduceOption_append,
    Template.reduceOption_allReads]
  exact List.append_nil fields

/-- The text of a record: the name of its type and, in parentheses, the texts of its fields. -/
def recordText (typeName : String) (texts : List String) : String :=
  typeName ++ "(" ++ commaJoined texts ++ ")"

variable {method : Method} {fields : List String}

/-- A record whose display behavior makes a text is displayed as that text. -/
theorem outcome_displayLayer_of_newStr (found : h.methodOf? id .display = some method)
    {p : Protocol} {t : Eval String} (calls : method.call p #[.record id] = t >>= Eval.newStr)
    : (p.displayLayer (.record id)).outcome h
      = (t >>= fun text => Eval.change (·.allocated 1) >>= fun _ => return text).outcome h := by
  rw [displayLayer, Eval.outcome_bind_ok (Eval.outcome_ask_of_eq found)]
  dsimp only
  rw [calls, bind_assoc, Eval.outcome_bind, Eval.outcome_bind]
  rcases t.outcome h with ⟨_ | text, h₁⟩
  · rfl
  · rfl

/-- The display of a record reads its fields in order and joins their texts. -/
theorem outcome_displayLayer (synthesized : method.SynthesizedFor .display fields)
    (found : h.methodOf? id .display = some method) (p : Protocol)
    : (p.displayLayer (.record id)).outcome h
      = (p.fieldTexts (.record id) (recordReads fields) >>= fun texts =>
          return recordText (h.typeName (.record id)) texts).outcome h := by
  obtain ⟨pool, called⟩ := synthesized.call_eq nofun p (by rfl : (#[Value.record id]).size = 1)
  rw [outcome_displayLayer_of_newStr found (called.trans (Template.evaluate_display _ _ _)),
    bind_assoc, Eval.outcome_bind_ok (Eval.outcome_ask_of_eq rfl), recordReads, ← List.cons_append,
    fieldTexts_append]
  simp [fieldTexts, recordText, String.append_assoc]

end Protocol

section Displays

variable [Natives] {h h' : Heap} {id : RecordId}

/-- The value is displayed as the text, or fails to be with the error. -/
def Displays (h : Heap) (value : Value) (result : Except EvalError String) (h' : Heap) : Prop :=
  Settles (fun p => p.display value) h result h'

theorem displays_iff_layer {value : Value} {result : Except EvalError String}
    : Displays h value result h' ↔ Settles (fun p => p.displayLayer value) h result h' :=
  settles_layer rfl fun _ => rfl

/-- The fields are read in order, and each value is displayed, up to the first field that is absent
or has a value whose display fails. Where `reads` has no field, a text is made.
-/
inductive FieldsDisplay (id : RecordId)
    : Heap → List (Option String) → Except EvalError (List String) → Heap → Prop
  | done (h : Heap) : FieldsDisplay id h [] (.ok []) h
  | made {h h' : Heap} {reads : List (Option String)} {result : Except EvalError (List String)}
    (rest : FieldsDisplay id (h.allocated 1) reads result h')
    : FieldsDisplay id h (none :: reads) result h'
  | absent {h : Heap} {field : String} (missing : h.getAttr? id field = none)
    (reads : List (Option String))
    : FieldsDisplay id h (some field :: reads)
        (.error (.noAttribute (h.typeName (.record id)) field)) h
  | fails {h h' : Heap} {field : String} {value : Value} {e : EvalError}
    (found : h.getAttr? id field = some value) (failed : Displays h value (.error e) h')
    (reads : List (Option String))
    : FieldsDisplay id h (some field :: reads) (.error e) h'
  | shown {h h₁ h' : Heap} {field text : String} {value : Value} {reads : List (Option String)}
    {result : Except EvalError (List String)} (found : h.getAttr? id field = some value)
    (displayed : Displays h value (.ok text) h₁) (rest : FieldsDisplay id h₁ reads result h')
    : FieldsDisplay id h (some field :: reads) (result.map ((field ++ "=" ++ text) :: ·)) h'

/-- Reading and displaying fields settles as the rules say, by induction on what is read. -/
theorem Protocol.settles_fieldTexts_iff [MonotoneNatives] {reads : List (Option String)}
    {result : Except EvalError (List String)}
    : Settles (fun p => p.fieldTexts (.record id) reads) h result h'
      ↔ FieldsDisplay id h reads result h' := by
  induction reads generalizing h h' result with
  | nil =>
      refine settles_pure.trans ⟨?_, ?_⟩
      · rintro ⟨rfl, rfl⟩
        exact .done _
      · rintro ⟨⟩
        exact ⟨rfl, rfl⟩
  | cons read rest ih =>
      cases read with
      | none =>
          refine (settles_after (Eval.outcome_change _)).trans (ih.trans ⟨.made, ?_⟩)
          rintro ⟨⟩
          assumption
      | some field =>
          cases found : h.getAttr? id field with
          | none =>
              refine (settles_after_error (Eval.outcome_getAttr_of_none found)).trans ⟨?_, ?_⟩
              · rintro ⟨rfl, rfl⟩
                exact .absent found rest
              · intro displays
                cases displays with
                | absent => exact ⟨rfl, rfl⟩
                | fails isValue =>
                    rw [found] at isValue
                    cases isValue
                | shown isValue =>
                    rw [found] at isValue
                    cases isValue
          | some value =>
              refine (settles_after (Eval.outcome_getAttr_of_some found)).trans ?_
              refine (settles_bind (fun _ _ refines => refines.display value) fun text =>
                (monotone_fieldTexts (.record id) rest).bind fun texts =>
                  monotone_const (return (field ++ "=" ++ text) :: texts)).trans ?_
              simp only [settles_map, ih]
              constructor
              · rintro (⟨text, h₁, displayed, before, displays, rfl⟩ | ⟨e, rfl, failed⟩)
                · exact .shown found displayed displays
                · exact .fails found failed rest
              · intro displays
                cases displays with
                | absent missing =>
                    rw [found] at missing
                    cases missing
                | fails isValue failed =>
                    cases found.symm.trans isValue
                    exact Or.inr ⟨_, rfl, failed⟩
                | shown isValue displayed displays =>
                    cases found.symm.trans isValue
                    exact Or.inl ⟨_, _, displayed, _, displays, rfl⟩

/-- A record with synthesized display is displayed as its fields are, in order. -/
theorem displays_record_iff [MonotoneNatives] {method : Method} {fields : List String}
    {result : Except EvalError String} (synthesized : method.SynthesizedFor .display fields)
    (found : h.methodOf? id .display = some method)
    : Displays h (.record id) result h'
      ↔ ∃ texts,
          FieldsDisplay id h (Protocol.recordReads fields) texts h'
          ∧ result = texts.map (Protocol.recordText (h.typeName (.record id))) := by
  have reads : Settles (fun p => p.displayLayer (.record id)) h result h'
      ↔ Settles (fun p => p.fieldTexts (.record id) (Protocol.recordReads fields) >>= fun texts =>
          return Protocol.recordText (h.typeName (.record id)) texts) h result h' :=
    exists_congr fun n => by rw [Protocol.outcome_displayLayer synthesized found]
  rw [displays_iff_layer, reads, settles_map]
  simp only [Protocol.settles_fieldTexts_iff]

-----------------------------------------------------------------------------------------
-- Displays that change no record
-----------------------------------------------------------------------------------------

/-- Whatever else has been made, the value is displayed so, and no record is changed by that. -/
def Shows (h : Heap) (value : Value) (result : Except EvalError String) : Prop :=
  ∀ h₁, h.SameRecords h₁ → ∃ h₂, h.SameRecords h₂ ∧ Displays h₁ value result h₂

/-- Each text behind the name of its field. -/
def labelled (fields texts : List String) : List String :=
  List.zipWith (fun field text => field ++ "=" ++ text) fields texts

/-- The record has the field, whose value shows as the text. -/
def ShowsField (h : Heap) (id : RecordId) (field text : String) : Prop :=
  ∃ value, h.getAttr? id field = some value ∧ Shows h value (.ok text)

/-- The record does not have the field, or its value fails to show. -/
def FailsField (h : Heap) (id : RecordId) (field : String) (e : EvalError) : Prop :=
  (h.getAttr? id field = none ∧ e = .noAttribute (h.typeName (.record id)) field)
  ∨ ∃ value, h.getAttr? id field = some value ∧ Shows h value (.error e)

section Showing

variable {h₁ : Heap} {reads : List (Option String)}

/-- Fields that show are displayed in order, by induction on what is read. -/
theorem fieldsDisplay_of_shows {texts : List String}
    (allShow : List.Forall₂ (ShowsField h id) reads.reduceOption texts) (same : h.SameRecords h₁)
    : ∃ h₂,
        h.SameRecords h₂
        ∧ FieldsDisplay id h₁ reads
          (.ok (labelled reads.reduceOption texts)) h₂ := by
  induction reads generalizing h₁ texts with
  | nil => exact ⟨h₁, same, .done h₁⟩
  | cons read rest ih =>
      cases read with
      | none =>
          obtain ⟨h₂, after, displays⟩ := ih allShow (same.trans (.allocated h₁ 1))
          exact ⟨h₂, after, .made displays⟩
      | some field =>
          rw [List.reduceOption_cons_of_some] at allShow ⊢
          cases allShow with
          | cons first others =>
              obtain ⟨value, found, shown⟩ := first
              obtain ⟨h₂, before, displayed⟩ := shown h₁ same
              obtain ⟨h₃, after, displays⟩ := ih others before
              exact ⟨h₃, after, .shown ((same.getAttr? id field).trans found) displayed displays⟩

/-- Behind fields that show, the first field that does not is what displaying fails with, by
induction on what is read.
-/
theorem fieldsDisplay_of_fails {before after texts : List String} {field : String} {e : EvalError}
    (order : reads.reduceOption = before ++ field :: after)
    (allShow : List.Forall₂ (ShowsField h id) before texts) (fails : FailsField h id field e)
    (same : h.SameRecords h₁)
    : ∃ h₂, h.SameRecords h₂ ∧ FieldsDisplay id h₁ reads (.error e) h₂ := by
  induction reads generalizing h₁ before texts with
  | nil => simp at order
  | cons read rest ih =>
      cases read with
      | none =>
          obtain ⟨h₂, behind, displays⟩ := ih order allShow (same.trans (.allocated h₁ 1))
          exact ⟨h₂, behind, .made displays⟩
      | some first =>
          rw [List.reduceOption_cons_of_some] at order
          cases allShow with
          | nil =>
              obtain ⟨rfl, -⟩ := List.cons.inj order
              rcases fails with ⟨missing, rfl⟩ | ⟨value, found, failed⟩
              · rw [← same.typeName]
                exact ⟨h₁, same, .absent ((same.getAttr? id first).trans missing) rest⟩
              · obtain ⟨h₂, behind, displayed⟩ := failed h₁ same
                exact ⟨h₂, behind, .fails ((same.getAttr? id first).trans found) displayed rest⟩
          | cons shown others =>
              obtain ⟨rfl, tail⟩ := List.cons.inj order
              obtain ⟨value, found, shown⟩ := shown
              obtain ⟨h₂, between, displayed⟩ := shown h₁ same
              obtain ⟨h₃, behind, displays⟩ := ih tail others between
              exact ⟨h₃, behind, .shown ((same.getAttr? id first).trans found) displayed displays⟩

end Showing

/-- The display of a record whose display behavior has been synthesized, by its type or by an
ancestor: the name of the record's own type and, in parentheses, each field with its value's
display, in the order of the fields; or the error of the first field that is absent or whose value
fails to be displayed. Nothing but the number of texts that are made on the way depends on how the
template groups the fields.
-/
theorem displays_of_synthesized [MonotoneNatives] {method : Method} {fields : List String}
    (synthesized : method.SynthesizedFor .display fields)
    : (∃ reads : List (Option String),
        reads.reduceOption = fields
        ∧ ∀ (h : Heap) (id : RecordId),
          h.methodOf? id .display = some method →
          ∀ result h',
            Displays h (.record id) result h'
            ↔ ∃ texts,
                FieldsDisplay id h reads texts h'
                ∧ result = texts.map fun texts =>
                    h.typeName (.record id) ++ "(" ++ String.intercalate ", " texts ++ ")")
      ∧ ∀ (h : Heap) (id : RecordId),
        h.methodOf? id .display = some method →
        (∀ texts,
          List.Forall₂ (ShowsField h id) fields texts →
          Shows h (.record id)
            (.ok (h.typeName (.record id) ++ "("
              ++ String.intercalate ", " (labelled fields texts) ++ ")")))
        ∧ ∀ before field after texts e,
          fields = before ++ field :: after →
          List.Forall₂ (ShowsField h id) before texts →
          FailsField h id field e →
          Shows h (.record id) (.error e) := by
  have order := Protocol.reduceOption_recordReads fields
  refine ⟨⟨Protocol.recordReads fields, order, ?_⟩, ?_⟩
  · intro h id found result h'
    exact displays_record_iff synthesized found
  · intro h id found
    have elsewhere {h₁ : Heap} (same : h.SameRecords h₁)
        : h₁.methodOf? id .display = some method :=
      (same.methodOf? id .display).trans found
    refine ⟨?_, ?_⟩
    · intro texts allShow h₁ same
      obtain ⟨h₂, after, displays⟩ := fieldsDisplay_of_shows (by rwa [order]) same
      rw [order] at displays
      refine ⟨h₂, after, (displays_record_iff synthesized (elsewhere same)).mpr ⟨_, displays, ?_⟩⟩
      rw [same.typeName]
      rfl
    · intro before field after texts e split allShow fails h₁ same
      obtain ⟨h₂, behind, displays⟩ :=
        fieldsDisplay_of_fails (order.trans split) allShow fails same
      exact ⟨h₂, behind, (displays_record_iff synthesized (elsewhere same)).mpr ⟨_, displays, rfl⟩⟩

end Displays

section Inherited

open Natives

/-- A record of a type that descends from the equipped one, and a record without one of its fields.
-/
def shownRecords : Heap where
  types := equippedTypes ["fn", "a=b"]
  records :=
    #[⟨⟨1⟩, (∅ : Std.HashMap String Value).insert "fn" (.int 7) |>.insert "a=b" .none⟩,
      ⟨⟨0⟩, (∅ : Std.HashMap String Value).insert "fn" (.int 7)⟩]
  nextOffset := 0

/-- Witness: fields whose names are no identifiers, all of them on one record and not on another. -/
theorem displays_of_synthesized_inherited
    : (∃ h', Displays shownRecords (.record ⟨0⟩) (.ok "U(fn=7, a=b=None)") h')
      ∧ ∃ h', Displays shownRecords (.record ⟨1⟩) (.error (.noAttribute "T" "a=b")) h' := by
  obtain ⟨method, synthesized, own, inherited⟩ :=
    synthesizedFor_equippedTypes (by decide : ["fn", "a=b"].Nodup) (by decide) .display
  obtain ⟨nameT, nameU⟩ := name_equippedTypes (by decide : ["fn", "a=b"].Nodup) (by decide)
  obtain ⟨-, displays⟩ := displays_of_synthesized synthesized
  have seven (id : RecordId) (found : shownRecords.getAttr? id "fn" = some (.int 7))
      : ShowsField shownRecords id "fn" "7" :=
    ⟨.int 7, found, fun h₁ same => ⟨h₁, same, 1, rfl⟩⟩
  refine ⟨?_, ?_⟩
  · obtain ⟨shown, -⟩ := displays shownRecords ⟨0⟩ inherited
    have first : ShowsField shownRecords ⟨0⟩ "fn" "7" := seven ⟨0⟩ (by
      simp [shownRecords, Heap.getAttr?, Std.HashMap.getElem_insert])
    have second : ShowsField shownRecords ⟨0⟩ "a=b" "None" :=
      ⟨.none, by simp [shownRecords, Heap.getAttr?], fun h₁ same => ⟨h₁, same, 1, rfl⟩⟩
    obtain ⟨h', -, isText⟩ := shown ["7", "None"] (.cons first (.cons second .nil)) _ (.refl _)
    have name : shownRecords.typeName (.record ⟨0⟩) = "U" := nameU
    rw [name] at isText
    exact ⟨h', isText⟩
  · obtain ⟨-, failed⟩ := displays shownRecords ⟨1⟩ own
    have first : ShowsField shownRecords ⟨1⟩ "fn" "7" := seven ⟨1⟩ (by
      simp [shownRecords, Heap.getAttr?])
    have second : FailsField shownRecords ⟨1⟩ "a=b" (.noAttribute "T" "a=b") := by
      refine Or.inl ⟨by simp [shownRecords, Heap.getAttr?], ?_⟩
      have name : shownRecords.typeName (.record ⟨1⟩) = "T" := nameT
      rw [name]
    obtain ⟨h', -, isError⟩ :=
      failed ["fn"] "a=b" [] ["7"] _ rfl (.cons first .nil) second _ (.refl _)
    exact ⟨h', isError⟩

end Inherited

end RecordSynth
