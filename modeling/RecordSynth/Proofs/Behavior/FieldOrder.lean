import RecordSynth.Proofs.Behavior.Construction
import RecordSynth.Proofs.Behavior.Hashing
import RecordSynth.Proofs.Synthesis.Retention

/-! One order of fields. Construction takes values for the fields, iteration and hashing go through
the fields, and matching takes the first of them, each by code of its own. On a line of types that
is equipped, all of them go by one order, also where a record is matched against an ancestor of its
type.
-/

namespace RecordSynth

-----------------------------------------------------------------------------------------
-- Iteration
-----------------------------------------------------------------------------------------

namespace Template

open Source

/-- Fields are yielded as they are read, after what has been yielded, by induction on them. -/
theorem executeAll_yields {scope : Scope} {record : Value}
    (self : scope.bindings.lookup "self" = some record) (fields : List String)
    (yielded : List Value)
    : Stmt.executeAll scope yielded (body .iteration fields)
      = fields.mapM (Eval.getAttr record) >>= fun values => return .next (yielded ++ values) := by
  induction fields generalizing yielded with
  | nil => simp [body, Stmt.executeAll]
  | cons field rest ih =>
      have others (yielded : List Value)
          : Stmt.executeAll scope yielded
              (rest.map fun field => .yield default (fieldOf "self" field)) = _ :=
        ih yielded
      rw [body, List.map_cons, Stmt.executeAll, Stmt.execute, evaluate_fieldOf self]
      simp [others]

/-- Iteration makes a tuple of the fields. -/
theorem evaluate_iteration (fields : List String) (p : Protocol) (pool : String → Address)
    (record : Value)
    : (tree .iteration fields).evaluate p pool #[record]
      = fields.mapM (Eval.getAttr record) >>= Eval.newTuple := by
  have self : ((tree .iteration fields).scope p pool #[record]).bindings.lookup "self"
      = some record := rfl
  have yields := executeAll_yields self fields []
  unfold Definition.evaluate
  dsimp only
  rw [show (tree .iteration fields).body = body .iteration fields from rfl, yields]
  simp [Scope.finish, Definition.scope, tree]

end Template

namespace Protocol

variable {h : Heap} {method : Method} {fields : List String} {id : RecordId} {type : TypeId}

/-- A record with synthesized iteration goes through the values of its fields. -/
theorem outcome_iterate (synthesized : method.SynthesizedFor .iteration fields)
    (found : h.methodOf? id .iteration = some method) {values : List Value}
    (set : fields.map (h.getAttr? id) = values.map some) (p : Protocol)
    : (p.iterate (.record id)).outcome h = (.ok values, h.allocated 1) := by
  obtain ⟨pool, called⟩ :=
    synthesized.call_eq nofun p (by rfl : (#[Value.record id]).size = 1)
  rw [iterate, Eval.outcome_bind_ok (Eval.outcome_ask_of_eq found)]
  dsimp only
  rw [called, Template.evaluate_iteration, Eval.outcome_bind_ok (outcome_tuple set)]
  rfl

-----------------------------------------------------------------------------------------
-- Matching
-----------------------------------------------------------------------------------------

theorem attributes_eq (value : Value) (done : List Value) (fields : List Field)
    : attributes value done fields
      = (fields.map Field.name).mapM (Eval.getAttr value) >>= fun values =>
          return done.reverse ++ values := by
  induction fields generalizing done with
  | nil => simp [attributes]
  | cons field rest ih => simp [attributes, ih]

/-- A record is matched against an ancestor of its type whose recorded fields are set. -/
theorem outcome_matchPositional {ancestor : TypeId} {recorded : List Field} {values : List Value}
    (isType : h.typeOf? id = some type) (descends : ancestor ∈ h.types.ancestry type)
    (isRecorded : h.types.matchArgs ancestor = some recorded)
    (set : (recorded.map Field.name).map (h.getAttr? id) = values.map some) (count : Nat)
    : (matchPositional (.record id) ancestor count).outcome h
      = if recorded.length < count then
          (.error (.error (.tooManyPositional (h.types.name ancestor) recorded.length count)), h)
        else (.ok (some (values.take count)), h) := by
  have isInstance : (h.typeOf? id).any (h.types.isSubtype · ancestor) = true := by
    rw [isType, Option.any_some, TypeTable.isSubtype]
    exact List.contains_iff_mem.mpr descends
  have front : (((recorded.take count).map Field.name).map (h.getAttr? id))
      = (values.take count).map some := by
    rw [List.map_take, List.map_take, set, List.map_take]
  unfold matchPositional
  rw [Eval.outcome_bind_ok (Eval.outcome_ask_of_eq isInstance), if_pos rfl,
    Eval.outcome_bind_ok (Eval.outcome_ask_of_eq isRecorded)]
  dsimp only
  rw [Option.getD_some]
  split
  · rfl
  · rw [attributes_eq, bind_assoc, Eval.outcome_bind_ok (Eval.outcome_mapM_getAttr front)]
    rfl

/-- The fields of an ancestor come first, so they are set to the first of the values. -/
theorem outcome_matchPositional_ancestor {ancestor : TypeId} {values : List Value}
    (isType : h.typeOf? id = some type) (descends : ancestor ∈ h.types.ancestry type)
    (recorded
      : ∃ fields,
          h.types.matchArgs ancestor = some fields
          ∧ fields.map Field.name = (h.types.fieldOrder ancestor).keys)
    (set : (h.types.fieldOrder type).keys.map (h.getAttr? id) = values.map some) (count : Nat)
    : (matchPositional (.record id) ancestor count).outcome h
      = if (h.types.fieldOrder ancestor).size < count then
          (.error (.error (.tooManyPositional (h.types.name ancestor)
            (h.types.fieldOrder ancestor).size count)), h)
        else (.ok (some (values.take count)), h) := by
  obtain ⟨fields, isRecorded, order⟩ := recorded
  have size : fields.length = (h.types.fieldOrder ancestor).size := by
    rw [← Roster.length_keys, ← order, List.length_map]
  have front := TypeTable.prefix_keys_fieldOrder descends
  rw [List.prefix_iff_eq_take, Roster.length_keys] at front
  have setFront : (fields.map Field.name).map (h.getAttr? id)
      = (values.take (h.types.fieldOrder ancestor).size).map some := by
    rw [order, List.map_take, ← set, ← List.map_take, ← front]
  rw [outcome_matchPositional isType descends isRecorded setFront, size]
  split
  · rfl
  · next few => rw [List.take_take, Nat.min_eq_left (Nat.le_of_not_lt few)]

end Protocol

-----------------------------------------------------------------------------------------
-- Records of types that are equipped
-----------------------------------------------------------------------------------------

/-- The values are those of the record's fields in the order that everything goes by: iteration and
hashing, and matching against the type of the record or an ancestor of the type.
-/
structure Heap.Ordered [Natives] (h : Heap) (id : RecordId) (type : TypeId) (values : List Value)
    : Prop where
  set : (h.types.fieldOrder type).keys.map (h.getAttr? id) = values.map some
  iterates
    : ∀ p : Protocol, (p.iterate (.record id)).outcome h = (.ok values, h.allocated 1)
  hashes
    : ∀ address result h',
        Hashes h (.record id) result h' ↔ Hashes (h.allocated 1) (.tuple address values) result h'
  fits
    : ∀ ancestor ∈ h.types.ancestry type, ∀ count,
        count ≤ (h.types.fieldOrder ancestor).size →
        (Protocol.matchPositional (.record id) ancestor count).outcome h
          = (.ok (some (values.take count)), h)
  tooMany
    : ∀ ancestor ∈ h.types.ancestry type, ∀ count,
        (h.types.fieldOrder ancestor).size < count →
        (Protocol.matchPositional (.record id) ancestor count).outcome h
          = (.error (.error (.tooManyPositional (h.types.name ancestor)
              (h.types.fieldOrder ancestor).size count)), h)

section Lines

open Workshop

variable [Natives] {w : Workshop} {edits : List Edit} {bottom type : TypeId} {h : Heap}
variable {id : RecordId} {values : List Value}

/-- A record whose fields are set to the values is ordered, on a line that is equipped. -/
theorem ordered_of_set (equips : w.EquipsLine edits bottom)
    (inLine : type ∈ (w.replay edits).types.ancestry bottom)
    (types : h.types = (w.replay edits).types) (isType : h.typeOf? id = some type)
    (set : (h.types.fieldOrder type).keys.map (h.getAttr? id) = values.map some)
    : h.Ordered id type values := by
  have found (behavior : Behavior)
      : ∃ method : Method,
          h.methodOf? id behavior = some method
          ∧ method.SynthesizedFor behavior (h.types.fieldOrder type).keys := by
    obtain ⟨method, isMethod, synthesized⟩ := equips.finds inLine behavior
    rw [Heap.methodOf?, isType, Option.bind_some, types]
    exact ⟨method, isMethod, synthesized⟩
  have recorded {ancestor : TypeId} (descends : ancestor ∈ h.types.ancestry type)
      : ∃ fields,
          h.types.matchArgs ancestor = some fields
          ∧ fields.map Field.name = (h.types.fieldOrder ancestor).keys := by
    rw [types] at descends ⊢
    obtain ⟨-, ending⟩ := TypeTable.line_of_mem_ancestry inLine
    exact equips.recorded (ending.subset descends)
  refine ⟨set, ?_, ?_, ?_, ?_⟩
  · intro p
    obtain ⟨method, isMethod, synthesized⟩ := found .iteration
    exact Protocol.outcome_iterate synthesized isMethod set p
  · intro address result h'
    obtain ⟨method, isMethod, synthesized⟩ := found .hashing
    exact hashes_record_iff synthesized isMethod set address
  · intro ancestor descends count few
    rw [Protocol.outcome_matchPositional_ancestor isType descends (recorded descends) set,
      if_neg (Nat.not_lt.mpr few)]
  · intro ancestor descends count many
    rw [Protocol.outcome_matchPositional_ancestor isType descends (recorded descends) set,
      if_pos many]

/-- Let a line of types be equipped with every behavior. With a value for each field, a type of the
line makes a record. Iteration goes through the values, hashing takes them as a tuple, and matching
against the type or an ancestor gives the first of them, up to as many as the ancestor has fields.
So it is as long as the record is not changed, whatever else is made.
-/
theorem ordered_of_construct (equips : w.EquipsLine edits bottom)
    (inLine : type ∈ (w.replay edits).types.ancestry bottom)
    (types : h.types = (w.replay edits).types)
    (length : values.length = (h.types.fieldOrder type).size) (p : Protocol)
    : ∃ id h',
        (p.construct type values.toArray).outcome h = (.ok (.record id), h')
        ∧ h.typeOf? id = none
        ∧ h.Keeps h'
        ∧ ∀ h₁, h'.SameRecords h₁ → h₁.Ordered id type values := by
  obtain ⟨method, isMethod, synthesized⟩ := equips.finds inLine .construct
  have order : (w.replay edits).fieldNames type = (h.types.fieldOrder type).keys := by
    rw [types]
    rfl
  rw [← types] at isMethod
  rw [order] at synthesized
  rw [← Roster.length_keys] at length
  obtain ⟨id, h', made, building⟩ :=
    Protocol.building_of_construct synthesized isMethod p length
  refine ⟨id, h', made, building.fresh, building.kept, ?_⟩
  intro h₁ same
  have types₁ : h₁.types = h.types := same.types.trans building.kept.types
  have isType : h₁.typeOf? id = some type := (same.typeOf? id).trans building.type
  refine ordered_of_set equips inLine (types₁.trans types) isType ?_
  rw [types₁, ← map_lookup_zip synthesized.fields_fit.2 length]
  exact List.map_congr_left fun name _ => (same.getAttr? id name).trans (building.attrs name)

end Lines

section Redeclared

open Natives Workshop

/-- A type, and a type that descends from it and declares one of its fields again. -/
def redeclared : Workshop :=
  (new Template.standard 0).replay
    [.declareType "T" none [⟨"x", "int"⟩, ⟨"y", "int"⟩] [],
      .declareType "U" (some ⟨0⟩) [⟨"z", "int"⟩, ⟨"x", "float"⟩] []]

/-- The heap of these types without records, after they have been equipped. -/
def redeclaredHeap : Heap where
  types := (redeclared.replay ([⟨1⟩, ⟨0⟩].map (Edit.equip · .all))).types
  records := #[]
  nextOffset := 0

theorem get?_redeclared
    : redeclared.types.get? ⟨0⟩
        = some ⟨"T", none, Roster.ofList [⟨"x", "int"⟩, ⟨"y", "int"⟩], .all none, .none, none⟩
      ∧ redeclared.types.get? ⟨1⟩
        = some
          ⟨"U", some ⟨0⟩, Roster.ofList [⟨"z", "int"⟩, ⟨"x", "float"⟩], .all none, .none, none⟩ :=
  ⟨rfl, rfl⟩

theorem ancestry_redeclared
    : redeclared.types.ancestry ⟨0⟩ = [⟨0⟩] ∧ redeclared.types.ancestry ⟨1⟩ = [⟨1⟩, ⟨0⟩] := by
  obtain ⟨isAbove, isBelow⟩ := get?_redeclared
  have above := TypeTable.ancestry_of_get?_eq_some isAbove
  have below := TypeTable.ancestry_of_get?_eq_some isBelow
  rw [Option.elim_none] at above
  rw [Option.elim_some, above] at below
  exact ⟨above, below⟩

theorem fieldNames_redeclared
    : redeclared.fieldNames ⟨0⟩ = ["x", "y"] ∧ redeclared.fieldNames ⟨1⟩ = ["x", "y", "z"] := by
  obtain ⟨isAbove, isBelow⟩ := get?_redeclared
  obtain ⟨above, below⟩ := ancestry_redeclared
  have declared : (redeclared.types.declared ⟨0⟩).map Field.name = ["x", "y"]
      ∧ (redeclared.types.declared ⟨1⟩).map Field.name = ["z", "x"] := by
    unfold TypeTable.declared
    rw [isAbove, isBelow]
    refine ⟨(Roster.keys_foldl_insert (.empty : Fields) _).trans ?_,
      (Roster.keys_foldl_insert (.empty : Fields) _).trans ?_⟩ <;>
      rw [Roster.keys_empty] <;> rfl
  have order (id : TypeId) : redeclared.fieldNames id = _ :=
    TypeTable.keys_fieldOrder redeclared.types id
  refine ⟨?_, ?_⟩
  · rw [order, above]
    simp [declared.1]
    rfl
  · rw [order, below]
    simp [declared.1, declared.2]
    rfl

theorem equipsLine_redeclared
    : redeclared.EquipsLine ([⟨1⟩, ⟨0⟩].map (Edit.equip · .all)) ⟨1⟩ := by
  obtain ⟨isAbove, isBelow⟩ := get?_redeclared
  obtain ⟨-, line⟩ := ancestry_redeclared
  obtain ⟨-, names⟩ := fieldNames_redeclared
  rw [← line]
  refine .of_few ⟨0, .empty⟩ isBelow ?_ ?_
  · intro a member ty b isType
    rw [line, List.mem_pair] at member
    rcases member with rfl | rfl
    · rw [isBelow] at isType
      cases isType
      cases b <;> rfl
    · rw [isAbove] at isType
      cases isType
      cases b <;> rfl
  · rw [names]
    decide

/-- Witness: a record of the lower type, matched against the upper one. -/
theorem ordered_of_construct_redeclared
    : ∃ id h',
        (Protocol.full.construct ⟨1⟩ #[.int 1, .none, .bool true]).outcome redeclaredHeap
          = (.ok (.record id), h')
        ∧ (Protocol.full.iterate (.record id)).outcome h'
          = (.ok [.int 1, .none, .bool true], h'.allocated 1)
        ∧ (∀ result h'',
          Hashes h' (.record id) result h''
            ↔ Hashes (h'.allocated 1) (.tuple ⟨0, 0⟩ [.int 1, .none, .bool true]) result h'')
        ∧ (Protocol.matchPositional (.record id) ⟨0⟩ 2).outcome h'
          = (.ok (some [.int 1, .none]), h')
        ∧ (Protocol.matchPositional (.record id) ⟨0⟩ 3).outcome h'
          = (.error (.error (.tooManyPositional "T" 2 3)), h') := by
  obtain ⟨isAbove, isBelow⟩ := get?_redeclared
  obtain ⟨lineAbove, line⟩ := ancestry_redeclared
  obtain ⟨namesAbove, names⟩ := fieldNames_redeclared
  have size : (redeclaredHeap.types.fieldOrder ⟨1⟩).size = 3 := by
    have kept := fieldNames_replay isBelow (Edit.spares_equip [⟨1⟩, ⟨0⟩] .all _)
    rw [← Roster.length_keys]
    exact congrArg List.length (kept.trans names)
  have sizeAbove : (redeclaredHeap.types.fieldOrder ⟨0⟩).size = 2 := by
    have kept := fieldNames_replay isAbove (Edit.spares_equip [⟨1⟩, ⟨0⟩] .all _)
    rw [← Roster.length_keys]
    exact congrArg List.length (kept.trans namesAbove)
  have kept : redeclaredHeap.types.ancestry ⟨1⟩ = [⟨1⟩, ⟨0⟩] :=
    (ancestry_replay isBelow _).trans line
  obtain ⟨ty, isType, name, -⟩ := exists_replay isAbove ([⟨1⟩, ⟨0⟩].map (Edit.equip · .all))
  have isName : redeclaredHeap.types.name ⟨0⟩ = "T" := by
    rw [TypeTable.name, show redeclaredHeap.types.get? ⟨0⟩ = some ty from isType]
    exact name
  have length : [Value.int 1, .none, .bool true].length
      = (redeclaredHeap.types.fieldOrder ⟨1⟩).size := size.symm
  obtain ⟨id, h', made, -, keeps, ordered⟩ :=
    ordered_of_construct equipsLine_redeclared (kept.symm ▸ List.mem_cons_self) rfl length
      Protocol.full
  have inOrder := ordered h' (.refl h')
  have descends : (⟨0⟩ : TypeId) ∈ h'.types.ancestry ⟨1⟩ := by
    rw [keeps.types, kept]
    exact List.mem_cons_of_mem _ List.mem_cons_self
  have fits := inOrder.fits ⟨0⟩ descends 2
  have tooMany := inOrder.tooMany ⟨0⟩ descends 3
  rw [keeps.types, sizeAbove] at fits tooMany
  rw [isName] at tooMany
  exact ⟨id, h', made, inOrder.iterates _, inOrder.hashes ⟨0, 0⟩, fits (Nat.le_refl 2),
    tooMany (Nat.lt_succ_self 2)⟩

end Redeclared

end RecordSynth
