import RecordSynth.Proofs.Behavior.Display
import RecordSynth.Proofs.Behavior.FieldOrder
import RecordSynth.Proofs.Behavior.ReadOnly

/-! Reading ends where data has no cycle. What is inside a value without cycles is nested to some
depth, since there are finitely many records with finitely many attributes. A display goes one level
deeper for each level of nesting; equality and hashing go two, since they make a tuple of the fields
of a record first. So as many levels as values are nested deep give an answer, and more levels give
the same one.
-/

namespace RecordSynth

open Relation

-----------------------------------------------------------------------------------------
-- How deep values are nested
-----------------------------------------------------------------------------------------

namespace Heap

variable {h : Heap} {u v : Value} {depth depth' : Nat}

/-- Values are nested inside the value at most `depth` deep. -/
def NestedWithin (h : Heap) : Nat → Value → Prop
  | 0, v => ∀ u, ¬ h.Inside u v
  | depth + 1, v => ∀ u, h.Inside u v → h.NestedWithin depth u

theorem NestedWithin.mono (nested : h.NestedWithin depth v) (le : depth ≤ depth')
    : h.NestedWithin depth' v := by
  induction depth' generalizing depth v with
  | zero =>
      obtain rfl := Nat.le_zero.mp le
      exact nested
  | succ depth' ih =>
      intro u inside
      cases depth with
      | zero => exact absurd inside (nested u)
      | succ depth => exact ih (nested u inside) (Nat.le_of_succ_le_succ le)

/-- What is inside is nested less deep. -/
theorem NestedWithin.inside (nested : h.NestedWithin depth v) (inside : h.Inside u v)
    : ∃ less, depth = less + 1 ∧ h.NestedWithin less u := by
  cases depth with
  | zero => exact absurd inside (nested u)
  | succ less => exact ⟨less, rfl, nested u inside⟩

/-- Finitely many values are inside a value. -/
theorem exists_inside (h : Heap) (v : Value)
    : ∃ values : List Value, ∀ u, u ∈ values ↔ h.Inside u v := by
  cases v with
  | tuple address items =>
      refine ⟨items, fun u => ⟨.item address, ?_⟩⟩
      rintro ⟨_, member⟩
      exact member
  | record id =>
      cases isRecord : h.records[id.index]? with
      | none =>
          refine ⟨[], fun u => ⟨fun member => absurd member List.not_mem_nil, ?_⟩⟩
          rintro ⟨⟩
          next found => simp [getAttr?, isRecord] at found
      | some r =>
          refine ⟨r.attrs.toList.map Prod.snd, fun u => ⟨?_, ?_⟩⟩
          · intro member
            obtain ⟨⟨name, u⟩, isAttr, rfl⟩ := List.mem_map.mp member
            have found : h.getAttr? id name = some u := by
              rw [getAttr?, isRecord, Option.bind_some]
              exact Std.HashMap.mem_toList_iff_getElem?_eq_some.mp isAttr
            exact .attr found
          · rintro ⟨⟩
            next found =>
            rw [getAttr?, isRecord, Option.bind_some] at found
            exact List.mem_map_of_mem (Std.HashMap.mem_toList_iff_getElem?_eq_some.mpr found)
  | _ =>
      refine ⟨[], fun u => ⟨fun member => absurd member List.not_mem_nil, ?_⟩⟩
      rintro ⟨⟩

/-- Finitely many values that are each nested to some depth are nested to a common one. -/
theorem exists_depth_of_forall {values : List Value}
    (nested : ∀ v ∈ values, ∃ depth, h.NestedWithin depth v)
    : ∃ depth, ∀ v ∈ values, h.NestedWithin depth v := by
  induction values with
  | nil => exact ⟨0, List.forall_mem_nil _⟩
  | cons v rest ih =>
      obtain ⟨⟨first, isFirst⟩, others⟩ := List.forall_mem_cons.mp nested
      obtain ⟨depth, areOthers⟩ := ih others
      refine ⟨max first depth, List.forall_mem_cons.mpr ⟨?_, ?_⟩⟩
      · exact isFirst.mono (Nat.le_max_left first depth)
      · exact fun u member => (areOthers u member).mono (Nat.le_max_right first depth)

/-- A value is nested to some depth if what is inside it is reached in finitely many steps, by
induction on what is inside.
-/
theorem exists_depth_of_acc (reached : Acc h.Inside v) : ∃ depth, h.NestedWithin depth v := by
  induction reached with
  | intro v _ ih =>
      obtain ⟨values, complete⟩ := h.exists_inside v
      obtain ⟨depth, nested⟩ :=
        exists_depth_of_forall fun u member => ih u ((complete u).mp member)
      exact ⟨depth + 1, fun u inside => nested u ((complete u).mpr inside)⟩

theorem NestedWithin.acc (nested : h.NestedWithin depth v) : Acc h.Inside v := by
  induction depth generalizing v with
  | zero => exact Acc.intro v fun u inside => absurd inside (nested u)
  | succ depth ih => exact Acc.intro v fun u inside => ih (nested u inside)

/-- A value is nested to some depth exactly if no cycle is reached from it. -/
theorem acyclicFrom_iff : h.AcyclicFrom v ↔ ∃ depth, h.NestedWithin depth v := by
  refine ⟨fun acyclic => exists_depth_of_acc acyclic.acc, ?_⟩
  rintro ⟨depth, nested⟩ id reached cycle
  have acc : Acc (TransGen h.Inside) (.record id) := by
    rcases reflTransGen_iff_eq_or_transGen.mp reached with rfl | deeper
    · exact nested.acc.transGen
    · exact nested.acc.transGen.inv deeper
  generalize Value.record id = u at acc cycle
  induction acc with
  | intro u _ ih => exact ih u cycle cycle

end Heap

-----------------------------------------------------------------------------------------
-- Calls of synthesized methods
-----------------------------------------------------------------------------------------

open Eval

/-- The value is a tuple of what is inside another one. -/
def Heap.TupleOf (h : Heap) (t v : Value) : Prop :=
  ∃ address items, t = .tuple address items ∧ ∀ u ∈ items, h.Inside u v

section Calls

variable {h : Heap} {limited : Prop} {method : Method} {fields : List String} {id : RecordId}
variable {v : Value} {p : Protocol}

theorem quiet_mapM_getAttr (v : Value) (fields : List String)
    : (fields.mapM (getAttr v)).Quiet h limited := by
  induction fields with
  | nil => exact quiet_pure []
  | cons field rest ih =>
      rw [List.mapM_cons]
      refine (quiet_getAttr v field).bind fun value _ => ?_
      exact ih.bind fun values _ => quiet_pure _

/-- Fields that may be read are inside the value, by induction on the fields. -/
theorem inside_of_mayGive_mapM {values : List Value}
    (given : (fields.mapM (getAttr v)).MayGive h values)
    : ∀ u ∈ values, h.Inside u v := by
  induction fields generalizing values with
  | nil =>
      obtain ⟨h₁, h₂, same, ⟨⟩⟩ := given
      exact List.forall_mem_nil _
  | cons field rest ih =>
      rw [List.mapM_cons] at given
      have first : (getAttr v field).Quiet h True := quiet_getAttr v field
      have others : (rest.mapM (getAttr v)).Quiet h True := quiet_mapM_getAttr v rest
      obtain ⟨value, isFirst, given⟩ := given.of_bind first
      obtain ⟨more, areOthers, h₁, h₂, same, ⟨⟩⟩ := given.of_bind others
      exact List.forall_mem_cons.mpr ⟨inside_of_mayGive_getAttr isFirst, ih areOthers⟩

/-- Making a tuple of fields is quiet. -/
theorem quiet_fieldTuple (v : Value) (fields : List String)
    : (fields.mapM (getAttr v) >>= newTuple).Quiet h limited :=
  (quiet_mapM_getAttr v fields).bind fun values _ => quiet_newTuple values

theorem tupleOf_of_mayGive {t : Value}
    (given : (fields.mapM (getAttr v) >>= newTuple).MayGive h t)
    : h.TupleOf t v := by
  have first : (fields.mapM (getAttr v)).Quiet h True := quiet_mapM_getAttr v fields
  obtain ⟨values, read, h₁, h₂, same, ⟨⟩⟩ := given.of_bind first
  exact ⟨_, values, rfl, inside_of_mayGive_mapM read⟩

theorem Protocol.quiet_fieldTexts (inside : ∀ u, h.Inside u v → (p.display u).Quiet h limited)
    (reads : List (Option String))
    : (p.fieldTexts v reads).Quiet h limited := by
  induction reads with
  | nil => exact quiet_pure []
  | cons read rest ih =>
      cases read with
      | none => exact (quiet_allocated 1).bind fun _ _ => ih
      | some field =>
          refine (quiet_getAttr v field).bind fun value isField => ?_
          refine (inside value (inside_of_mayGive_getAttr isField)).bind fun text _ => ?_
          exact ih.bind fun texts _ => quiet_pure _

namespace Method.SynthesizedFor

/-- Synthesized display is quiet if displaying what is inside is. -/
theorem quiet_display (synthesized : method.SynthesizedFor .display fields)
    (inside : ∀ u, h.Inside u v → (p.display u).Quiet h limited)
    : (method.call p #[v]).Quiet h limited := by
  obtain ⟨pool, called⟩ := synthesized.call_eq nofun p (by rfl : (#[v]).size = 1)
  rw [called, Template.evaluate_display, bind_assoc]
  refine (quiet_ask _).bind fun typeName _ => ?_
  rw [bind_assoc]
  refine (Protocol.quiet_fieldTexts inside _).bind fun texts _ => ?_
  exact quiet_newStr _

/-- Synthesized equality is quiet if comparing tuples of what is inside two records is. -/
theorem quiet_equality (synthesized : method.SynthesizedFor .equality fields)
    (found : h.methodOf? id .equality = some method) {right : Value}
    (tuples
      : ∀ other a b, right = .record other → h.TupleOf a (.record id) →
          h.TupleOf b (.record other) → (p.equals a b).Quiet h limited)
    : (method.call p #[.record id, right]).Quiet h limited := by
  obtain ⟨pool, called⟩ :=
    synthesized.call_eq nofun p (by rfl : (#[.record id, right]).size = 2)
  rw [called, Template.evaluate_equality]
  refine .ask_bind (fun h₁ same => same.typeRef (.record id)) ?_
  refine .ask_bind (fun h₁ same => same.typeRef right) ?_
  split
  · next same =>
    obtain ⟨other, rfl⟩ := isRecord_of_sameType found same.symm
    refine (quiet_fieldTuple (.record id) fields).bind fun a isMine => ?_
    refine (quiet_fieldTuple (.record other) fields).bind fun b isTheirs => ?_
    have compared :=
      tuples other a b rfl (tupleOf_of_mayGive isMine) (tupleOf_of_mayGive isTheirs)
    exact compared.bind fun equal _ => quiet_pure _
  · exact quiet_pure _

/-- Synthesized hashing is quiet if hashing a tuple of what is inside is. -/
theorem quiet_hashing (synthesized : method.SynthesizedFor .hashing fields)
    (tuples : ∀ t, h.TupleOf t v → (p.hash t).Quiet h limited)
    : (method.call p #[v]).Quiet h limited := by
  obtain ⟨pool, called⟩ := synthesized.call_eq nofun p (by rfl : (#[v]).size = 1)
  rw [called, Template.evaluate_hashing]
  refine (quiet_fieldTuple v fields).bind fun t isTuple => ?_
  exact (tuples t (tupleOf_of_mayGive isTuple)).bind fun word _ => quiet_pure _

/-- Synthesized iteration reads fields, and asks nothing of what is inside. -/
theorem quiet_iteration (synthesized : method.SynthesizedFor .iteration fields)
    : (method.call p #[v]).Quiet h limited := by
  obtain ⟨pool, called⟩ := synthesized.call_eq nofun p (by rfl : (#[v]).size = 1)
  rw [called, Template.evaluate_iteration]
  exact quiet_fieldTuple v fields

end Method.SynthesizedFor

end Calls

-----------------------------------------------------------------------------------------
-- How many levels it takes
-----------------------------------------------------------------------------------------

/-- How many levels equality and hashing take of a value inside which values are nested `depth`
deep. A record takes one more, for the tuple of its fields.
-/
def Value.levels (depth : Nat) : Value → Nat
  | .record _ => 2 * depth + 2
  | _ => 2 * depth + 1

/-- So many levels are enough for equality and hashing of the value. -/
def Heap.LevelsSuffice (h : Heap) (n : Nat) (v : Value) : Prop :=
  ∃ depth, h.NestedWithin depth v ∧ v.levels depth ≤ n

section Levels

variable {h : Heap} {n depth : Nat} {v w : Value}

theorem Value.levels_le (depth : Nat) (v : Value) : v.levels depth ≤ 2 * depth + 2 := by
  unfold levels
  split <;> omega

theorem Value.le_levels (depth : Nat) (v : Value) : 2 * depth + 1 ≤ v.levels depth := by
  unfold levels
  split <;> omega

namespace Heap

theorem not_levelsSuffice_zero : ¬ h.LevelsSuffice 0 v := by
  rintro ⟨depth, -, enough⟩
  have least := v.le_levels depth
  omega

/-- One level less is enough for what is inside. -/
theorem LevelsSuffice.inside {u : Value} (suffice : h.LevelsSuffice (n + 1) v)
    (inside : h.Inside u v)
    : h.LevelsSuffice n u := by
  obtain ⟨depth, nested, enough⟩ := suffice
  obtain ⟨less, rfl, deeper⟩ := nested.inside inside
  have least := v.le_levels (less + 1)
  have most := u.levels_le less
  exact ⟨less, deeper, by omega⟩

/-- One level less is enough for a tuple of the fields of a record. -/
theorem LevelsSuffice.tuple {id : RecordId} {t : Value}
    (suffice : h.LevelsSuffice (n + 1) (.record id)) (isTuple : h.TupleOf t (.record id))
    : h.LevelsSuffice n t := by
  obtain ⟨depth, nested, enough⟩ := suffice
  obtain ⟨address, items, rfl, within⟩ := isTuple
  refine ⟨depth, ?_, Nat.le_of_succ_le_succ enough⟩
  cases depth with
  | zero =>
      rintro u ⟨_, member⟩
      exact nested u (within u member)
  | succ depth =>
      rintro u ⟨_, member⟩
      exact nested u (within u member)

end Heap

variable (synthesized : h.FindsSynthesized)

include synthesized

namespace Protocol

/-- One level more than values are nested deep answers displays, by induction on the levels. -/
theorem quiet_display_level [Natives] (nested : h.NestedWithin depth v) (enough : depth < n)
    : ((level n).display v).Quiet h False := by
  induction n generalizing depth v with
  | zero => exact absurd enough (Nat.not_lt_zero depth)
  | succ n ih =>
      have inside (u : Value) (isInside : h.Inside u v) : ((level n).display u).Quiet h False := by
        obtain ⟨less, rfl, deeper⟩ := nested.inside isInside
        exact ih deeper (Nat.lt_of_succ_lt_succ enough)
      refine quiet_displayLayer inside ?_
      rintro id method rfl found
      obtain ⟨fields, isSynthesized⟩ := synthesized id .display method found
      exact isSynthesized.quiet_display inside

/-- Comparing is answered if equality of what is inside one of the values is. -/
theorem quiet_compare_level [Natives]
    (equals
      : ∀ a b, h.LevelsSuffice n a ∨ h.LevelsSuffice n b → ((level n).equals a b).Quiet h False)
    (suffice : h.LevelsSuffice (n + 1) v ∨ h.LevelsSuffice (n + 1) w)
    : ((level n).compare v w).Quiet h False := by
  refine quiet_compare ?_ ?_
  · intro a b inLeft inRight
    exact equals a b (suffice.imp (·.inside inLeft) (·.inside inRight))
  · rintro id method rfl found
    obtain ⟨fields, isSynthesized⟩ := synthesized id .equality method found
    refine isSynthesized.quiet_equality found ?_
    rintro other a b rfl isMine isTheirs
    exact equals a b (suffice.imp (·.tuple isMine) (·.tuple isTheirs))

/-- Levels that are enough for one of the values answer whether they are equal, by induction on the
levels. For each pair inside, they are enough for the one that comes from that value.
-/
theorem quiet_equals_level [Natives] (suffice : h.LevelsSuffice n v ∨ h.LevelsSuffice n w)
    : ((level n).equals v w).Quiet h False := by
  induction n generalizing v w with
  | zero => rcases suffice with none | none <;> exact absurd none Heap.not_levelsSuffice_zero
  | succ n ih =>
      exact quiet_equalsLayer
        (quiet_compare_level synthesized (fun _ _ => ih) suffice)
        (quiet_compare_level synthesized (fun _ _ => ih) suffice.symm)

/-- Levels that are enough for a value answer what its hash is, by induction on the levels. -/
theorem quiet_hash_level [Natives] (suffice : h.LevelsSuffice n v)
    : ((level n).hash v).Quiet h False := by
  induction n generalizing v with
  | zero => exact absurd suffice Heap.not_levelsSuffice_zero
  | succ n ih =>
      refine quiet_hashLayer (fun u inside => ih (suffice.inside inside)) ?_
      rintro id method rfl found
      obtain ⟨fields, isSynthesized⟩ := synthesized id .hashing method found
      exact isSynthesized.quiet_hashing fun t isTuple => ih (suffice.tuple isTuple)

theorem quiet_iterate_level [Natives] (v : Value) (n : Nat)
    : ((level n).iterate v).Quiet h False := by
  refine quiet_iterate ?_
  rintro id method rfl found
  obtain ⟨fields, isSynthesized⟩ := synthesized id .iteration method found
  exact isSynthesized.quiet_iteration

end Protocol

end Levels

-----------------------------------------------------------------------------------------
-- Answers
-----------------------------------------------------------------------------------------

/-- From `n` levels on, the evaluation gives one and the same value or error. -/
def Ends [Natives] {α : Type} (x : Protocol → Eval α) (h : Heap) (n : Nat) : Prop :=
  ∃ (result : Except EvalError α) (h' : Heap),
    ∀ m, n ≤ m → (x (.level m)).outcome h = (result.mapError .error, h')

/-- What does not run out of levels gives a value or an error. -/
theorem exists_mapError_of_ne_exhausted {α : Type} {result : Except Halt α}
    (answered : result ≠ .error .exhausted)
    : ∃ given : Except EvalError α, result = given.mapError .error := by
  rcases result with (e | _) | a
  · exact ⟨.error e, rfl⟩
  · exact absurd rfl answered
  · exact ⟨.ok a, rfl⟩

/-- What is answered with some number of levels is answered so with more. -/
theorem ends_of_quiet [Natives] [MonotoneNatives] {α : Type} {x : Protocol → Eval α} {h : Heap}
    {n : Nat} (monotone : Monotone x) (quiet : (x (.level n)).Quiet h False)
    : Ends x h n := by
  obtain ⟨-, answered⟩ := quiet h (.refl h)
  obtain ⟨result, isResult⟩ := exists_mapError_of_ne_exhausted answered
  refine ⟨result, ((x (.level n)).outcome h).2, fun m le => ?_⟩
  rw [monotone (Protocol.level_refines le) h answered, ← isResult]

theorem Protocol.monotone_iterate (v : Value) : Monotone fun p => p.iterate v := by
  intro p q refines
  cases v with
  | record id =>
      refine .after _ fun found => ?_
      cases found with
      | none => exact .refl _
      | some method => exact (method.refines_call refines _).bind fun _ => .refl _
  | _ => exact .refl _

/-- Let the behaviors that records find be synthesized, as far as there are any, and let no cycle be
reached from a value. Then values are nested inside it to some depth, and reading it ends. Of a
value with no more than that depth, displays take one level more than the depth, and equality and
hashing two levels for each of the depth and two more, whatever value it is compared with and on
which side it stands; going through it takes none.
-/
theorem reading_ends [Natives] [MonotoneNatives] {h : Heap} {v : Value}
    (synthesized : h.FindsSynthesized) (acyclic : h.AcyclicFrom v)
    : (∃ depth, h.NestedWithin depth v)
      ∧ ∀ depth, h.NestedWithin depth v →
        Ends (·.display v) h (depth + 1)
        ∧ Ends (·.hash v) h (2 * depth + 2)
        ∧ Ends (·.iterate v) h 0
        ∧ ∀ w,
          Ends (·.equals v w) h (2 * depth + 2)
          ∧ Ends (·.equals w v) h (2 * depth + 2)
          ∧ Ends (·.compare v w) h (2 * depth + 1)
          ∧ Ends (·.compare w v) h (2 * depth + 1) := by
  refine ⟨Heap.acyclicFrom_iff.mp acyclic, ?_⟩
  intro depth nested
  have suffice : h.LevelsSuffice (2 * depth + 2) v := ⟨depth, nested, v.levels_le depth⟩
  have compares {a b : Value}
      (either : h.LevelsSuffice (2 * depth + 2) a ∨ h.LevelsSuffice (2 * depth + 2) b)
      : Ends (·.compare a b) h (2 * depth + 1) := by
    refine ends_of_quiet (fun _ _ refines => Protocol.refines_compare refines a b) ?_
    refine Protocol.quiet_compare_level synthesized ?_ either
    exact fun _ _ => Protocol.quiet_equals_level synthesized
  have equates {a b : Value}
      (either : h.LevelsSuffice (2 * depth + 2) a ∨ h.LevelsSuffice (2 * depth + 2) b)
      : Ends (·.equals a b) h (2 * depth + 2) :=
    ends_of_quiet (fun _ _ refines => refines.equals a b)
      (Protocol.quiet_equals_level synthesized either)
  refine ⟨?_, ?_, ?_, ?_⟩
  · exact ends_of_quiet (fun _ _ refines => refines.display v)
      (Protocol.quiet_display_level synthesized nested (Nat.lt_succ_self depth))
  · exact ends_of_quiet (fun _ _ refines => refines.hash v)
      (Protocol.quiet_hash_level synthesized suffice)
  · exact ends_of_quiet (Protocol.monotone_iterate v)
      (Protocol.quiet_iterate_level synthesized v 0)
  · intro w
    exact ⟨equates (.inl suffice), equates (.inr suffice), compares (.inl suffice),
      compares (.inr suffice)⟩

section LinkedRecords

open Natives

/-- A chain of records, each of which holds the one before it. -/
def linkedRecords (count : Nat) : Heap where
  types := equippedTypes ["next"]
  records := Array.ofFn fun i : Fin count =>
    ⟨⟨0⟩, (∅ : Std.HashMap String Value).insert "next"
      (if i.val = 0 then .none else .record ⟨i.val - 1⟩)⟩
  nextOffset := 0

/-- A record of the chain holds nothing or the one before it. -/
theorem getAttr?_linkedRecords {count i : Nat} {name : String} {v : Value}
    (found : (linkedRecords count).getAttr? ⟨i⟩ name = some v)
    : v = .none ∨ ∃ j < i, v = .record ⟨j⟩ := by
  obtain ⟨record, isRecord, isAttr⟩ := Option.bind_eq_some_iff.mp found
  simp only [linkedRecords, Array.getElem?_ofFn] at isRecord
  split at isRecord
  · cases isRecord
    rw [Std.HashMap.getElem?_insert] at isAttr
    split at isAttr
    · cases isAttr
      split
      · exact .inl rfl
      · next positive => exact .inr ⟨i - 1, by omega, rfl⟩
    · simp at isAttr
  · cases isRecord

/-- Records of the chain are nested as deep as there are records before them. -/
theorem nestedWithin_linkedRecords (count i : Nat)
    : (linkedRecords count).NestedWithin (i + 1) (.record ⟨i⟩) := by
  induction i using Nat.strongRecOn with | _ i ih
  rintro u ⟨⟩
  next found =>
  rcases getAttr?_linkedRecords found with rfl | ⟨j, before, rfl⟩
  · have empty : (linkedRecords count).NestedWithin 0 .none := nofun
    exact empty.mono (Nat.zero_le i)
  · exact (ih j before).mono before

theorem findsSynthesized_linkedRecords (count : Nat) : (linkedRecords count).FindsSynthesized := by
  refine findsSynthesized_of_equippedTypes (by decide : ["next"].Nodup) (by decide) rfl ?_
  intro record member
  obtain ⟨i, rfl⟩ := Array.mem_ofFn.mp member
  exact .inl rfl

/-- Witness: the last record of a chain of two thousand. -/
theorem reading_ends_linkedRecords
    : Ends (·.display (.record ⟨1999⟩)) (linkedRecords 2000) 2001
      ∧ Ends (·.hash (.record ⟨1999⟩)) (linkedRecords 2000) 4002
      ∧ Ends (·.equals (.record ⟨1999⟩) (.record ⟨1999⟩)) (linkedRecords 2000) 4002 := by
  have synthesized := findsSynthesized_linkedRecords 2000
  have nested := nestedWithin_linkedRecords 2000 1999
  obtain ⟨-, ends⟩ := reading_ends synthesized (Heap.acyclicFrom_iff.mpr ⟨_, nested⟩)
  obtain ⟨display, hash, -, compared⟩ := ends 2000 nested
  exact ⟨display, hash, (compared (.record ⟨1999⟩)).1⟩

end LinkedRecords

end RecordSynth
