import RecordSynth.Proofs.Behavior.Display
import RecordSynth.Proofs.Source.Digits
import RecordSynth.Proofs.Text.Escaping

/-! Displays of plain data: of the values that are made of constants, truth values, integers, texts
and tuples of these. Each has one display, without a control character, and the display tells it
from every other one: read from the front, a display shows what it is of and where it ends.
-/

namespace RecordSynth

/-- Plain data, without the addresses at which its texts and tuples were made. -/
inductive Datum where
  | none
  | notApplicable
  | bool (b : Bool)
  | int (n : Int64)
  | str (text : String)
  | tuple (items : List Datum)
  deriving Inhabited

mutual

/-- The plain data that a value is, unless there is a float, a record or a type in it. -/
def Value.datum? : Value → Option Datum
  | .none => some .none
  | .notApplicable => some .notApplicable
  | .bool b => some (.bool b)
  | .int n => some (.int n)
  | .str _ text => some (.str text)
  | .tuple _ items => (Value.data? items).map .tuple
  | .float _ | .record _ | .type _ => Option.none

/-- The plain data that values are. -/
def Value.data? : List Value → Option (List Datum)
  | [] => some []
  | value :: rest => do
    let first ← value.datum?
    let others ← Value.data? rest
    return first :: others

end

mutual

/-- The display of plain data. -/
def Datum.text : Datum → String
  | .none => "None"
  | .notApplicable => "NotApplicable"
  | .bool true => "True"
  | .bool false => "False"
  | .int n => toString n.toInt
  | .str text => Text.display text
  | .tuple items => Protocol.tupleText (Datum.texts items)

/-- The displays of plain data, in order. -/
def Datum.texts : List Datum → List String
  | [] => []
  | d :: rest => d.text :: Datum.texts rest

end

-----------------------------------------------------------------------------------------
-- Displaying plain data
-----------------------------------------------------------------------------------------

theorem monotone_display (value : Value) : Monotone fun p => p.display value :=
  fun _ _ refines => refines.display value

theorem monotone_displayAll (done : List String) (values : List Value)
    : Monotone fun p => p.displayAll done values :=
  fun _ _ refines => Protocol.refines_displayAll refines done values

section Displaying

variable [Natives] {h h' : Heap}

mutual

/-- Plain data is displayed as its text and changes nothing, by recursion on the value. -/
theorem Value.displays_text [MonotoneNatives] (value : Value) {d : Datum}
    (isDatum : value.datum? = some d) (h : Heap)
    : Displays h value (.ok d.text) h := by
  refine displays_iff_layer.mpr ?_
  cases value with
  | none | notApplicable | int n | str address text =>
      cases isDatum
      exact settles_pure.mpr ⟨rfl, rfl⟩
  | bool b =>
      cases isDatum
      cases b <;> exact settles_pure.mpr ⟨rfl, rfl⟩
  | tuple address items =>
      obtain ⟨ds, areData, rfl⟩ := Option.map_eq_some_iff.mp isDatum
      exact settles_map.mpr ⟨_, Value.displays_texts items areData [] h, rfl⟩
  | float x | record id | type ref => cases isDatum

theorem Value.displays_texts [MonotoneNatives] (values : List Value) {ds : List Datum}
    (areData : Value.data? values = some ds) (done : List String) (h : Heap)
    : Settles (fun p => p.displayAll done values) h (.ok (done.reverse ++ Datum.texts ds)) h := by
  cases values with
  | nil =>
      cases areData
      exact settles_pure.mpr ⟨by simp [Datum.texts], rfl⟩
  | cons value rest =>
      obtain ⟨d, isFirst, others⟩ := Option.bind_eq_some_iff.mp areData
      obtain ⟨ds, areOthers, isWhole⟩ := Option.bind_eq_some_iff.mp others
      cases isWhole
      have first := value.displays_text isFirst h
      have later := Value.displays_texts rest areOthers (d.text :: done) h
      rw [List.reverse_cons, List.append_assoc] at later
      exact (settles_bind (monotone_display value) (fun text => monotone_displayAll _ rest)).mpr
        (Or.inl ⟨d.text, h, first, later⟩)

end

/-- Plain data has no other display. -/
theorem Value.displays_iff [MonotoneNatives] {value : Value} {d : Datum}
    (isDatum : value.datum? = some d) {result : Except EvalError String}
    : Displays h value result h' ↔ result = .ok d.text ∧ h' = h := by
  constructor
  · intro displayed
    exact displayed.unique (value.displays_text isDatum h) (monotone_display value)
  · rintro ⟨rfl, rfl⟩
    exact value.displays_text isDatum h'

end Displaying

-----------------------------------------------------------------------------------------
-- What displays begin with, and where they end
-----------------------------------------------------------------------------------------

/-- What stands behind an item in the display of a tuple with several, given the displays of the
items behind it.
-/
def behindItem : List String → List Char
  | [] => [')']
  | text :: rest => ',' :: ' ' :: (text.toList ++ behindItem rest)

/-- What stands behind the first item in the display of a tuple: a comma even if it is alone. -/
def behindFirst : List String → List Char
  | [] => [',', ')']
  | text :: rest => behindItem (text :: rest)

/-- What stands in the display of a tuple behind the opening parenthesis. -/
def insideTuple : List String → List Char
  | [] => [')']
  | text :: rest => text.toList ++ behindFirst rest

theorem toList_intercalate_comma (text : String) (rest : List String)
    : (String.intercalate ", " (text :: rest)).toList ++ [')']
      = text.toList ++ behindItem rest := by
  rw [String.toList_intercalate]
  induction rest generalizing text with
  | nil => simp [behindItem]
  | cons next more ih =>
      rw [List.map_cons, List.intercalate_cons_of_ne_nil (by simp), behindItem, ← ih next]
      simp

theorem toList_tupleText (texts : List String)
    : (Protocol.tupleText texts).toList = '(' :: insideTuple texts := by
  match texts with
  | [] => rfl
  | [text] => simp [Protocol.tupleText, insideTuple, behindFirst]
  | text :: next :: more =>
      rw [insideTuple, behindFirst, ← toList_intercalate_comma]
      simp [Protocol.tupleText]

/-- What kind of datum a display is of, as its first character shows. -/
inductive Datum.Kind where
  | word (first : Char)
  | number
  | quoted
  | group

/-- What a display is of that begins with the character. -/
def Datum.Kind.ofFirst (c : Char) : Kind :=
  if c = '(' then .group
  else if c = '\'' ∨ c = '"' then .quoted
  else if c = '-' ∨ c.isDigit = true then .number
  else .word c

/-- The kind of a datum. -/
def Datum.kind : Datum → Kind
  | .none | .notApplicable => .word 'N'
  | .bool b => .word (if b then 'T' else 'F')
  | .int _ => .number
  | .str _ => .quoted
  | .tuple _ => .group

theorem toList_toString_ofNat (n : Nat)
    : (toString (Int.ofNat n)).toList = Nat.toDigits 10 n := by
  simp [toString, Int.repr, Nat.toList_repr]

theorem toList_toString_negSucc (n : Nat)
    : (toString (Int.negSucc n)).toList = '-' :: Nat.toDigits 10 (n + 1) := by
  simp [toString, Int.repr, Nat.toList_repr]

theorem toList_display (text : String)
    : (Text.display text).toList = Text.displayChars text.toList :=
  String.toList_ofList

theorem Datum.Kind.ofFirst_of_isDigit {c : Char} (digit : c.isDigit = true)
    : ofFirst c = .number := by
  unfold ofFirst
  split
  · next isOpening => exact absurd digit (by rw [isOpening]; decide)
  split
  · next isQuote =>
    rcases isQuote with rfl | rfl
    · cases digit
    · cases digit
  · exact if_pos (Or.inr digit)

/-- A display begins with a character of the datum's kind. -/
theorem Datum.text_begins (d : Datum)
    : ∃ c rest, d.text.toList = c :: rest ∧ Kind.ofFirst c = d.kind := by
  cases d with
  | none => exact ⟨_, _, rfl, rfl⟩
  | notApplicable => exact ⟨_, _, rfl, rfl⟩
  | bool b => cases b <;> exact ⟨_, _, rfl, rfl⟩
  | int n =>
      rw [Datum.text]
      cases n.toInt with
      | ofNat m =>
          have nonempty : Nat.toDigits 10 m ≠ [] := Nat.toDigits_ne_nil
          obtain ⟨c, rest, digits⟩ := List.exists_cons_of_ne_nil nonempty
          have digit : c.isDigit = true :=
            Nat.isDigit_of_mem_toDigits (by decide) (by decide) (digits ▸ List.mem_cons_self)
          exact ⟨c, rest, (toList_toString_ofNat m).trans digits,
            Kind.ofFirst_of_isDigit digit⟩
      | negSucc m => exact ⟨_, _, toList_toString_negSucc m, rfl⟩
  | str text =>
      refine ⟨_, _, toList_display text, ?_⟩
      rcases Text.isQuote_quoteFor text.toList with isQuote | isQuote <;> rw [isQuote] <;> rfl
  | tuple items =>
      exact ⟨_, _, toList_tupleText _, rfl⟩

-----------------------------------------------------------------------------------------
-- Displays tell data apart
-----------------------------------------------------------------------------------------

/-- The characters do not go on with a digit. -/
def EndsNumber (s : List Char) : Prop :=
  ∀ c ∈ s.head?, c.isDigit = false

theorem endsNumber_cons {c : Char} (noDigit : c.isDigit = false) (s : List Char)
    : EndsNumber (c :: s) := by
  rintro _ ⟨⟩
  exact noDigit

section Numbers

variable {s t : List Char}

theorem takeWhile_digits (n : Nat) (ends : EndsNumber s)
    : (Nat.toDigits 10 n ++ s).takeWhile Char.isDigit = Nat.toDigits 10 n := by
  have digits : ∀ c ∈ Nat.toDigits 10 n, c.isDigit = true :=
    fun c member => Nat.isDigit_of_mem_toDigits (by decide) (by decide) member
  have none : s.takeWhile Char.isDigit = [] := by
    cases s with
    | nil => rfl
    | cons c rest => exact List.takeWhile_cons_of_neg (by simp [ends c rfl])
  rw [List.takeWhile_append_of_pos digits, none, List.append_nil]

/-- Digits up to where no digit follows are those of one number. -/
theorem toDigits_cancel {m n : Nat} (sEnds : EndsNumber s) (tEnds : EndsNumber t)
    (same : Nat.toDigits 10 m ++ s = Nat.toDigits 10 n ++ t)
    : m = n ∧ s = t := by
  have digits := congrArg (List.takeWhile Char.isDigit) same
  rw [takeWhile_digits m sEnds, takeWhile_digits n tEnds] at digits
  exact ⟨Source.toDigits_injective digits, List.append_cancel_left (digits ▸ same)⟩

theorem toDigits_ne_minus (n : Nat) : Nat.toDigits 10 n ++ s ≠ '-' :: t := by
  intro same
  cases digits : Nat.toDigits 10 n with
  | nil => exact Nat.toDigits_ne_nil digits
  | cons c rest =>
      rw [digits] at same
      have digit : c.isDigit = true :=
        Nat.isDigit_of_mem_toDigits (by decide) (by decide) (digits ▸ List.mem_cons_self)
      rw [(List.cons.inj same).1] at digit
      cases digit

theorem toString_cancel {m n : Int} (sEnds : EndsNumber s) (tEnds : EndsNumber t)
    (same : (toString m).toList ++ s = (toString n).toList ++ t)
    : m = n ∧ s = t := by
  cases m with
  | ofNat m =>
      rw [toList_toString_ofNat] at same
      cases n with
      | ofNat n =>
          rw [toList_toString_ofNat] at same
          obtain ⟨rfl, rest⟩ := toDigits_cancel sEnds tEnds same
          exact ⟨rfl, rest⟩
      | negSucc n =>
          rw [toList_toString_negSucc] at same
          exact absurd same (toDigits_ne_minus m)
  | negSucc m =>
      rw [toList_toString_negSucc] at same
      cases n with
      | ofNat n =>
          rw [toList_toString_ofNat] at same
          exact absurd same.symm (toDigits_ne_minus n)
      | negSucc n =>
          rw [toList_toString_negSucc] at same
          obtain ⟨next, rest⟩ := toDigits_cancel sEnds tEnds (List.cons.inj same).2
          obtain rfl := Nat.succ.inj next
          exact ⟨rfl, rest⟩

end Numbers

/-- What stands behind an item does not go on with its number. -/
theorem endsNumber_behindItem (texts : List String) (s : List Char)
    : EndsNumber (behindItem texts ++ s) := by
  cases texts <;> exact endsNumber_cons rfl _

theorem endsNumber_behindFirst (texts : List String) (s : List Char)
    : EndsNumber (behindFirst texts ++ s) := by
  cases texts <;> exact endsNumber_cons rfl _

/-- Displays that begin alike are of one kind. -/
theorem Datum.kind_eq_of_text {d e : Datum} {s t : List Char}
    (same : d.text.toList ++ s = e.text.toList ++ t)
    : d.kind = e.kind := by
  obtain ⟨c, rest, isText, kind⟩ := d.text_begins
  obtain ⟨c', rest', isText', kind'⟩ := e.text_begins
  rw [isText, isText'] at same
  rw [← kind, ← kind', (List.cons.inj same).1]

/-- No display begins with a closing parenthesis. -/
theorem Datum.text_ne_closing (d : Datum) {s t : List Char}
    : d.text.toList ++ s ≠ ')' :: t := by
  intro same
  obtain ⟨c, rest, isText, kind⟩ := d.text_begins
  rw [isText] at same
  rw [(List.cons.inj same).1] at kind
  cases d with
  | bool b => cases b <;> cases kind
  | _ => cases kind

/-- A first item is followed as any item is, as far as the items tell. -/
theorem behindItem_of_behindFirst {xs ys : List String} {s t : List Char}
    (same : behindFirst xs ++ s = behindFirst ys ++ t)
    : behindItem xs ++ s = behindItem ys ++ t := by
  cases xs with
  | nil =>
      cases ys with
      | nil => exact (List.cons.inj same).2
      | cons y ys => cases (List.cons.inj (List.cons.inj same).2).1
  | cons x xs =>
      cases ys with
      | nil => cases (List.cons.inj (List.cons.inj same).2).1
      | cons y ys => exact same

mutual

/-- Displays that begin alike are of the same datum and end at the same place, by recursion on the
datum.
-/
theorem Datum.text_cancel (d e : Datum) {s t : List Char} (sEnds : EndsNumber s)
    (tEnds : EndsNumber t) (same : d.text.toList ++ s = e.text.toList ++ t)
    : d = e ∧ s = t := by
  have sameKind := Datum.kind_eq_of_text same
  cases d with
  | none =>
      cases e with
      | none => exact ⟨rfl, List.append_cancel_left same⟩
      | notApplicable => simp [Datum.text] at same
      | bool b => cases b <;> cases sameKind
      | _ => cases sameKind
  | notApplicable =>
      cases e with
      | none => simp [Datum.text] at same
      | notApplicable => exact ⟨rfl, List.append_cancel_left same⟩
      | bool b => cases b <;> cases sameKind
      | _ => cases sameKind
  | bool a =>
      cases e with
      | bool b =>
          have value : a = b := by
            cases a <;> cases b <;> first | rfl | cases sameKind
          subst value
          exact ⟨rfl, List.append_cancel_left same⟩
      | _ => cases a <;> cases sameKind
  | int m =>
      cases e with
      | int n =>
          obtain ⟨value, rest⟩ := toString_cancel sEnds tEnds same
          exact ⟨congrArg Datum.int (Int64.toInt_inj.mp value), rest⟩
      | _ => cases sameKind
  | str a =>
      cases e with
      | str b =>
          simp only [Datum.text, toList_display] at same
          obtain ⟨chars, rest⟩ := Text.displayChars_cancel same
          exact ⟨congrArg Datum.str (String.toList_inj.mp chars), rest⟩
      | _ => cases sameKind
  | tuple ds =>
      cases e with
      | tuple es =>
          simp only [Datum.text, toList_tupleText, List.cons_append] at same
          obtain ⟨items, rest⟩ := Datum.insideTuple_cancel ds es (List.cons.inj same).2
          exact ⟨congrArg Datum.tuple items, rest⟩
      | _ => cases sameKind

theorem Datum.insideTuple_cancel (ds es : List Datum) {s t : List Char}
    (same : insideTuple (Datum.texts ds) ++ s = insideTuple (Datum.texts es) ++ t)
    : ds = es ∧ s = t := by
  cases ds with
  | nil =>
      cases es with
      | nil => exact ⟨rfl, List.append_cancel_left same⟩
      | cons e es =>
          rw [Datum.texts, Datum.texts, insideTuple, insideTuple, List.append_assoc] at same
          exact absurd same.symm e.text_ne_closing
  | cons d ds =>
      rw [Datum.texts, insideTuple, List.append_assoc] at same
      cases es with
      | nil => exact absurd same d.text_ne_closing
      | cons e es =>
          rw [Datum.texts, insideTuple, List.append_assoc] at same
          obtain ⟨rfl, behind⟩ := Datum.text_cancel d e (endsNumber_behindFirst _ s)
            (endsNumber_behindFirst _ t) same
          obtain ⟨rfl, rest⟩ := Datum.behindItem_cancel ds es (behindItem_of_behindFirst behind)
          exact ⟨rfl, rest⟩

theorem Datum.behindItem_cancel (ds es : List Datum) {s t : List Char}
    (same : behindItem (Datum.texts ds) ++ s = behindItem (Datum.texts es) ++ t)
    : ds = es ∧ s = t := by
  cases ds with
  | nil =>
      cases es with
      | nil => exact ⟨rfl, List.append_cancel_left same⟩
      | cons e es => cases (List.cons.inj same).1
  | cons d ds =>
      cases es with
      | nil => cases (List.cons.inj same).1
      | cons e es =>
          simp only [Datum.texts, behindItem, List.cons_append, List.append_assoc,
            List.cons.injEq, true_and] at same
          obtain ⟨rfl, behind⟩ := Datum.text_cancel d e (endsNumber_behindItem _ s)
            (endsNumber_behindItem _ t) same
          obtain ⟨rfl, rest⟩ := Datum.behindItem_cancel ds es behind
          exact ⟨rfl, rest⟩

end

/-- Different plain data has different displays. -/
theorem Datum.text_injective : Function.Injective Datum.text := by
  intro d e same
  have ends : EndsNumber [] := nofun
  have chars : d.text.toList ++ [] = e.text.toList ++ [] := by rw [same]
  exact (Datum.text_cancel d e ends ends chars).1

-----------------------------------------------------------------------------------------
-- Displays have no control characters
-----------------------------------------------------------------------------------------

theorem isControl_of_isDigit {c : Char} (digit : c.isDigit = true)
    : Text.isControl c = false := by
  obtain ⟨atLeast, atMost⟩ := Char.isDigit_iff_toNat.mp digit
  have nine : '9'.toNat = 57 := rfl
  have zero : '0'.toNat = 48 := rfl
  simp only [Text.isControl, Bool.or_eq_false_iff, Bool.and_eq_false_iff, decide_eq_false_iff_not]
  omega

theorem isControl_of_mem_toString (n : Int)
    : ∀ c ∈ (toString n).toList, Text.isControl c = false := by
  have digits (m : Nat) : ∀ c ∈ Nat.toDigits 10 m, Text.isControl c = false :=
    fun c member => isControl_of_isDigit
      (Nat.isDigit_of_mem_toDigits (by decide) (by decide) member)
  cases n with
  | ofNat m =>
      rw [toList_toString_ofNat]
      exact digits m
  | negSucc m =>
      rw [toList_toString_negSucc]
      exact List.forall_mem_cons.mpr ⟨rfl, digits (m + 1)⟩

theorem isControl_of_mem_insideTuple {texts : List String}
    (plain : ∀ text ∈ texts, ∀ c ∈ text.toList, Text.isControl c = false)
    : ∀ c ∈ insideTuple texts, Text.isControl c = false := by
  have behind {texts : List String}
      (plain : ∀ text ∈ texts, ∀ c ∈ text.toList, Text.isControl c = false)
      : ∀ c ∈ behindItem texts, Text.isControl c = false := by
    induction texts with
    | nil => exact List.forall_mem_singleton.mpr rfl
    | cons text rest ih =>
        obtain ⟨first, others⟩ := List.forall_mem_cons.mp plain
        simp only [behindItem, List.forall_mem_cons, List.forall_mem_append]
        exact ⟨rfl, rfl, first, ih others⟩
  cases texts with
  | nil => exact List.forall_mem_singleton.mpr rfl
  | cons text rest =>
      obtain ⟨first, others⟩ := List.forall_mem_cons.mp plain
      refine List.forall_mem_append.mpr ⟨first, ?_⟩
      cases rest with
      | nil => exact List.forall_mem_cons.mpr ⟨rfl, List.forall_mem_singleton.mpr rfl⟩
      | cons next more => exact behind others

mutual

/-- The display of plain data has no control character, by recursion on the datum. -/
theorem Datum.isControl_of_mem_text (d : Datum)
    : ∀ c ∈ d.text.toList, Text.isControl c = false := by
  have constant {text : String} (plain : text.toList.any Text.isControl = false)
      : ∀ c ∈ text.toList, Text.isControl c = false :=
    fun c member => Bool.eq_false_iff.mpr (List.any_eq_false.mp plain c member)
  cases d with
  | none | notApplicable => exact constant rfl
  | bool b => cases b <;> exact constant rfl
  | int n => exact isControl_of_mem_toString n.toInt
  | str text =>
      intro c member
      rw [Datum.text, toList_display] at member
      exact Text.isControl_of_mem_displayChars member
  | tuple items =>
      rw [Datum.text, toList_tupleText]
      exact List.forall_mem_cons.mpr
        ⟨rfl, isControl_of_mem_insideTuple (Datum.isControl_of_mem_texts items)⟩

theorem Datum.isControl_of_mem_texts (ds : List Datum)
    : ∀ text ∈ Datum.texts ds, ∀ c ∈ text.toList, Text.isControl c = false := by
  cases ds with
  | nil => nofun
  | cons d rest =>
      exact List.forall_mem_cons.mpr
        ⟨d.isControl_of_mem_text, Datum.isControl_of_mem_texts rest⟩

end

-----------------------------------------------------------------------------------------
-- Displays of plain values
-----------------------------------------------------------------------------------------

/-- Displays of plain values are unambiguous. Values that are plain data have one display each, in
any heap and without changing it; the displays are the same text exactly if the values are the same
data; and no character of a display is a control character.
-/
theorem displays_plain_iff [Natives] [MonotoneNatives] {a b : Value} {d e : Datum}
    (aPlain : a.datum? = some d) (bPlain : b.datum? = some e)
    : ∃ s t : String,
        (∀ h result h', Displays h a result h' ↔ result = .ok s ∧ h' = h)
        ∧ (∀ h result h', Displays h b result h' ↔ result = .ok t ∧ h' = h)
        ∧ (s = t ↔ d = e)
        ∧ ∀ c ∈ s.toList ++ t.toList, Text.isControl c = false := by
  refine ⟨d.text, e.text, fun _ _ _ => Value.displays_iff aPlain,
    fun _ _ _ => Value.displays_iff bPlain, Datum.text_injective.eq_iff, ?_⟩
  exact List.forall_mem_append.mpr ⟨d.isControl_of_mem_text, e.isControl_of_mem_text⟩

section Separator

open Natives

/-- Witness: a text that reads like the inside of a tuple, and the tuple that it reads like. -/
theorem displays_plain_iff_separator
    : let one := Value.tuple ⟨0, 0⟩ [.str ⟨0, 1⟩ "a', 'b"]
      let two := Value.tuple ⟨0, 0⟩ [.str ⟨0, 1⟩ "a", .str ⟨0, 2⟩ "b"]
      one.datum? = some (.tuple [.str "a', 'b"])
      ∧ two.datum? = some (.tuple [.str "a", .str "b"])
      ∧ ∃ s t : String,
        (∀ h result h', Displays h one result h' ↔ result = .ok s ∧ h' = h)
        ∧ (∀ h result h', Displays h two result h' ↔ result = .ok t ∧ h' = h)
        ∧ s ≠ t := by
  obtain ⟨s, t, first, second, same, -⟩ := @displays_plain_iff _ _
    (.tuple ⟨0, 0⟩ [.str ⟨0, 1⟩ "a', 'b"]) (.tuple ⟨0, 0⟩ [.str ⟨0, 1⟩ "a", .str ⟨0, 2⟩ "b"])
    (.tuple [.str "a', 'b"]) (.tuple [.str "a", .str "b"]) rfl rfl
  have different : Datum.tuple [.str "a', 'b"] ≠ .tuple [.str "a", .str "b"] := by
    simp
  exact ⟨rfl, rfl, s, t, first, second, fun sameText => different (same.mp sameText)⟩

end Separator

end RecordSynth
