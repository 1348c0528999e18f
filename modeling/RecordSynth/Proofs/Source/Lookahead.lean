import RecordSynth.Proofs.Source.Completion
import RecordSynth.Proofs.Source.Ways

/-! How far reading looks. What reading comes to is settled by the tokens that it takes and the one
token behind them, and reading that fails takes nothing that could not be continued. Each combinator
of ways keeps this, so what is left for a function is what can stand where it goes on.
-/

namespace RecordSynth.Source.Reader

-----------------------------------------------------------------------------------------
-- What settles an outcome
-----------------------------------------------------------------------------------------

section Heads

variable {ts ts' rest rest' : List PlacedToken}

theorem head?_append_congr (taken : List PlacedToken) (same : rest'.head? = rest.head?)
    : (taken ++ rest').head? = (taken ++ rest).head? := by
  cases taken with
  | nil => exact same
  | cons t _ => rfl

theorem startRange_congr (same : ts'.head? = ts.head?) (stop : ByteRange)
    : startRange stop ts' = startRange stop ts := by
  cases ts' with
  | nil =>
      rw [List.head?_eq_none_iff.mp same.symm]
  | cons t' _ =>
      obtain ⟨_, rfl⟩ := List.head?_eq_some_iff.mp same.symm
      rfl

end Heads

/-- Behind the tokens taken, nothing counts but the first of those that remain: whatever follows
it, the outcome is `result` of it.
-/
def Settles {α : Type} (reads : Way α) (taken rest : List PlacedToken)
    (result : List PlacedToken → Outcome α) : Prop :=
  ∀ rest' o, rest'.head? = rest.head? → reads (taken ++ rest') o → o = result rest'

/-- An outcome of reading behind the tokens `before`. A phrase is settled by the tokens taken for it
and the next one, and so is the fault of an unexpected token; what was taken up to there can be
continued. An assignment with another target than an attribute is found where a statement can stand.
-/
inductive Traced {α : Type} (stop : ByteRange) (reads : Way α) (before ts : List PlacedToken)
    : Outcome α → Prop
  | read {a : α} {taken rest : List PlacedToken} (whole : ts = taken ++ rest)
    (settled : Settles reads taken rest fun rest' => .ok (a, rest'))
    : Traced stop reads before ts (.ok (a, rest))
  | unexpected {expected : Expected} {taken rest : List PlacedToken} (whole : ts = taken ++ rest)
    (completable : Completable ((before ++ taken).map PlacedToken.token))
    (settled : Settles reads taken rest fun rest' =>
      .error (Reader.unexpected stop expected rest'))
    : Traced stop reads before ts (.error (Reader.unexpected stop expected rest))
  | target {x : Expr} {front us rest : List PlacedToken} {t : PlacedToken}
    (whole : before ++ ts = front ++ (us ++ t :: rest)) (admits : Admits front (spellings .stmt))
    (formed : Forms us (.expr x)) (notAttr : ∀ range object field, x ≠ .attr range object field)
    (isAssign : t.token = .mark .assign)
    : Traced stop reads before ts (.error ⟨.assignmentTarget, x.range⟩)

/-- All outcomes of reading are traced. -/
def Traces {α : Type} (stop : ByteRange) (reads : Way α) (before ts : List PlacedToken) : Prop :=
  ∀ o, reads ts o → Traced stop reads before ts o

section Composition

variable {α β : Type} {stop : ByteRange} {reads reads' : Way α} {next : α → Way β}
variable {before us ts rest : List PlacedToken} {t : PlacedToken}

/-- What is traced behind more tokens is traced from the first of them on, if what settles it there
settles it from there on.
-/
theorem Traced.extend {o : Outcome α} (traced : Traced stop reads (before ++ us) rest o)
    (isWhole : ts = us ++ rest)
    (settles : ∀ taken left result, rest = taken ++ left → Settles reads taken left result →
      Settles reads' (us ++ taken) left result)
    : Traced stop reads' before ts o := by
  subst isWhole
  cases traced with
  | @read a taken left split settled =>
      refine .read ?_ (settles taken left _ split settled)
      rw [split, List.append_assoc]
  | @unexpected expected taken left split completable settled =>
      refine .unexpected ?_ ?_ (settles taken left _ split settled)
      · rw [split, List.append_assoc]
      · rw [← List.append_assoc]
        exact completable
  | target whole admits formed notAttr isAssign =>
      rw [List.append_assoc] at whole
      exact .target whole admits formed notAttr isAssign

/-- The tokens taken for a phrase settle it. -/
theorem Traced.settles {a : α} (traced : Traced stop reads before ts (.ok (a, rest)))
    (isWhole : ts = us ++ rest)
    : Settles reads us rest fun rest' => .ok (a, rest') := by
  cases traced with
  | read whole settled =>
      obtain rfl := List.append_cancel_right (isWhole.symm.trans whole)
      exact settled

/-- A fault of the first of two ways of reading is one of both. -/
theorem Traced.fails {fault : Fault} (traced : Traced stop reads before ts (.error fault))
    : Traced stop (reads.andThen next) before ts (.error fault) := by
  cases traced with
  | unexpected whole completable settled =>
      refine .unexpected whole completable ?_
      rintro rest' o same (⟨a, left, given, -⟩ | ⟨fault, given, rfl⟩)
      · cases settled _ _ same given
      · cases settled _ _ same given
        rfl
  | target whole admits formed notAttr isAssign =>
      exact .target whole admits formed notAttr isAssign

/-- What settles the second of two ways of reading settles both, behind what settles the first. -/
theorem Settles.andThen {a : α} {taken left : List PlacedToken}
    {result : List PlacedToken → Outcome β}
    (first : Settles reads us (taken ++ left) fun rest' => .ok (a, rest'))
    (second : Settles (next a) taken left result)
    : Settles (reads.andThen next) (us ++ taken) left result := by
  intro rest' o same both
  rw [List.append_assoc] at both
  have sameNext := head?_append_congr taken same
  rcases both with ⟨a', left', given, givenNext⟩ | ⟨fault, given, -⟩
  · cases first _ _ sameNext given
    exact second rest' o same givenNext
  · cases first _ _ sameNext given

/-- To give a phrase at once takes no token. -/
theorem traces_done (a : α) : Traces stop (Way.done a) before ts := by
  rintro _ rfl
  exact .read (List.nil_append ts).symm fun _ _ _ given => given

/-- Where nothing fits, the fault is that of the next token. -/
theorem traces_unexpected (expected : Expected)
    (completable : Completable (before.map PlacedToken.token))
    : Traces stop (Way.unexpected stop expected : Way α) before ts := by
  rintro _ rfl
  refine .unexpected (List.nil_append ts).symm ?_ fun _ _ _ given => given
  rw [List.append_nil]
  exact completable

/-- Another way of reading is traced if it agrees where the same token comes next. -/
theorem Traces.congr (h : Traces stop reads before ts)
    (agrees : ∀ ts' o, ts'.head? = ts.head? → reads' ts' o → reads ts' o)
    : Traces stop reads' before ts := by
  intro o given
  have traced := h o (agrees ts o rfl given)
  rw [← List.append_nil before] at traced
  refine traced.extend (List.nil_append ts).symm ?_
  intro taken left result split settled rest' o same given
  exact settled rest' o same (agrees _ o (split ▸ head?_append_congr taken same) given)

/-- Less is traced if more is. -/
theorem Traces.mono (h : Traces stop reads before ts) (le : reads' ≤ reads)
    : Traces stop reads' before ts :=
  h.congr fun ts' o _ => le ts' o

/-- Where a phrase starts is settled by the next token. -/
theorem traces_fromStart {reads : ByteRange → Way α}
    (h : Traces stop (reads (startRange stop ts)) before ts)
    : Traces stop (Way.fromStart stop reads) before ts := by
  refine h.congr ?_
  intro ts' o same given
  rwa [← startRange_congr same]

/-- Whether a token is left is settled by the next token. -/
theorem traces_ifNil {none some : Way α} (noneTraced : ts = [] → Traces stop none before ts)
    (someTraced : ts ≠ [] → Traces stop some before ts)
    : Traces stop (Way.ifNil none some) before ts := by
  cases ts with
  | nil =>
      refine (noneTraced rfl).congr ?_
      intro ts' o same given
      obtain rfl := List.head?_eq_none_iff.mp same
      exact given
  | cons t rest =>
      refine (someTraced (List.cons_ne_nil t rest)).congr ?_
      intro ts' o same given
      obtain ⟨rest', rfl⟩ := List.head?_eq_some_iff.mp same
      exact given

/-- What is read behind a first token is traced if it is behind that token. -/
theorem Traces.after (h : Traces stop reads (before ++ [t]) rest)
    (agrees : ∀ rest' o, rest'.head? = rest.head? → reads' (t :: rest') o → reads rest' o)
    : Traces stop reads' before (t :: rest) := by
  intro o given
  refine (h o (agrees rest o rfl given)).extend rfl ?_
  intro taken left result split settled rest' o same given
  exact settled rest' o same (agrees _ o (split ▸ head?_append_congr taken same) given)

/-- A choice by the next token is traced if both ways to go on are. It is settled by that token, or
by the end of the text.
-/
theorem traces_choose {take : (ts : List PlacedToken) → Option (β × Rest ts.length)}
    {f : PlacedToken → Option β} {yes : β → Way α} {no : Way α} (noneLeft : take [] = none)
    (agrees : ∀ t rest,
      take (t :: rest) = (f t).map fun b => (b, ⟨rest, Nat.lt_succ_self rest.length⟩))
    (yesTraced : ∀ t rest b, ts = t :: rest → f t = some b →
      Traces stop (yes b) (before ++ [t]) rest)
    (noTraced : Traces stop no before ts)
    : Traces stop (Way.choose take yes no) before ts := by
  cases ts with
  | nil =>
      refine noTraced.congr fun ts' o same given => ?_
      obtain rfl := List.head?_eq_none_iff.mp same
      rwa [Way.choose, noneLeft] at given
  | cons t rest =>
      cases accepted : f t with
      | none =>
          refine noTraced.congr fun ts' o same given => ?_
          obtain ⟨rest', rfl⟩ := List.head?_eq_some_iff.mp same
          rwa [Way.choose, agrees, accepted] at given
      | some b =>
          refine (yesTraced t rest b rfl accepted).after fun rest' o _ given => ?_
          rwa [Way.choose, agrees, accepted] at given

theorem traces_choose_take? {token : Token} {yes : ByteRange → Way α} {no : Way α}
    (yesTraced : ∀ t rest, ts = t :: rest → t.token = token →
      Traces stop (yes t.range) (before ++ [t]) rest)
    (noTraced : Traces stop no before ts)
    : Traces stop (Way.choose (take? token) yes no) before ts := by
  refine @traces_choose _ _ _ _ _ _ (fun t => if t.token = token then some t.range else none)
    yes no rfl ?_ ?_ noTraced
  · intro t rest
    rw [take?]
    split <;> rfl
  · intro t rest range isWhole accepted
    obtain ⟨same, isRange⟩ := Option.ite_none_right_eq_some.mp accepted
    exact Option.some.inj isRange ▸ yesTraced t rest isWhole same

theorem traces_choose_takeIf? {f : Token → Option β} {yes : β × ByteRange → Way α} {no : Way α}
    (yesTraced : ∀ t rest b, ts = t :: rest → f t.token = some b →
      Traces stop (yes (b, t.range)) (before ++ [t]) rest)
    (noTraced : Traces stop no before ts)
    : Traces stop (Way.choose (takeIf? f) yes no) before ts := by
  refine @traces_choose _ _ _ _ _ _ (fun t => (f t.token).map (·, t.range)) yes no rfl ?_ ?_
    noTraced
  · intro t rest
    rw [takeIf?]
    cases f t.token <;> rfl
  · intro t rest read isWhole accepted
    obtain ⟨b, isB, rfl⟩ := Option.map_eq_some_iff.mp accepted
    exact yesTraced t rest b isWhole isB

/-- Two ways of reading after each other are traced if each of them is. -/
theorem Traces.andThen {forms : α → List PlacedToken → Prop}
    (first : Traces stop reads before ts) (derived : reads.Derives ts forms)
    (second : ∀ a us rest, forms a us → ts = us ++ rest →
      Traces stop (next a) (before ++ us) rest)
    : Traces stop (reads.andThen next) before ts := by
  rintro o (⟨a, rest, given, givenNext⟩ | ⟨fault, given, rfl⟩)
  · obtain ⟨us, isWhole, formed⟩ := derived a rest given
    refine (second a us rest formed isWhole o givenNext).extend isWhole ?_
    rintro taken left result rfl settled
    exact ((first _ given).settles isWhole).andThen settled
  · exact (first _ given).fails

/-- What is given may be made of what was read. -/
theorem Traces.thenDone {forms : α → List PlacedToken → Prop} (h : Traces stop reads before ts)
    (derived : reads.Derives ts forms) (f : α → β)
    : Traces stop (reads.andThen fun a => Way.done (f a)) before ts :=
  h.andThen derived fun a _ _ _ _ => traces_done (f a)

end Composition

end RecordSynth.Source.Reader
