import RecordSynth.Proofs.Program.FirstUse
import RecordSynth.Symbol

/-! Interning of texts. A table grows at the ends of its shards only, so a number that a text once
has stays its number, and a symbol, which has the shard and the number in one word, stands for one
text at any time.
-/

namespace RecordSynth.SymbolTable

/-- The table after requests for texts, one after the other, failed ones included. -/
def after (t : SymbolTable) (texts : List String) : SymbolTable :=
  texts.foldl (fun t text => (t.request text).2) t

/-- What the request for a text gives after earlier requests. -/
def answer (earlier : List String) (text : String) : Except ShardFull Symbol :=
  ((initial.after earlier).request text).1

/-- Each text of the first table has the same number in the second one. -/
def Grows (t t' : SymbolTable) : Prop :=
  ∀ shard, (t.textsOf shard).toList <+: (t'.textsOf shard).toList

/-- The text has the number, in the shard that its bytes decide. -/
def Has (t : SymbolTable) (text : String) (number : Nat) : Prop :=
  (t.textsOf (shardOf text)).toList[number]? = some text

/-- The text has no number, and there is none left for it. -/
def Refuses (t : SymbolTable) (text : String) : Prop :=
  text ∉ (t.textsOf (shardOf text)).toList
  ∧ Symbol.maxNumber < (t.textsOf (shardOf text)).size

/-- What is true of every table: the empty text is the first one of the first shard, and the numbers
of each shard fit into a symbol.
-/
structure Numbered (t : SymbolTable) : Prop where
  empty : t.Has "" 0
  fits : ∀ shard, (t.textsOf shard).size ≤ Symbol.maxNumber + 1

variable {t t' : SymbolTable} {text : String} {number : Nat} {symbol : Symbol}

-----------------------------------------------------------------------------------------
-- One request
-----------------------------------------------------------------------------------------

theorem position?_eq_some_iff_has
    : (t.textsOf (shardOf text)).position? text = some number ↔ t.Has text number := by
  rw [Roster.position?_eq_some_iff, Roster.keys_id]
  rfl

/-- A text that has a number is given that number again, and nothing changes. -/
theorem Has.request (has : t.Has text number)
    : t.request text = (.ok (.ofParts (shardOf text) number), t) := by
  have found := position?_eq_some_iff_has.mpr has
  rw [SymbolTable.request]
  split
  · next again foundAgain =>
    rw [found] at foundAgain
    rw [Option.some.inj foundAgain]
  · next fresh =>
    rw [found] at fresh
    cases fresh

/-- A new text gets the next number of its shard, if there is one left. -/
theorem request_of_room (absent : text ∉ (t.textsOf (shardOf text)).toList)
    (room : (t.textsOf (shardOf text)).size ≤ Symbol.maxNumber)
    : ∃ t', t.request text = (.ok (.ofParts (shardOf text) (t.textsOf (shardOf text)).size), t')
        ∧ ∀ shard, (t'.textsOf shard).toList
            = (t.textsOf shard).toList ++ if shardOf text = shard then [text] else [] := by
  have fresh := Roster.position?_eq_none_iff_not_mem.mpr absent
  refine ⟨t.setTexts (shardOf text) ((t.textsOf (shardOf text)).push text fresh), ?_, ?_⟩
  · rw [request]
    split
    · next found =>
      rw [fresh] at found
      cases found
    · rw [if_pos room]
  · intro shard
    rw [textsOf_setTexts]
    split
    · next same => rw [Roster.toList_push, same]
    · rw [List.append_nil]

theorem Refuses.request (refuses : t.Refuses text)
    : t.request text = (.error ⟨shardOf text, (t.textsOf (shardOf text)).size⟩, t) := by
  have fresh := Roster.position?_eq_none_iff_not_mem.mpr refuses.1
  rw [SymbolTable.request]
  split
  · next found =>
    rw [fresh] at found
    cases found
  · rw [if_neg (Nat.not_le_of_lt refuses.2)]

/-- All that a request can do: the text has a number already, or it comes to the end of its shard,
or there is nothing to be done for it.
-/
theorem request_cases (t : SymbolTable) (text : String)
    : (∃ number, t.Has text number
        ∧ t.request text = (.ok (.ofParts (shardOf text) number), t))
      ∨ ((t.textsOf (shardOf text)).size ≤ Symbol.maxNumber
        ∧ ∃ t', t.request text
            = (.ok (.ofParts (shardOf text) (t.textsOf (shardOf text)).size), t')
          ∧ ∀ shard, (t'.textsOf shard).toList
              = (t.textsOf shard).toList ++ if shardOf text = shard then [text] else [])
      ∨ (t.Refuses text
        ∧ t.request text = (.error ⟨shardOf text, (t.textsOf (shardOf text)).size⟩, t)) := by
  by_cases present : text ∈ (t.textsOf (shardOf text)).toList
  · obtain ⟨number, has⟩ := List.mem_iff_getElem?.mp present
    exact Or.inl ⟨number, has, Has.request has⟩
  · by_cases room : (t.textsOf (shardOf text)).size ≤ Symbol.maxNumber
    · exact Or.inr (Or.inl ⟨room, request_of_room present room⟩)
    · have refuses : t.Refuses text := ⟨present, Nat.lt_of_not_le room⟩
      exact Or.inr (Or.inr ⟨refuses, refuses.request⟩)

theorem grows_request (t : SymbolTable) (text : String) : t.Grows (t.request text).2 := by
  intro shard
  rcases t.request_cases text with ⟨_, _, kept⟩ | ⟨_, t', entered, texts⟩ | ⟨_, refused⟩
  · rewrite [kept]
    exact List.prefix_refl _
  · rewrite [entered, texts]
    exact List.prefix_append _ _
  · rewrite [refused]
    exact List.prefix_refl _

/-- A request adds one text to a shard at most. -/
theorem size_request_le (t : SymbolTable) (text : String) (shard : Fin 16)
    : ((t.request text).2.textsOf shard).size ≤ (t.textsOf shard).size + 1 := by
  rcases t.request_cases text with ⟨_, _, kept⟩ | ⟨_, t', entered, texts⟩ | ⟨_, refused⟩
  · rw [kept]
    exact Nat.le_succ _
  · rw [entered, ← Roster.length_toList, texts, List.length_append]
    split
    · exact Nat.le_refl _
    · exact Nat.le_succ _
  · rw [refused]
    exact Nat.le_succ _

theorem Grows.has (grows : t.Grows t') (has : t.Has text number) : t'.Has text number := by
  obtain ⟨inShard, isText⟩ := List.getElem?_eq_some_iff.mp has
  rw [Has, List.prefix_iff_getElem?.mp (grows (shardOf text)) number inShard, isText]

/-- A request keeps what is true of every table: it enters no text into a full shard. -/
theorem Numbered.request (numbered : t.Numbered) (text : String)
    : (t.request text).2.Numbered := by
  refine ⟨(t.grows_request text).has numbered.empty, ?_⟩
  intro shard
  rcases t.request_cases text with ⟨_, _, kept⟩ | ⟨room, t', entered, texts⟩ | ⟨_, refused⟩
  · rw [kept]
    exact numbered.fits shard
  · rw [entered, ← Roster.length_toList, texts, List.length_append]
    split
    · next same => exact same ▸ Nat.succ_le_succ room
    · exact numbered.fits shard
  · rw [refused]
    exact numbered.fits shard

theorem Numbered.number_le (numbered : t.Numbered) (has : t.Has text number)
    : number ≤ Symbol.maxNumber := by
  obtain ⟨inShard, _⟩ := List.getElem?_eq_some_iff.mp has
  exact Nat.le_of_lt_succ (Nat.lt_of_lt_of_le inShard (numbered.fits _))

/-- The symbol that a request gives is that of a number which the text has from then on. -/
theorem exists_number_of_request (answer : (t.request text).1 = .ok symbol)
    : ∃ number, symbol = .ofParts (shardOf text) number ∧ (t.request text).2.Has text number := by
  rcases t.request_cases text with ⟨number, has, kept⟩ | ⟨_, t', entered, texts⟩ | ⟨_, refused⟩
  · rw [kept] at answer ⊢
    exact ⟨number, (Except.ok.inj answer).symm, has⟩
  · rw [entered] at answer ⊢
    refine ⟨_, (Except.ok.inj answer).symm, ?_⟩
    rw [Has, texts, if_pos rfl]
    exact List.getElem?_concat_length
  · rw [refused] at answer
    cases answer

/-- The symbol of a number is looked up as the text that has the number. -/
theorem Has.text?_ofParts (has : t.Has text number) (fits : number ≤ Symbol.maxNumber)
    : t.text? (.ofParts (shardOf text) number) = some text := by
  rw [text?, Symbol.shard_ofParts _ fits, Symbol.number_ofParts _ fits, ← Array.getElem?_toList]
  exact has

-----------------------------------------------------------------------------------------
-- Requests one after the other
-----------------------------------------------------------------------------------------

theorem grows_after (t : SymbolTable) (texts : List String) : t.Grows (t.after texts) := by
  induction texts generalizing t with
  | nil => exact fun _ => List.prefix_refl _
  | cons text rest ih =>
      intro shard
      exact (t.grows_request text shard).trans (ih (t.request text).2 shard)

theorem size_after_le (t : SymbolTable) (texts : List String) (shard : Fin 16)
    : ((t.after texts).textsOf shard).size ≤ (t.textsOf shard).size + texts.length := by
  induction texts generalizing t with
  | nil => exact Nat.le_refl _
  | cons text rest ih =>
      have now := t.size_request_le text shard
      have later := ih (t.request text).2
      rw [List.length_cons]
      refine Nat.le_trans later ?_
      omega

theorem Numbered.after (numbered : t.Numbered) (texts : List String)
    : (t.after texts).Numbered := by
  induction texts generalizing t with
  | nil => exact numbered
  | cons text rest ih => exact ih (numbered.request text)

theorem textsOf_initial (shard : Fin 16)
    : (initial.textsOf shard).toList = if 0 = shard then [""] else [] := by
  have absent : "" ∉ (Roster.empty : Roster (id : String → String)).keys := List.not_mem_nil
  have single := Roster.toList_insert_of_not_mem absent
  simp only [initial, textsOf, Fin.getElem_fin, Vector.getElem_set, Vector.getElem_replicate,
    Fin.ext_iff]
  split
  · next first => exact single.trans (if_pos first).symm
  · next other => exact (if_neg other).symm

theorem shardOf_empty : shardOf "" = 0 := by
  simp [shardOf, shardHash]

theorem numbered_initial : initial.Numbered := by
  refine ⟨?_, ?_⟩
  · rw [Has, shardOf_empty, textsOf_initial]
    rfl
  · intro shard
    rw [← Roster.length_toList, textsOf_initial]
    split <;> decide

/-- There are not enough numbers for a text only after as many requests. -/
theorem Refuses.length_earlier {earlier : List String}
    (refuses : (initial.after earlier).Refuses text)
    : Symbol.maxNumber ≤ earlier.length := by
  have size := initial.size_after_le earlier (shardOf text)
  have atMost : (initial.textsOf (shardOf text)).size ≤ 1 := by
    rw [← Roster.length_toList, textsOf_initial]
    split <;> decide
  have full := refuses.2
  omega

theorem after_append_cons (earlier later : List String) (text : String)
    : initial.after (earlier ++ text :: later)
      = ((initial.after earlier).request text).2.after later :=
  List.foldl_append

/-- Interning is faithful and stable. At any time, that is after any requests, the request for a
text fails only if the text is new and all numbers of its shard are taken, and then leaves the table
as it is. The symbol that it gives otherwise is looked up as the text at any later time; from then
on a request gives that symbol exactly for that text; and it is the empty symbol exactly for the
empty text.
-/
theorem answer_faithful (earlier : List String) (text : String)
    : (∀ failure, answer earlier text = .error failure →
        (initial.after earlier).Refuses text
        ∧ initial.after (earlier ++ [text]) = initial.after earlier)
      ∧ ∀ symbol, answer earlier text = .ok symbol →
        (∀ later, (initial.after (earlier ++ text :: later)).text? symbol = some text)
        ∧ (∀ later text' symbol', answer (earlier ++ text :: later) text' = .ok symbol' →
          (symbol' = symbol ↔ text' = text))
        ∧ (symbol = .empty ↔ text = "") := by
  have numbered : (initial.after earlier).Numbered := numbered_initial.after earlier
  simp only [answer, after_append_cons]
  generalize initial.after earlier = t at numbered ⊢
  refine ⟨?_, ?_⟩
  · intro failure failed
    rcases t.request_cases text with ⟨_, _, kept⟩ | ⟨_, _, entered, _⟩ | ⟨refuses, refused⟩
    · rw [kept] at failed
      cases failed
    · rw [entered] at failed
      cases failed
    · exact ⟨refuses, by rw [refused]; rfl⟩
  · intro symbol given
    obtain ⟨number, rfl, has⟩ := exists_number_of_request given
    have numbered' := numbered.request text
    have fits := numbered'.number_le has
    have stays (later : List String) : ((t.request text).2.after later).Has text number :=
      (grows_after _ later).has has
    refine ⟨fun later => (stays later).text?_ofParts fits, ?_, ?_⟩
    · intro later text' symbol' given'
      constructor
      · rintro rfl
        obtain ⟨number', same, has'⟩ := exists_number_of_request given'
        -- After both requests the one symbol is looked up as either text.
        have isText' := has'.text?_ofParts (((numbered'.after later).request text').number_le has')
        have isText := ((grows_request _ text').has (stays later)).text?_ofParts fits
        rw [same, isText'] at isText
        exact Option.some.inj isText
      · rintro rfl
        rw [(stays later).request] at given'
        exact (Except.ok.inj given').symm
    · have isEmpty : Symbol.empty = .ofParts (shardOf "") 0 := by
        rw [shardOf_empty]
        rfl
      have emptyText := numbered'.empty.text?_ofParts (Nat.zero_le _)
      rw [isEmpty]
      constructor
      · intro same
        have isText := has.text?_ofParts fits
        rw [same, emptyText] at isText
        exact (Option.some.inj isText).symm
      · rintro rfl
        rw [numbered.empty.request] at given
        exact (Except.ok.inj given).symm

/-- Witness: two texts of one shard, and a request for the first one again. -/
theorem answer_faithful_position
    : ∃ symbol symbol',
        answer [] "position" = .ok symbol
        ∧ answer ["position", "positions"] "position" = .ok symbol
        ∧ answer ["position"] "positions" = .ok symbol'
        ∧ symbol' ≠ symbol ∧ symbol ≠ .empty := by
  have gives (earlier : List String) (text : String) (few : earlier.length < Symbol.maxNumber)
      : ∃ symbol, answer earlier text = .ok symbol := by
    cases given : answer earlier text with
    | ok symbol => exact ⟨symbol, rfl⟩
    | error failure =>
        obtain ⟨failed, -⟩ := answer_faithful earlier text
        exact absurd (failed failure given).1.length_earlier (Nat.not_le_of_lt few)
  obtain ⟨symbol, first⟩ := gives [] "position" (by decide)
  obtain ⟨symbol', second⟩ := gives ["position"] "positions" (by decide)
  obtain ⟨symbol'', third⟩ := gives ["position", "positions"] "position" (by decide)
  obtain ⟨-, stays⟩ := answer_faithful [] "position"
  obtain ⟨-, only, notEmpty⟩ := stays symbol first
  have again : symbol'' = symbol := (only ["positions"] "position" symbol'' third).mpr rfl
  refine ⟨symbol, symbol', first, again ▸ third, second, ?_, ?_⟩
  · intro same
    exact absurd ((only [] "positions" symbol' second).mp same) (by decide)
  · intro isEmpty
    exact absurd (notEmpty.mp isEmpty) (by decide)

end RecordSynth.SymbolTable
