import Formulary.Json.Document
import Formulary.Proofs.Json.Texts
/-!
# Documents of written values

A document holds a value if it is the value with some places (`Holds`). The machine makes of the tokens
of a value a document that holds it (`assembles`), whatever is open around it, and so a text of a value
is read as a document that holds it (`exists_read_of_spells`).
-/

namespace Formulary.Json

/-! ## Documents with their values -/

mutual

/-- A document holds a value, whatever its places. -/
inductive Holds : Document → Json → Prop
  | null {place : Span} : Holds (.null place) .null
  | bool {b : Bool} {place : Span} : Holds (.bool b place) (.bool b)
  | number {n : Number} {place : Span} : Holds (.number (.ok n) place) (.number n)
  | string {s : String} {place : Span} : Holds (.string (.ok s) place) (.string s)
  | array {start : Nat} {items : Items} {vs : List Json} (h : HoldsItems items vs) :
    Holds (.array start items) (.array vs)
  | object {start : Nat} {members : Members} {ms : List (String × Json)} (h : HoldsMembers members ms) :
    Holds (.object start members) (.object ms)

/-- Items hold values in order. -/
inductive HoldsItems : Items → List Json → Prop
  | closed {stop : Nat} : HoldsItems (.closed stop) []
  | item {d : Document} {v : Json} {resume : Nat} {items : Items} {vs : List Json} (hd : Holds d v)
      (h : HoldsItems items vs) :
    HoldsItems (.item d resume items) (v :: vs)

/-- Members hold keys and values in order. -/
inductive HoldsMembers : Members → List (String × Json) → Prop
  | closed {stop : Nat} : HoldsMembers (.closed stop) []
  | member {k : String} {d : Document} {v : Json} {keyStop colon resume : Nat} {members : Members}
      {ms : List (String × Json)} (hd : Holds d v) (h : HoldsMembers members ms) :
    HoldsMembers (.member (.ok k) keyStop colon d resume members) ((k, v) :: ms)

end

/-- A value as a document holds the value. -/
lemma holds_toDocument (v : Json) : Holds v.toDocument v := by
  induction v using Json.induction with
  | null => exact .null
  | bool b => exact .bool
  | number n => exact .number
  | string s => exact .string
  | array vs ih =>
    refine .array ?_
    induction vs with
    | nil => exact .closed
    | cons v vs ihvs =>
      obtain ⟨hv, hvs⟩ := List.forall_mem_cons.1 ih
      exact .item hv (ihvs hvs)
  | object ms ih =>
    refine .object ?_
    induction ms with
    | nil => exact .closed
    | cons m ms ihms =>
      obtain ⟨hm, hms⟩ := List.forall_mem_cons.1 ih
      exact .member hm (ihms hms)

/-! ## Steps of the machine -/

section
variable {size : Nat} {want want' : Want} {stack stack' : List Frame} {l : Lexeme} {ls : List Lexeme}

lemma assemble_go (h : move want stack ⟨size, some l⟩ (Ahead.position ⟨size, ls.head?⟩) =
    .go want' stack') : assemble size want stack (l :: ls) = assemble size want' stack' ls := by
  rw [assemble.eq_def]
  split
  · rename_i hls
    exact absurd hls (by simp)
  · exact absurd h (by simp [move])
  · rename_i hls
    exact absurd hls (by simp)
  · rename_i hls
    obtain ⟨rfl, rfl⟩ := List.cons.inj hls
    rw [h]

variable {start : Nat}

/-- Where an item may stand and the bracket does not, a value is wanted. -/
lemma assemble_item {before : List (Document × Nat)} (hl : l.token ≠ .rightBracket) :
    assemble size (.item start before) stack (l :: ls) =
      assemble size .value (.array start before :: stack) (l :: ls) := by
  have hmove : ∀ following, move (.item start before) stack ⟨size, some l⟩ following =
      move .value (.array start before :: stack) ⟨size, some l⟩ following := by
    intro following
    obtain ⟨t, place⟩ := l
    cases before <;> cases t <;> first | rfl | exact absurd rfl hl
  rw [assemble, assemble, hmove]
  all_goals (intros; contradiction)

variable {before : List Member} {key : Except Fault String} {keyStop colon : Nat} {place : Span}

lemma assemble_leftBracket :
    assemble size .value stack (⟨.leftBracket, place⟩ :: ls) =
      assemble size (.item place.start []) stack ls :=
  assemble_go rfl

lemma assemble_leftBrace :
    assemble size .value stack (⟨.leftBrace, place⟩ :: ls) =
      assemble size (.key place.start []) stack ls :=
  assemble_go rfl

lemma assemble_key :
    assemble size (.key start before) stack (⟨.string key, place⟩ :: ls) =
      assemble size (.colon start before key place.stop) stack ls :=
  assemble_go (by cases before <;> rfl)

lemma assemble_colon :
    assemble size (.colon start before key keyStop) stack (⟨.colon, place⟩ :: ls) =
      assemble size .value (.member start before key keyStop place.start :: stack) ls :=
  assemble_go rfl

end

/-! ## Values -/

/-- From the tokens of a value the machine makes a document that holds it. -/
def Assembles (v : Json) : Prop :=
  ∀ {size : Nat} {stack : List Frame} {ls : List Lexeme} {ts : List Token},
    ls.map Lexeme.token = v.tokenList ++ ts → ∃ d rest, Holds d v ∧ rest.map Lexeme.token = ts ∧
      assemble size .value stack ls = assemble size (.after d) stack rest

lemma tokenList_eq_cons (v : Json) : ∃ t ts, v.tokenList = t :: ts ∧ t ≠ .rightBracket := by
  cases v with
  | array vs => cases vs <;> exact ⟨_, _, rfl, by simp⟩
  | object ms => cases ms <;> exact ⟨_, _, rfl, by simp⟩
  | _ => exact ⟨_, _, rfl, by simp⟩

section
variable {size start : Nat} {stack : List Frame} {ls : List Lexeme} {ts : List Token}

/-- The value of an item is read like any other. -/
lemma Assembles.item {v : Json} (hv : Assembles v) (size start : Nat) (stack : List Frame)
    (before : List (Document × Nat)) (hls : ls.map Lexeme.token = v.tokenList ++ ts) :
    ∃ d rest, Holds d v ∧ rest.map Lexeme.token = ts ∧
      assemble size (.item start before) stack ls =
        assemble size (.after d) (.array start before :: stack) rest := by
  obtain ⟨t, more, htokens, ht⟩ := tokenList_eq_cons v
  obtain ⟨d, rest, hd, hrest, hassemble⟩ := @hv size (.array start before :: stack) ls ts hls
  refine ⟨d, rest, hd, hrest, ?_⟩
  rw [← hassemble]
  rw [htokens, List.cons_append] at hls
  obtain ⟨l, ls', rfl, rfl, -⟩ := List.map_eq_cons_iff.1 hls
  exact assemble_item ht

lemma assemble_moreItems {vs : List Json} (hvs : ∀ v ∈ vs, Assembles v) (d : Document)
    (before : List (Document × Nat)) (hls : ls.map Lexeme.token = moreItems vs ++ ts) :
    ∃ resume items rest, HoldsItems items vs ∧ rest.map Lexeme.token = ts ∧
      assemble size (.after d) (.array start before :: stack) ls =
        assemble size (.after (arrayOf start ((d, resume) :: before) items)) stack rest := by
  induction vs generalizing d before ls with
  | nil =>
    rw [moreItems, List.singleton_append] at hls
    obtain ⟨⟨t, place⟩, rest, rfl, rfl, hrest⟩ := List.map_eq_cons_iff.1 hls
    exact ⟨place.stop, .closed place.stop, rest, .closed, hrest, assemble_go rfl⟩
  | cons v vs ih =>
    obtain ⟨hv, hvs⟩ := List.forall_mem_cons.1 hvs
    rw [moreItems, List.cons_append, List.append_assoc] at hls
    obtain ⟨⟨t, place⟩, ls', rfl, rfl, hls'⟩ := List.map_eq_cons_iff.1 hls
    let following := Ahead.position ⟨size, ls'.head?⟩
    let before' := (d, following) :: before
    obtain ⟨d', ls'', hd', hls'', hitem⟩ := hv.item size start stack before' hls'
    obtain ⟨resume, items, rest, hitems, hrest, hmore⟩ := ih hvs d' before' hls''
    refine ⟨following, .item d' resume items, rest, .item hd' hitems, hrest, ?_⟩
    rw [assemble_go rfl]
    exact hitem.trans hmore

/-- A key, a colon and the value of a member. -/
lemma Assembles.member {v : Json} (hv : Assembles v) (size start : Nat) (stack : List Frame)
    (before : List Member) {k : String}
    (hls : ls.map Lexeme.token = .string (.ok k) :: .colon :: (v.tokenList ++ ts)) :
    ∃ d rest keyStop colon, Holds d v ∧ rest.map Lexeme.token = ts ∧
      assemble size (.key start before) stack ls =
        assemble size (.after d) (.member start before (.ok k) keyStop colon :: stack) rest := by
  obtain ⟨⟨t, place⟩, ls', rfl, rfl, hls'⟩ := List.map_eq_cons_iff.1 hls
  obtain ⟨⟨t, place'⟩, ls'', rfl, rfl, hls''⟩ := List.map_eq_cons_iff.1 hls'
  obtain ⟨d, rest, hd, hrest, hassemble⟩ :=
    @hv size (.member start before (.ok k) place.stop place'.start :: stack) ls'' ts hls''
  exact ⟨d, rest, place.stop, place'.start, hd, hrest,
    assemble_key.trans (assemble_colon.trans hassemble)⟩

lemma assemble_moreMembers {ms : List (String × Json)} (hms : ∀ m ∈ ms, Assembles m.2) (d : Document)
    (before : List Member) (key : Except Fault String) (keyStop colon : Nat)
    (hls : ls.map Lexeme.token = moreMembers ms ++ ts) :
    ∃ resume members rest, HoldsMembers members ms ∧ rest.map Lexeme.token = ts ∧
      assemble size (.after d) (.member start before key keyStop colon :: stack) ls =
        assemble size (.after (objectOf start (⟨key, keyStop, colon, d, resume⟩ :: before) members))
          stack rest := by
  induction ms generalizing d before key keyStop colon ls with
  | nil =>
    rw [moreMembers, List.singleton_append] at hls
    obtain ⟨⟨t, place⟩, rest, rfl, rfl, hrest⟩ := List.map_eq_cons_iff.1 hls
    exact ⟨place.stop, .closed place.stop, rest, .closed, hrest, assemble_go rfl⟩
  | cons m ms ih =>
    obtain ⟨k, v⟩ := m
    obtain ⟨hv, hms⟩ := List.forall_mem_cons.1 hms
    rw [moreMembers] at hls
    simp only [List.cons_append, List.append_assoc] at hls
    obtain ⟨⟨t, place⟩, ls', rfl, rfl, hls'⟩ := List.map_eq_cons_iff.1 hls
    let before' : List Member := ⟨key, keyStop, colon, d, place.start⟩ :: before
    obtain ⟨d', ls'', keyStop', colon', hd', hls'', hmember⟩ := hv.member size start stack before' hls'
    obtain ⟨resume, members, rest, hmembers, hrest, hmore⟩ :=
      ih hms d' before' (.ok k) keyStop' colon' hls''
    refine ⟨place.start, .member (.ok k) keyStop' colon' d' resume members, rest,
      .member hd' hmembers, hrest, ?_⟩
    rw [assemble_go rfl]
    exact hmember.trans hmore

end

/-- The machine reads the tokens of every value, whatever is open around it. -/
theorem assembles (v : Json) : Assembles v := by
  induction v using Json.induction with
  | array vs ih =>
    intro size stack ls ts hls
    cases vs with
    | nil =>
      obtain ⟨⟨t, place⟩, ls', rfl, rfl, hls'⟩ := List.map_eq_cons_iff.1 hls
      obtain ⟨⟨t, place'⟩, rest, rfl, rfl, hrest⟩ := List.map_eq_cons_iff.1 hls'
      exact ⟨_, rest, .array .closed, hrest, assemble_leftBracket.trans (assemble_go rfl)⟩
    | cons v vs =>
      obtain ⟨hv, hvs⟩ := List.forall_mem_cons.1 ih
      rw [tokenList, List.cons_append, List.append_assoc] at hls
      obtain ⟨⟨t, place⟩, ls', rfl, rfl, hls'⟩ := List.map_eq_cons_iff.1 hls
      obtain ⟨d, ls'', hd, hls'', hitem⟩ := hv.item size place.start stack [] hls'
      obtain ⟨resume, items, rest, hitems, hrest, hmore⟩ := assemble_moreItems hvs d [] hls''
      exact ⟨_, rest, .array (.item hd hitems), hrest,
        assemble_leftBracket.trans (hitem.trans hmore)⟩
  | object ms ih =>
    intro size stack ls ts hls
    cases ms with
    | nil =>
      obtain ⟨⟨t, place⟩, ls', rfl, rfl, hls'⟩ := List.map_eq_cons_iff.1 hls
      obtain ⟨⟨t, place'⟩, rest, rfl, rfl, hrest⟩ := List.map_eq_cons_iff.1 hls'
      exact ⟨_, rest, .object .closed, hrest, assemble_leftBrace.trans (assemble_go rfl)⟩
    | cons m ms =>
      obtain ⟨k, v⟩ := m
      obtain ⟨hv, hms⟩ := List.forall_mem_cons.1 ih
      rw [tokenList] at hls
      simp only [List.cons_append, List.append_assoc] at hls
      obtain ⟨⟨t, place⟩, ls', rfl, rfl, hls'⟩ := List.map_eq_cons_iff.1 hls
      obtain ⟨d, ls'', keyStop, colon, hd, hls'', hmember⟩ := hv.member size place.start stack [] hls'
      obtain ⟨resume, members, rest, hmembers, hrest, hmore⟩ :=
        assemble_moreMembers hms d [] (.ok k) keyStop colon hls''
      exact ⟨_, rest, .object (.member hd hmembers), hrest,
        assemble_leftBrace.trans (hmember.trans hmore)⟩
  | null =>
    intro size stack ls ts hls
    obtain ⟨⟨t, place⟩, rest, rfl, rfl, hrest⟩ := List.map_eq_cons_iff.1 hls
    exact ⟨_, rest, .null, hrest, assemble_go rfl⟩
  | bool b =>
    intro size stack ls ts hls
    obtain ⟨⟨t, place⟩, rest, rfl, rfl, hrest⟩ := List.map_eq_cons_iff.1 hls
    exact ⟨_, rest, .bool, hrest, assemble_go rfl⟩
  | number n =>
    intro size stack ls ts hls
    obtain ⟨⟨t, place⟩, rest, rfl, rfl, hrest⟩ := List.map_eq_cons_iff.1 hls
    exact ⟨_, rest, .number, hrest, assemble_go rfl⟩
  | string s =>
    intro size stack ls ts hls
    obtain ⟨⟨t, place⟩, rest, rfl, rfl, hrest⟩ := List.map_eq_cons_iff.1 hls
    exact ⟨_, rest, .string, hrest, assemble_go rfl⟩

/-! ## Texts -/

/-- **A text that spells the tokens of a value is read as a document that holds it.** -/
theorem exists_read_of_spells {v : Json} {text : String} (h : Spells v.tokenList text.toList) :
    ∃ d, Holds d v ∧ read text = ⟨d, none⟩ := by
  have htokens : (tokens text).map Lexeme.token = v.tokenList ++ [] := by
    rw [h.tokens, List.append_nil]
  obtain ⟨d, rest, hd, hrest, hassemble⟩ := @assembles v text.utf8ByteSize [] _ _ htokens
  obtain rfl := List.map_eq_nil_iff.1 hrest
  exact ⟨d, hd, hassemble⟩

/-- Either text of a value spells its tokens. -/
theorem spells_text {v : Json} (hv : ∀ n ∈ v.numbers, n.IsRead) :
    Spells v.tokenList v.text.toList ∧ Spells v.tokenList v.prettyText.toList := by
  have hcompact := spellsValue_compact v hv Stops.nil .nil
  have hindented := spellsValue_indented v 0 hv Stops.nil .nil
  rw [List.append_nil, List.append_nil] at hcompact hindented
  exact ⟨by rwa [text, String.toList_ofList], by rwa [prettyText, String.toList_ofList]⟩

end Formulary.Json
