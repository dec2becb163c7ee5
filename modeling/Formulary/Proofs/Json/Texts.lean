import Formulary.Json.Reader
import Formulary.Proofs.Json.Numbers
import Formulary.Proofs.Json.Strings
import Formulary.Proofs.Json.Values
/-!
# The tokens of written values

`Spells ts cs` says that characters are tokens one after the other, with gaps between them, and such
characters are cut into these tokens (`Spells.tokens`). Either text of a value spells the tokens of the
value, if its numbers are read back (`spells_compact`, `spells_indented`).
-/

namespace Formulary.Json

open Result

/-! ## Tokens one after the other -/

/-- The numeral of a number is read as this number. -/
def Number.IsRead (n : Number) : Prop :=
  ∃ stop, scanNumeral 0 n.text = .found (.ok n) stop []

/-- Characters that are tokens one after the other, with gaps between them. -/
inductive Spells : List Token → List Char → Prop
  | nil : Spells [] []
  | gap {c : Char} {ts : List Token} {cs : List Char} (hc : isGap c = true) (h : Spells ts cs) :
    Spells ts (c :: cs)
  | mark {c : Char} {t : Token} {ts : List Token} {cs : List Char} (hc : punctuation? c = some t)
      (h : Spells ts cs) :
    Spells (t :: ts) (c :: cs)
  | word {c : Char} {t : Token} {letters : List Char} {ts : List Token} {cs : List Char}
      (hc : word? c = some (t, letters)) (h : Spells ts cs) :
    Spells (t :: ts) (c :: (letters ++ cs))
  | string {s : String} {ts : List Token} {cs : List Char} (h : Spells ts cs) :
    Spells (.string (.ok s) :: ts) (stringText s ++ cs)
  | number {n : Number} {ts : List Token} {cs : List Char} (hn : n.IsRead)
      (hcs : Stops Numeral.isNumeralChar cs) (h : Spells ts cs) :
    Spells (.number (.ok n) :: ts) (n.text ++ cs)

section
variable {c : Char} {cs rest : List Char} {t : Token} (position : Nat)

lemma front_mark (hc : punctuation? c = some t) :
    front position c cs = (⟨t, ⟨position, position + 1⟩⟩, cs) := by
  unfold front
  rw [hc]

lemma punctuation?_eq_none_of_word? {letters : List Char} (hc : word? c = some (t, letters)) :
    punctuation? c = none ∧ isGap c = false := by
  unfold word? at hc
  split_ifs at hc with hn ht hf <;> subst c <;> exact ⟨rfl, rfl⟩

lemma scanWord_append (letters : List Char) :
    scanWord position letters (letters ++ cs) = .ok (position + letters.length, cs) := by
  induction letters generalizing position with
  | nil => rfl
  | cons w ws ih =>
    rw [List.cons_append, scanWord, if_pos rfl, ih, List.length_cons, Nat.add_right_comm,
      Nat.add_assoc]

lemma front_word {letters : List Char} (hc : word? c = some (t, letters)) :
    ∃ place, front position c (letters ++ cs) = (⟨t, place⟩, cs) := by
  unfold front
  rw [(punctuation?_eq_none_of_word? hc).1, hc]
  dsimp only
  rw [scanWord_append]
  exact ⟨_, rfl⟩

lemma front_string (s : String) :
    ∃ place, front position '\x22' (s.toList.flatMap stringChar ++ '\x22' :: cs) =
      (⟨.string (.ok s), place⟩, cs) := by
  obtain ⟨stop, hskim⟩ := skimString_written s.toList (position + 1) cs
  change ∃ place, quotedFront position (s.toList.flatMap stringChar ++ '\x22' :: cs) = _
  unfold quotedFront
  rw [hskim, readString_written]
  exact ⟨_, rfl⟩

/-- A character of numerals begins nothing else. -/
lemma of_isNumeralChar (hc : Numeral.isNumeralChar c = true) :
    isGap c = false ∧ punctuation? c = none ∧ word? c = none ∧ c ≠ '\x22' := by
  simp only [Numeral.isNumeralChar, Bool.or_eq_true, decide_eq_true_eq] at hc
  rcases hc with ((((hc | rfl) | rfl) | rfl) | rfl) | rfl
  · have hne : ∀ d : Char, d.isDigit = false → c ≠ d := by
      rintro d hd rfl
      exact absurd (hc.symm.trans hd) (by simp)
    refine ⟨?_, ?_, ?_, hne _ rfl⟩
    · simp [isGap, hne ' ' rfl, hne '\t' rfl, hne '\n' rfl, hne '\r' rfl]
    · rw [punctuation?, if_neg (hne _ rfl), if_neg (hne _ rfl), if_neg (hne _ rfl), if_neg (hne _ rfl),
        if_neg (hne _ rfl), if_neg (hne _ rfl)]
    · rw [word?, if_neg (hne _ rfl), if_neg (hne _ rfl), if_neg (hne _ rfl)]
  all_goals exact ⟨rfl, rfl, rfl, by decide⟩

lemma isNumeralChar_of_begins (hc : (c.isDigit || c = '-') = true) :
    Numeral.isNumeralChar c = true := by
  rcases Bool.or_eq_true_iff.1 hc with hc | hc
  · simp [Numeral.isNumeralChar, hc]
  · rw [of_decide_eq_true hc]
    rfl

lemma front_numeral (hc : Numeral.isNumeralChar c = true) :
    front position c cs =
      if (c.isDigit || c = '-') = true then
        match scanNumeral position (c :: cs) with
        | .found value stop rest => (⟨.number value, ⟨position, stop⟩⟩, rest)
        | .cut faults => (⟨.cut false faults, .point position⟩, [])
      else (⟨.stray, .point position⟩, []) := by
  obtain ⟨-, hpunctuation, hword, hquote⟩ := of_isNumeralChar hc
  unfold front
  rw [hpunctuation, hword]
  exact if_neg hquote

lemma begins_of_scanNumeral {start stop : Nat} {value : Except Fault Number}
    (h : scanNumeral start (c :: cs) = .found value stop rest) : (c.isDigit || c = '-') = true := by
  unfold scanNumeral at h
  split at h
  · rename_i hcons
    rw [(List.cons.inj hcons).1, decide_eq_true rfl, Bool.or_true]
  · by_contra hc
    rw [Bool.or_eq_true_iff, not_or, Bool.not_eq_true] at hc
    rw [scanUnsigned, List.takeWhile_cons_of_neg (by simp [hc.1])] at h
    exact absurd h (by simp)

lemma front_number {n : Number} (hn : n.IsRead) (hrest : Stops Numeral.isNumeralChar rest) :
    ∃ c cs place, n.text = c :: cs ∧ isGap c = false ∧
      front position c (cs ++ rest) = (⟨.number (.ok n), place⟩, rest) := by
  obtain ⟨stop, hscan⟩ := hn
  obtain ⟨stop', hscan'⟩ := scanNumeral_append hrest hscan position
  generalize n.text = cs at hscan hscan' ⊢
  cases cs with
  | nil => exact absurd hscan (by simp [scanNumeral, scanUnsigned])
  | cons c cs =>
    have hbegins := begins_of_scanNumeral hscan
    have hc := isNumeralChar_of_begins hbegins
    refine ⟨c, cs, ⟨position, stop'⟩, rfl, (of_isNumeralChar hc).1, ?_⟩
    rw [front_numeral position hc, if_pos hbegins, ← List.cons_append, hscan']

variable {before : List Lexeme}

lemma tokensFrom_gap (hc : isGap c = true) :
    tokensFrom position before (c :: cs) = tokensFrom (position + 1) before cs := by
  rw [tokensFrom, if_pos hc]

lemma tokensFrom_front (hc : isGap c = false) {l : Lexeme} (h : front position c cs = (l, rest)) :
    tokensFrom position before (c :: cs) = tokensFrom l.place.stop (l :: before) rest := by
  rw [tokensFrom, if_neg (by simp [hc])]
  dsimp only
  rw [h]

lemma isGap_eq_false_of_mark (hc : punctuation? c = some t) : isGap c = false := by
  unfold punctuation? at hc
  split_ifs at hc <;> subst c <;> rfl

end

section
variable {ts : List Token} {cs : List Char}

lemma Spells.tokensFrom (h : Spells ts cs) (position : Nat) (before : List Lexeme) :
    (tokensFrom position before cs).map Lexeme.token = before.reverse.map Lexeme.token ++ ts := by
  -- a token that is cut off goes from the tokens to come to those read before
  have hmove : ∀ (before : List Lexeme) {t : Token} {ts : List Token} {place : Span},
      (⟨t, place⟩ :: before : List Lexeme).reverse.map Lexeme.token ++ ts =
        before.reverse.map Lexeme.token ++ t :: ts := by simp
  induction h generalizing position before with
  | nil => rw [Json.tokensFrom, List.append_nil]
  | gap hc h ih => rw [tokensFrom_gap position hc, ih]
  | mark hc h ih =>
    rw [tokensFrom_front position (isGap_eq_false_of_mark hc) (front_mark position hc), ih, hmove]
  | word hc h ih =>
    obtain ⟨place, hfront⟩ := front_word position hc
    rw [tokensFrom_front position (punctuation?_eq_none_of_word? hc).2 hfront, ih, hmove]
  | @string s ts cs h ih =>
    obtain ⟨place, hfront⟩ := @front_string cs position s
    rw [stringText, List.cons_append, List.cons_append, List.append_assoc, List.singleton_append,
      tokensFrom_front position rfl hfront, ih, hmove]
  | number hn hcs h ih =>
    obtain ⟨c, more, place, htext, hc, hfront⟩ := front_number position hn hcs
    rw [htext, List.cons_append, tokensFrom_front position hc hfront, ih, hmove]

/-- **A text that spells tokens is cut into these tokens.** -/
theorem Spells.tokens {text : String} (h : Spells ts text.toList) :
    (tokens text).map Lexeme.token = ts :=
  h.tokensFrom 0 []

end

/-! ## The tokens of a value -/

mutual

/-- The tokens of a value. -/
def tokenList : Json → List Token
  | null => [.null]
  | bool b => [.bool b]
  | number n => [.number (.ok n)]
  | string s => [.string (.ok s)]
  | array [] => [.leftBracket, .rightBracket]
  | array (v :: vs) => .leftBracket :: (v.tokenList ++ moreItems vs)
  | object [] => [.leftBrace, .rightBrace]
  | object ((k, v) :: ms) =>
    .leftBrace :: .string (.ok k) :: .colon :: (v.tokenList ++ moreMembers ms)

/-- The tokens after an item, if items follow, up to the closing bracket. -/
def moreItems : List Json → List Token
  | [] => [.rightBracket]
  | v :: vs => .comma :: (v.tokenList ++ moreItems vs)

/-- The tokens after a member, if members follow, up to the closing brace. -/
def moreMembers : List (String × Json) → List Token
  | [] => [.rightBrace]
  | (k, v) :: ms => .comma :: .string (.ok k) :: .colon :: (v.tokenList ++ moreMembers ms)

end

/-- Characters that spell the tokens of a value, if no numeral goes on after them. -/
def SpellsValue (v : Json) (cs : List Char) : Prop :=
  ∀ {ts : List Token} {rest : List Char}, Stops Numeral.isNumeralChar rest → Spells ts rest →
    Spells (v.tokenList ++ ts) (cs ++ rest)

section
variable {ts : List Token} {rest : List Char}

/-! ## Texts on one line -/

lemma spells_compactItems {v : Json} {vs : List Json} (hvs : ∀ w ∈ v :: vs, SpellsValue w w.compact)
    (h : Spells ts rest) :
    Spells (v.tokenList ++ (moreItems vs ++ ts)) (compactItems (v :: vs) ++ ']' :: rest) := by
  induction vs generalizing v with
  | nil =>
    rw [compactItems, moreItems]
    exact hvs v List.mem_cons_self (stops_cons.2 rfl) (.mark rfl h)
  | cons w ws ih =>
    obtain ⟨hv, hws⟩ := List.forall_mem_cons.1 hvs
    rw [compactItems, moreItems, List.append_assoc, List.cons_append, List.cons_append,
      List.append_assoc]
    exact hv (stops_cons.2 rfl) (.mark rfl (ih hws))

lemma spells_compactMembers {k : String} {v : Json} {ms : List (String × Json)}
    (hms : ∀ m ∈ (k, v) :: ms, SpellsValue m.2 m.2.compact) (h : Spells ts rest) :
    Spells (.string (.ok k) :: .colon :: (v.tokenList ++ (moreMembers ms ++ ts)))
      (compactMembers ((k, v) :: ms) ++ '\x7d' :: rest) := by
  induction ms generalizing k v with
  | nil =>
    rw [compactMembers, moreMembers, List.append_assoc, List.cons_append]
    exact .string (.mark rfl (hms (k, v) List.mem_cons_self (stops_cons.2 rfl) (.mark rfl h)))
  | cons m ms ih =>
    obtain ⟨hv, hms⟩ := List.forall_mem_cons.1 hms
    obtain ⟨k', v'⟩ := m
    rw [compactMembers, moreMembers]
    simp only [List.append_assoc, List.cons_append]
    exact .string (.mark rfl (hv (stops_cons.2 rfl) (.mark rfl (ih hms))))

/-- The text of a value on one line spells its tokens. -/
theorem spellsValue_compact (v : Json) (hv : ∀ n ∈ v.numbers, n.IsRead) :
    SpellsValue v v.compact := by
  induction v using Json.induction with
  | null =>
    intro ts rest hrest h
    exact .word rfl h
  | bool b =>
    intro ts rest hrest h
    cases b <;> exact .word rfl h
  | number n =>
    intro ts rest hrest h
    exact .number (hv n (by simp)) hrest h
  | string s =>
    intro ts rest hrest h
    exact .string h
  | array vs ih =>
    intro ts rest hrest h
    have hvs : ∀ w ∈ vs, SpellsValue w w.compact := fun w hw =>
      ih w hw fun n hn => hv n (mem_numbers_array.2 ⟨w, hw, hn⟩)
    cases vs with
    | nil => exact .mark rfl (.mark rfl h)
    | cons v vs =>
      rw [compact, tokenList]
      simp only [List.append_assoc, List.cons_append, List.nil_append]
      exact .mark rfl (spells_compactItems hvs h)
  | object ms ih =>
    intro ts rest hrest h
    have hms : ∀ m ∈ ms, SpellsValue m.2 m.2.compact := fun m hm =>
      ih m hm fun n hn => hv n (mem_numbers_object.2 ⟨m, hm, hn⟩)
    cases ms with
    | nil => exact .mark rfl (.mark rfl h)
    | cons m ms =>
      obtain ⟨k, v⟩ := m
      rw [compact, tokenList]
      simp only [List.append_assoc, List.cons_append, List.nil_append]
      exact .mark rfl (spells_compactMembers hms h)

/-! ## Indented texts -/

lemma spells_newLine (level : Nat) (h : Spells ts rest) : Spells ts (newLine level ++ rest) := by
  have hblanks : ∀ k, Spells ts (List.replicate k ' ' ++ rest) := by
    intro k
    induction k with
    | zero => exact h
    | succ k ih => exact .gap rfl ih
  exact .gap rfl (hblanks (2 * level))

lemma stops_newLine (level : Nat) : Stops Numeral.isNumeralChar (newLine level ++ rest) :=
  stops_cons.2 rfl

lemma spells_indentedItems {level outer : Nat} {v : Json} {vs : List Json}
    (hvs : ∀ w ∈ v :: vs, SpellsValue w (w.indented level)) (h : Spells ts rest) :
    Spells (v.tokenList ++ (moreItems vs ++ ts))
      (indentedItems level (v :: vs) ++ (newLine outer ++ ']' :: rest)) := by
  induction vs generalizing v with
  | nil =>
    rw [indentedItems, moreItems, List.append_assoc]
    exact spells_newLine level (hvs v List.mem_cons_self (stops_newLine outer)
      (spells_newLine outer (.mark rfl h)))
  | cons w ws ih =>
    obtain ⟨hv, hws⟩ := List.forall_mem_cons.1 hvs
    rw [indentedItems, moreItems]
    simp only [List.append_assoc, List.cons_append]
    exact spells_newLine level (hv (stops_cons.2 rfl) (.mark rfl (ih hws)))

lemma spells_indentedMembers {level outer : Nat} {k : String} {v : Json} {ms : List (String × Json)}
    (hms : ∀ m ∈ (k, v) :: ms, SpellsValue m.2 (m.2.indented level)) (h : Spells ts rest) :
    Spells (.string (.ok k) :: .colon :: (v.tokenList ++ (moreMembers ms ++ ts)))
      (indentedMembers level ((k, v) :: ms) ++ (newLine outer ++ '\x7d' :: rest)) := by
  induction ms generalizing k v with
  | nil =>
    rw [indentedMembers, moreMembers]
    simp only [List.append_assoc, List.cons_append]
    exact spells_newLine level (.string (.mark rfl (.gap rfl
      (hms (k, v) List.mem_cons_self (stops_newLine outer) (spells_newLine outer (.mark rfl h))))))
  | cons m ms ih =>
    obtain ⟨hv, hms⟩ := List.forall_mem_cons.1 hms
    obtain ⟨k', v'⟩ := m
    rw [indentedMembers, moreMembers]
    simp only [List.append_assoc, List.cons_append]
    exact spells_newLine level (.string (.mark rfl (.gap rfl
      (hv (stops_cons.2 rfl) (.mark rfl (ih hms))))))

/-- The text of a value with an item or member to a line spells its tokens. -/
theorem spellsValue_indented (v : Json) (level : Nat) (hv : ∀ n ∈ v.numbers, n.IsRead) :
    SpellsValue v (v.indented level) := by
  induction v using Json.induction generalizing level with
  | null => exact spellsValue_compact .null hv
  | bool b => exact spellsValue_compact (.bool b) hv
  | number n => exact spellsValue_compact (.number n) hv
  | string s => exact spellsValue_compact (.string s) hv
  | array vs ih =>
    intro ts rest hrest h
    have hvs : ∀ w ∈ vs, SpellsValue w (w.indented (level + 1)) := fun w hw =>
      ih w hw (level + 1) fun n hn => hv n (mem_numbers_array.2 ⟨w, hw, hn⟩)
    cases vs with
    | nil => exact .mark rfl (.mark rfl h)
    | cons v vs =>
      rw [indented, tokenList]
      simp only [List.append_assoc, List.cons_append, List.nil_append]
      exact .mark rfl (spells_indentedItems hvs h)
  | object ms ih =>
    intro ts rest hrest h
    have hms : ∀ m ∈ ms, SpellsValue m.2 (m.2.indented (level + 1)) := fun m hm =>
      ih m hm (level + 1) fun n hn => hv n (mem_numbers_object.2 ⟨m, hm, hn⟩)
    cases ms with
    | nil => exact .mark rfl (.mark rfl h)
    | cons m ms =>
      obtain ⟨k, v⟩ := m
      rw [indented, tokenList]
      simp only [List.append_assoc, List.cons_append, List.nil_append]
      exact .mark rfl (spells_indentedMembers hms h)

end

end Formulary.Json
