import Formulary.Proofs.Number.Numeral
import Formulary.Proofs.Text.Names
import Formulary.Token.Lexer
/-!
# The tokens of texts one after the other

Where its tokens stand does not matter to what the tokens of a text are; `tokensOf` are those tokens
without their spans (`tokensOf_eq`). A text without quotes keeps its tokens when another follows it,
and that one has its own, if the two are kept apart by a blank or by an underscore after a character
that names are not made of (`tokensOf_append`). A name that nothing runs into is one token
(`tokensOf_name_append`).
-/

namespace Formulary

/-! ## Tokens without spans -/

/-- The tokens of a text without their spans, if nothing stands there but tokens and blanks. -/
def tokensOf : List Char → Option (List Token)
  | [] => some []
  | c :: cs =>
    if isTokenBlank c then tokensOf cs
    else match _h : munch c cs with
      | .token token _ rest => (tokensOf rest).map (token :: ·)
      | .rejected _ => none
termination_by cs => cs.length
decreasing_by
  · exact Nat.lt_succ_self _
  · exact length_rest_of_munch _h

section
variable {c : Char} {cs slice rest : List Char} {t : Token}

@[simp] lemma tokensOf_nil : tokensOf [] = some [] := by
  rw [tokensOf]

lemma tokensOf_of_blank (h : isTokenBlank c = true) : tokensOf (c :: cs) = tokensOf cs := by
  rw [tokensOf, if_pos h]

lemma tokensOf_of_munch (hc : isTokenBlank c = false) (h : munch c cs = .token t slice rest) :
    tokensOf (c :: cs) = (tokensOf rest).map (t :: ·) := by
  rw [tokensOf, if_neg (by simp [hc])]
  split
  · rename_i hm
    obtain ⟨rfl, -, rfl⟩ : t = _ ∧ slice = _ ∧ rest = _ := by simpa using h.symm.trans hm
    rfl
  · rename_i hm
    exact absurd (h.symm.trans hm) (by simp)

lemma tokensOf_of_rejected (hc : isTokenBlank c = false) (h : munch c cs = .rejected slice) :
    tokensOf (c :: cs) = none := by
  rw [tokensOf, if_neg (by simp [hc])]
  split
  · rename_i hm
    exact absurd (h.symm.trans hm) (by simp)
  · rfl

end

/-- The tokens of a result without their spans. -/
def unplaced (r : Except Rejection (List Lexeme)) : Option (List Token) :=
  r.toOption.map (List.map Lexeme.token)

lemma unplaced_tokensFrom (position : Nat) (before : List Lexeme) (cs : List Char) :
    unplaced (tokensFrom position before cs) =
      (tokensOf cs).map (before.reverse.map Lexeme.token ++ ·) := by
  fun_induction tokensFrom position before cs with
  | case1 position before => simp [unplaced, Except.toOption]
  | case2 position before c cs hc ih => rw [tokensOf_of_blank hc, ih]
  | case3 position before c cs hc token slice rest hm stop ih =>
    rw [tokensOf_of_munch (by simpa using hc) hm, ih, Option.map_map]
    congr 1
    funext ts
    simp
  | case4 position before c cs hc slice hm =>
    rw [tokensOf_of_rejected (by simpa using hc) hm]
    rfl

theorem tokensOf_eq (cs : List Char) : tokensOf cs = unplaced (tokenize cs) := by
  simp [tokenize, unplaced_tokensFrom]

lemma exists_tokenize_of_tokensOf {cs : List Char} {ts : List Token} (h : tokensOf cs = some ts) :
    ∃ ls, tokenize cs = .ok ls ∧ ls.map Lexeme.token = ts := by
  rw [tokensOf_eq] at h
  cases hls : tokenize cs with
  | error r => exact absurd h (by simp [hls, unplaced, Except.toOption])
  | ok ls => exact ⟨ls, rfl, by simpa [hls, unplaced, Except.toOption] using h⟩

lemma tokensOf_of_tokenize {cs : List Char} {ls : List Lexeme} (h : tokenize cs = .ok ls) :
    tokensOf cs = some (ls.map Lexeme.token) := by
  rw [tokensOf_eq, h]
  rfl

/-! ## Kinds of characters -/

/-- Blanks are of no kind that none of them is of. -/
lemma isTokenBlank_eq_false_of {p : Char → Bool}
    (hp : [' ', '\t', '\n', '\r'].all (fun d => !p d) = true) {c : Char} (h : p c = true) :
    isTokenBlank c = false := by
  rw [Bool.eq_false_iff]
  intro hblank
  have hmem : c ∈ [' ', '\t', '\n', '\r'] := by simpa [isTokenBlank, or_assoc] using hblank
  have hc := List.all_eq_true.1 hp c hmem
  rw [h] at hc
  exact absurd hc (by simp)

lemma isTokenBlank_of_isNameStart {c : Char} (h : isNameStart c = true) :
    isTokenBlank c = false :=
  isTokenBlank_eq_false_of rfl h

/-- Quotes are of no kind that neither of the two is of. -/
lemma isQuote_eq_false_of {p : Char → Bool} (hdouble : p '\x22' = false) (hsingle : p '\x27' = false)
    {c : Char} (h : p c = true) : isQuote c = false := by
  simp only [isQuote, Bool.or_eq_false_iff, decide_eq_false_iff_not]
  constructor <;> rintro rfl
  · exact absurd h (by simp [hdouble])
  · exact absurd h (by simp [hsingle])

/-! ## Runs through quoted texts -/

section
variable {q : Char} {taken : List Char}

lemma quotedRun_append {cs rest : List Char} (h : ∀ c ∈ cs, c ≠ q ∧ c ≠ '\\') :
    quotedRun q taken (cs ++ rest) = quotedRun q (cs.reverse ++ taken) rest := by
  induction cs generalizing taken with
  | nil => rfl
  | cons c cs ih =>
    obtain ⟨hq, hescape⟩ := h c List.mem_cons_self
    rw [List.cons_append, quotedRun, if_neg hq, ih fun d hd => h d (List.mem_cons_of_mem c hd)]
    · simp
    · exact fun h => absurd h hescape
    · exact fun _ _ h => absurd h hescape

lemma quotedRun_escape {c : Char} {cs rest : List Char} (hc : c ≠ '\n')
    (h : ∀ d ∈ cs, d ≠ q ∧ d ≠ '\\') :
    quotedRun q taken ('\\' :: c :: cs ++ rest) =
      quotedRun q (('\\' :: c :: cs).reverse ++ taken) rest := by
  rw [List.cons_append, List.cons_append, quotedRun, if_neg hc, quotedRun_append h]
  simp

end

/-! ## One text after the other -/

/-- What the tokens of two texts come to together, if both are made of tokens. -/
def joinTokens (ts us : Option (List Token)) : Option (List Token) :=
  ts.bind fun ts => us.map (ts ++ ·)

section
variable {ts us : Option (List Token)} {t : Token}

@[simp] lemma joinTokens_none : joinTokens none us = none := rfl

@[simp] lemma joinTokens_nil : joinTokens (some []) us = us := by
  cases us <;> rfl

lemma joinTokens_cons : joinTokens (ts.map (t :: ·)) us = (joinTokens ts us).map (t :: ·) := by
  cases ts with
  | none => rfl
  | some ts => cases us <;> rfl

lemma joinTokens_eq_some {vs : List Token} :
    joinTokens ts us = some vs ↔ ∃ as bs, ts = some as ∧ us = some bs ∧ as ++ bs = vs := by
  cases ts with
  | none => simp
  | some as => cases us <;> simp [joinTokens]

end

/-- What follows a text and runs together with none of its tokens. -/
def Apart (cs rest : List Char) : Prop :=
  ∀ c ∈ rest.head?, c = ' ' ∨ c = '_' ∧ ∀ d ∈ cs.getLast?, isNameChar d = false

section
variable {cs rest : List Char}

lemma Apart.suffix {pre : List Char} (h : Apart (pre ++ cs) rest) : Apart cs rest := by
  intro c hc
  refine (h c hc).imp id (And.imp id fun hlast d hd => hlast d ?_)
  rw [List.getLast?_append, hd]
  rfl

lemma Apart.stops_isNumeralChar (h : Apart cs rest) : Stops Numeral.isNumeralChar rest := by
  intro c hc
  rcases h c hc with rfl | ⟨rfl, -⟩ <;> decide

lemma Apart.stops_isNameChar (h : Apart cs rest) (hne : cs ≠ [])
    (hcs : ∀ c ∈ cs, isNameChar c = true) : Stops isNameChar rest := by
  intro c hc
  rcases h c hc with rfl | ⟨rfl, hlast⟩
  · decide
  · have := hlast _ (List.getLast?_eq_some_getLast hne)
    rw [hcs _ (List.getLast_mem hne)] at this
    exact absurd this (by simp)

/-- The characters that marks begin with. -/
def markStarts : List Char :=
  ['=', '!', '<', '>', '(', ')', ',', '?', ':', '+', '-', '*', '/', '%', '^']

lemma scanMark_eq_none {c : Char} (h : c ∉ markStarts) : scanMark (c :: cs) = none := by
  unfold scanMark
  split
  case h_19 => rfl
  all_goals
    rename_i heq
    obtain ⟨rfl, -⟩ := List.cons.inj heq
    exact absurd (by decide) h

/-- What follows a mark of one character is left. -/
lemma scanMark_cons {c : Char} (h : ∀ d ∈ cs.head?, d ≠ '=') :
    scanMark (c :: cs) = (scanMark [c]).map fun m => (m.1, cs) := by
  by_cases hc : c ∈ markStarts
  · simp only [markStarts, List.mem_cons, List.not_mem_nil, or_false] at hc
    cases cs with
    | nil =>
      rcases hc with rfl | rfl | rfl | rfl | rfl | rfl | rfl | rfl | rfl | rfl | rfl | rfl | rfl |
        rfl | rfl <;> rfl
    | cons d more =>
      have hd : d ≠ '=' := h d rfl
      rcases hc with rfl | rfl | rfl | rfl | hc
      · simp [scanMark, hd]
      · simp [scanMark, hd]
      · simp [scanMark, hd]
      · simp [scanMark, hd]
      · rcases hc with rfl | rfl | rfl | rfl | rfl | rfl | rfl | rfl | rfl | rfl | rfl <;> rfl
  · rw [scanMark_eq_none hc, scanMark_eq_none hc]
    rfl

/-- A mark is read alike whatever follows it but an equals sign. -/
lemma scanMark_append {c : Char} (h : ∀ d ∈ rest.head?, d ≠ '=') :
    scanMark (c :: cs ++ rest) = (scanMark (c :: cs)).map (Prod.map id (· ++ rest)) := by
  -- no mark has more than two characters, and the second can only be an equals sign
  by_cases hcs : ∃ more, cs = '=' :: more
  · obtain ⟨more, rfl⟩ := hcs
    by_cases hc : c ∈ markStarts
    · simp only [markStarts, List.mem_cons, List.not_mem_nil, or_false] at hc
      rcases hc with rfl | rfl | rfl | rfl | rfl | rfl | rfl | rfl | rfl | rfl | rfl | rfl | rfl |
        rfl | rfl <;> rfl
    · rw [List.cons_append, scanMark_eq_none hc, scanMark_eq_none hc]
      rfl
  · have hhead : ∀ d ∈ cs.head?, d ≠ '=' := by
      rintro d hd rfl
      exact hcs (List.head?_eq_some_iff.1 hd)
    have happ : ∀ d ∈ (cs ++ rest).head?, d ≠ '=' := by
      intro d hd
      cases cs with
      | nil => exact h d hd
      | cons c cs => exact hhead d hd
    rw [List.cons_append, scanMark_cons happ, scanMark_cons hhead]
    cases scanMark [c] <;> rfl

/-- What is found at the front of a text, when another follows. -/
def Munch.before (rest : List Char) : Munch → Munch
  | token t slice rest' => .token t slice (rest' ++ rest)
  | rejected slice => .rejected slice

lemma munch_append {c : Char} (hc : isQuote c = false) (h : Apart (c :: cs) rest) :
    munch c (cs ++ rest) = (munch c cs).before rest := by
  unfold munch
  by_cases hstart : isNameStart c = true
  · -- a word that fills the text ends with a character of names, and then a blank follows
    have hword : (∀ d ∈ cs, isNameChar d = true) → Stops isNameChar rest := by
      intro hcs
      refine h.stops_isNameChar (by simp) fun d hd => ?_
      rcases List.mem_cons.1 hd with rfl | hd
      · exact isNameChar_of_isNameStart hstart
      · exact hcs d hd
    simp only [hstart, if_true, takeWhile_append_of_stops hword, dropWhile_append_of_stops hword]
    rfl
  · have hnumeral : Numeral.scan (c :: cs ++ rest) = _ := Numeral.scan_append h.stops_isNumeralChar
    have hmark : scanMark (c :: cs ++ rest) = _ := scanMark_append fun d hd => by
      rcases h d hd with rfl | ⟨rfl, -⟩ <;> decide
    rw [List.cons_append] at hnumeral hmark
    simp only [hstart, hc, Bool.false_eq_true, if_false, hnumeral, hmark]
    rcases Numeral.scan (c :: cs) with _ | ⟨n, more⟩
    · rcases scanMark (c :: cs) with _ | ⟨m, more⟩
      · rfl
      · rfl
    · rfl

/-- A text without quotes and one that is kept apart from it have the tokens that each has alone. -/
theorem tokensOf_append (hcs : ∀ c ∈ cs, isQuote c = false) (h : Apart cs rest) :
    tokensOf (cs ++ rest) = joinTokens (tokensOf cs) (tokensOf rest) := by
  -- both conditions pass to what is left after a token, which is a suffix
  fun_induction tokensOf cs with
  | case1 => rw [List.nil_append, joinTokens_nil]
  | case2 c cs hc ih =>
    rw [List.cons_append, tokensOf_of_blank hc]
    have hsuffix : Apart ([c] ++ cs) rest := h
    exact ih (fun d hd => hcs d (List.mem_cons_of_mem c hd)) hsuffix.suffix
  | case3 c cs hc t slice more hm ih =>
    have hsplit := append_of_munch hm
    have happ := munch_append (hcs c List.mem_cons_self) h
    rw [hm, Munch.before] at happ
    rw [List.cons_append, tokensOf_of_munch (by simpa using hc) happ, joinTokens_cons]
    rw [← hsplit] at h hcs
    rw [ih (fun d hd => hcs d (List.mem_append_right slice hd)) h.suffix]
  | case4 c cs hc slice hm =>
    have happ := munch_append (hcs c List.mem_cons_self) h
    rw [hm, Munch.before] at happ
    rw [List.cons_append, tokensOf_of_rejected (by simpa using hc) happ, joinTokens_none]

end

/-! ## Names -/

lemma munch_name {c : Char} {cs rest : List Char} (hname : isNameText (c :: cs) = true)
    (h : Stops isNameChar rest) :
    munch c (cs ++ rest) = .token (wordToken (c :: cs)) (c :: cs) rest := by
  obtain ⟨hc, hcs⟩ : isNameStart c = true ∧ ∀ d ∈ cs, isNameChar d = true := by
    simpa [isNameText] using hname
  simp only [munch, hc, if_true, takeWhile_run hcs h, dropWhile_run hcs h]

/-- A name that is no word of the grammar is one token before what cannot continue it. -/
theorem tokensOf_name_append {name rest : List Char} (hname : isNameText name = true)
    (htoken : wordToken name = .name (String.ofList name)) (h : Stops isNameChar rest) :
    tokensOf (name ++ rest) = (tokensOf rest).map (.name (String.ofList name) :: ·) := by
  cases name with
  | nil => exact absurd hname (by simp [isNameText])
  | cons c cs =>
    have hc : isNameStart c = true := (Bool.and_eq_true_iff.1 hname).1
    rw [← htoken]
    exact tokensOf_of_munch (isTokenBlank_of_isNameStart hc) (munch_name hname h)

/-- A text that is a name and no word of the grammar is one token. -/
lemma tokenize_name {name : List Char} (hname : isNameText name = true)
    (htoken : wordToken name = .name (String.ofList name)) :
    tokenize name = .ok [⟨.name (String.ofList name), ⟨0, byteLength name⟩⟩] := by
  cases name with
  | nil => exact absurd hname (by simp [isNameText])
  | cons c cs =>
    have hc : isNameStart c = true := (Bool.and_eq_true_iff.1 hname).1
    have hblank := isTokenBlank_of_isNameStart hc
    have hmunch := munch_name hname Stops.nil
    rw [List.append_nil] at hmunch
    rw [tokenize, tokensFrom, if_neg (by simp [hblank])]
    split
    · rename_i hm
      obtain ⟨rfl, rfl, rfl⟩ := Munch.token.inj (hmunch.symm.trans hm)
      dsimp only
      rw [tokensFrom, htoken, Nat.zero_add]
      rfl
    · rename_i hm
      exact absurd (hmunch.symm.trans hm) (by simp)

lemma toList_of_munch_name {c : Char} {cs slice rest : List Char} {name : String}
    (h : munch c cs = .token (.name name) slice rest) : name.toList = slice := by
  unfold munch at h
  split at h
  · obtain ⟨hword, hslice, -⟩ := Munch.token.inj h
    rw [← hslice]
    unfold wordToken at hword
    split_ifs at hword
    obtain rfl := Token.name.inj hword
    exact String.toList_ofList
  · -- quoted texts, numbers and marks are no names
    split at h
    · dsimp only at h
      split at h
      · exact absurd (Munch.token.inj h).1 (by simp)
      · exact absurd h (by simp)
    · split at h
      · exact absurd (Munch.token.inj h).1 (by simp)
      · split at h
        · exact absurd (Munch.token.inj h).1 (by simp)
        · exact absurd h (by simp)

/-- A name among the tokens of a text stands in the text. -/
theorem name_infix_of_tokensOf {cs : List Char} {ts : List Token} {name : String}
    (h : tokensOf cs = some ts) (hname : Token.name name ∈ ts) : name.toList <:+: cs := by
  fun_induction tokensOf cs generalizing ts with
  | case1 =>
    obtain rfl := Option.some.inj h
    exact absurd hname List.not_mem_nil
  | case2 c cs hc ih => exact (ih h hname).trans (List.suffix_cons c cs).isInfix
  | case3 c cs hc t slice rest hm ih =>
    obtain ⟨us, hus, rfl⟩ := Option.map_eq_some_iff.1 h
    rw [← append_of_munch hm]
    rcases List.mem_cons.1 hname with rfl | hname
    · rw [toList_of_munch_name hm]
      exact (List.prefix_append slice rest).isInfix
    · exact (ih hus hname).trans (List.suffix_append slice rest).isInfix
  | case4 c cs hc slice hm => exact absurd h (by simp)

/-! ## Numerals -/

lemma isNameStart_of_isDigit {c : Char} (h : c.isDigit = true) : isNameStart c = false := by
  have hgreatest : c.val ≤ '9'.val := of_decide_eq_true (Bool.and_eq_true_iff.1 h).2
  have hunderscore : c ≠ '_' := by
    rintro rfl
    exact absurd h (by decide)
  -- the letters come after the digits
  have hupper : ¬ 'A'.val ≤ c.val := fun hle => absurd (UInt32.le_trans hle hgreatest) (by decide)
  have hlower : ¬ 'a'.val ≤ c.val := fun hle => absurd (UInt32.le_trans hle hgreatest) (by decide)
  have halpha : c.isAlpha = false := Bool.or_eq_false_iff.2
    ⟨decide_eq_false fun h => hupper h.1, Bool.and_eq_false_iff.2 (.inl (decide_eq_false hlower))⟩
  simp [isNameStart, halpha, hunderscore]

section
variable {c : Char} {cs slice rest : List Char} {t : Token}

lemma munch_numeral {n : Numeral} (hscan : Numeral.scan (c :: cs) = some (n, rest)) :
    munch c cs = .token (.number n.value.toFloat) n.text rest := by
  -- a numeral begins with a digit or a point, which begin no name and no quoted text
  have hkinds : isNameStart c = false ∧ isQuote c = false := by
    rcases Numeral.isDigit_or_point_of_scan hscan with hdigit | rfl
    · exact ⟨isNameStart_of_isDigit hdigit, isQuote_eq_false_of rfl rfl hdigit⟩
    · exact ⟨rfl, rfl⟩
  simp [munch, hkinds, hscan]

/-- Whether tokens can begin with a character. -/
def isTokenStart (c : Char) : Bool :=
  isNameStart c || isQuote c || c.isDigit || c == '.' || markStarts.contains c

lemma isTokenStart_of_munch (h : munch c cs = .token t slice rest) : isTokenStart c = true := by
  by_contra hc
  have hkinds : isNameStart c = false ∧ isQuote c = false ∧ c.isDigit = false ∧ c ≠ '.' ∧
      c ∉ markStarts := by
    simpa [isTokenStart, and_assoc] using hc
  obtain ⟨hstart, hquote, hdigit, hpoint, hmark⟩ := hkinds
  simp [munch, hstart, hquote, Numeral.scan_eq_none hdigit hpoint, scanMark_eq_none hmark] at h

/-- No token begins with a blank. -/
lemma isTokenBlank_of_munch (h : munch c cs = .token t slice rest) : isTokenBlank c = false :=
  isTokenBlank_eq_false_of rfl (isTokenStart_of_munch h)

/-- A numeral is one token before what cannot continue it. -/
theorem tokensOf_numeral_append {n : Numeral} (hscan : Numeral.scan cs = some (n, []))
    (h : Stops Numeral.isNumeralChar rest) :
    tokensOf (cs ++ rest) = (tokensOf rest).map (.number n.value.toFloat :: ·) := by
  have happ : Numeral.scan (cs ++ rest) = _ := Numeral.scan_append h
  rw [hscan] at happ
  cases cs with
  | nil => exact absurd hscan (by simp [Numeral.scan])
  | cons c cs =>
    have hmunch := munch_numeral happ
    exact tokensOf_of_munch (isTokenBlank_of_munch hmunch) hmunch

end

/-! ## Texts without quotes -/

/-- A token that is no quoted text is written without quotes. -/
lemma isQuote_of_mem_slice {c : Char} {cs slice rest : List Char} {t : Token}
    (h : munch c cs = .token t slice rest) (ht : ∀ s, t ≠ .text s) :
    ∀ d ∈ slice, isQuote d = false := by
  rw [munch] at h
  split at h
  · rename_i hc
    obtain ⟨-, rfl, -⟩ : _ ∧ _ ∧ _ := by simpa using h
    intro d hd
    rcases List.mem_cons.1 hd with rfl | hd
    · exact isQuote_eq_false_of rfl rfl hc
    · exact isQuote_eq_false_of rfl rfl (List.mem_takeWhile_imp hd)
  · split at h
    · dsimp only at h
      split at h
      · obtain ⟨rfl, -, -⟩ : _ ∧ _ ∧ _ := by simpa using h
        exact absurd rfl (ht _)
      · exact absurd h (by simp)
    · split at h
      · rename_i hn
        obtain ⟨-, rfl, -⟩ : _ ∧ _ ∧ _ := by simpa using h
        intro d hd
        exact isQuote_eq_false_of rfl rfl (Numeral.isNumeralChar_of_mem_scan hn d hd)
      · split at h
        · rename_i m _ _
          obtain ⟨-, rfl, -⟩ : _ ∧ _ ∧ _ := by simpa using h
          have hmark : m.spelling.toList.all (!isQuote ·) = true := by cases m <;> rfl
          simpa using hmark
        · exact absurd h (by simp)

/-- A text whose tokens are no quoted texts holds no quote. -/
theorem isQuote_of_tokensOf {cs : List Char} {ts : List Token} (h : tokensOf cs = some ts)
    (hts : ∀ s, Token.text s ∉ ts) : ∀ c ∈ cs, isQuote c = false := by
  fun_induction tokensOf cs generalizing ts with
  | case1 => simp
  | case2 c cs hc ih =>
    intro d hd
    rcases List.mem_cons.1 hd with rfl | hd
    · exact isQuote_eq_false_of rfl rfl hc
    · exact ih h hts d hd
  | case3 c cs hc t slice rest hm ih =>
    obtain ⟨us, hus, rfl⟩ := Option.map_eq_some_iff.1 h
    intro d hd
    rw [← append_of_munch hm] at hd
    rcases List.mem_append.1 hd with hd | hd
    · refine isQuote_of_mem_slice hm ?_ d hd
      rintro s rfl
      exact hts s List.mem_cons_self
    · exact ih hus (fun s hs => hts s (List.mem_cons_of_mem t hs)) d hd
  | case4 c cs hc slice hm => exact absurd h (by simp)

end Formulary
