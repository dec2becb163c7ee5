import Formulary.Proofs.Number.Pattern
import Formulary.Proofs.Token.Juxtaposition
/-!
# The patterns of tokens

Each kind of token has a pattern, and a text of the pattern denotes one token (`Denotes`); a word that
could be a mark or a name is the mark. What is taken off the front of a text denotes the token that it
is taken for (`denotes_of_munch`), nothing longer at the front is in a pattern (`length_le_of_munch`),
and where nothing is taken no text of a pattern is at the front (`not_mem_of_rejected`).
-/

namespace Formulary

open Computability

/-- What quoted texts are made of: any character but the quote and the backslash, and a backslash with
any character but a newline. -/
def quotedUnit (q : Char) : Language Char :=
  oneOf (fun c => c ≠ q && c ≠ '\\') + literal ['\\'] * oneOf fun c => c ≠ '\n'

/-- Quoted texts, with their quotes. -/
def quotedPattern (q : Char) : Language Char :=
  literal [q] * ((quotedUnit q)∗ * literal [q])

/-- A letter or an underscore, and then letters, digits and underscores. -/
def namePattern : Language Char :=
  oneOf isNameStart * (oneOf isNameChar)∗

/-- The spellings of the marks. -/
def markPattern : Language Char :=
  {cs | ∃ m : Mark, cs = m.spelling.toList}

/-- The texts of tokens. -/
def tokenPattern : Language Char :=
  markPattern + numeralPattern + (quotedPattern '\x22' + quotedPattern '\x27') + namePattern

/-- The token that a text of a pattern is. -/
inductive Denotes : List Char → Token → Prop
  | mark (m : Mark) : Denotes m.spelling.toList (.mark m)
  | number {cs : List Char} {x : Float} : cs ∈ numeralPattern → readNumber (String.ofList cs) = .ok x →
    Denotes cs (.number x)
  | text {q : Char} {cs : List Char} : isQuote q = true → cs ∈ quotedPattern q →
    Denotes cs (.text (String.ofList (unescape cs.tail.dropLast)))
  | name {cs : List Char} : cs ∈ namePattern → cs ∉ markPattern → Denotes cs (.name (String.ofList cs))

section
variable {c q : Char} {cs slice rest more s : List Char} {t : Token}

/-! ## Quoted texts -/

lemma isNameStart_eq_false_of_isQuote (hq : isQuote q = true) : isNameStart q = false := by
  rcases (by simpa [isQuote] using hq : q = '\x22' ∨ q = '\x27') with rfl | rfl <;> decide

lemma mem_quotedPattern :
    cs ∈ quotedPattern q ↔ ∃ inner ∈ (quotedUnit q)∗, cs = q :: (inner ++ [q]) := by
  rw [quotedPattern, mem_literal_mul]
  constructor
  · rintro ⟨_, hds, rfl⟩
    obtain ⟨inner, hinner, rfl⟩ := mem_mul_literal.1 hds
    exact ⟨inner, hinner, rfl⟩
  · rintro ⟨inner, hinner, rfl⟩
    exact ⟨_, mem_mul_literal.2 ⟨inner, hinner, rfl⟩, rfl⟩

/-- A quoted text runs to the quote after the units that it is made of. -/
lemma quotedRun_of_mem {inner taken : List Char} (hq : isQuote q = true) (h : inner ∈ (quotedUnit q)∗) :
    quotedRun q taken (inner ++ q :: rest) = ⟨taken.reverse ++ inner, true, rest⟩ := by
  have hescape : q ≠ '\\' := by
    rintro rfl
    exact absurd hq (by decide)
  obtain ⟨units, rfl, hunits⟩ := Language.mem_kstar.1 h
  clear h
  induction units generalizing taken with
  | nil =>
    rw [List.flatten_nil, List.nil_append, List.append_nil, quotedRun, if_pos rfl]
    · exact fun h => absurd h hescape
    · exact fun _ _ h => absurd h hescape
  | cons unit units ih =>
    obtain ⟨hunit, hunits⟩ := List.forall_mem_cons.1 hunits
    have hrun : quotedRun q taken (unit ++ (units.flatten ++ q :: rest)) =
        quotedRun q (unit.reverse ++ taken) (units.flatten ++ q :: rest) := by
      rcases hunit with ⟨c, hc, rfl⟩ | hunit
      · exact quotedRun_append (by simpa using hc)
      · obtain ⟨_, ⟨c, hc, rfl⟩, rfl⟩ := mem_literal_mul.1 hunit
        exact quotedRun_escape (by simpa using hc) (by simp)
    rw [List.flatten_cons, List.append_assoc, hrun, ih hunits]
    simp

/-- What is run through up to a closing quote is made of units. -/
lemma exists_mem_of_quotedRun {taken : List Char} (h : (quotedRun q taken cs).closed = true) :
    ∃ inner ∈ (quotedUnit q)∗, (quotedRun q taken cs).taken = taken.reverse ++ inner := by
  fun_induction quotedRun q taken cs with
  | case1 => cases h
  | case2 => cases h
  | case3 => cases h
  | case4 taken c cs hc ih =>
    obtain ⟨inner, hinner, htaken⟩ := ih h
    have hunit : ['\\', c] ∈ quotedUnit q :=
      .inr (mem_literal_mul.2 ⟨[c], ⟨c, by simpa using hc, rfl⟩, rfl⟩)
    exact ⟨_, append_mem_kstar hunit hinner, by simp [htaken]⟩
  | case5 taken c cs => exact ⟨[], Language.nil_mem_kstar _, by simp⟩
  | case6 taken c cs hend hescape hc ih =>
    obtain ⟨inner, hinner, htaken⟩ := ih h
    have hbackslash : c ≠ '\\' := by
      rintro rfl
      cases cs with
      | nil => exact hend rfl rfl
      | cons d cs => exact hescape d cs rfl rfl
    have hunit : [c] ∈ quotedUnit q := .inl ⟨c, by simpa using ⟨hc, hbackslash⟩, rfl⟩
    exact ⟨_, append_mem_kstar hunit hinner, by simp [htaken]⟩

/-! ## Words -/

lemma mem_namePattern : cs ∈ namePattern ↔ isNameText cs = true := by
  rw [namePattern, mem_oneOf_mul]
  cases cs with
  | nil => simp [isNameText]
  | cons c cs =>
    simp only [isNameText, Bool.and_eq_true, List.all_eq_true, ← mem_many]
    constructor
    · rintro ⟨d, ds, hcs, hd, hds⟩
      obtain ⟨rfl, rfl⟩ := List.cons.inj hcs
      exact ⟨hd, hds⟩
    · rintro ⟨hc, hcs⟩
      exact ⟨c, cs, rfl, hc, hcs⟩

/-- The marks that are written as names. -/
def Mark.isWord : Mark → Bool
  | and | or | not => true
  | _ => false

lemma isNameText_spelling (m : Mark) : isNameText m.spelling.toList = m.isWord := by
  cases m <;> decide

lemma wordToken_spelling {m : Mark} (hm : m.isWord = true) : wordToken m.spelling.toList = .mark m := by
  cases m with
  | and | or | not => rfl
  | _ => cases hm

/-- A word is the mark that it spells, or else a name. -/
lemma denotes_wordToken (h : isNameText cs = true) : Denotes cs (wordToken cs) := by
  unfold wordToken
  split_ifs with hand hor hnot
  · exact hand ▸ .mark .and
  · exact hor ▸ .mark .or
  · exact hnot ▸ .mark .not
  · refine .name (mem_namePattern.2 h) ?_
    rintro ⟨m, rfl⟩
    rw [isNameText_spelling] at h
    cases m with
    | and => exact hand rfl
    | or => exact hor rfl
    | not => exact hnot rfl
    | _ => cases h

lemma wordToken_of_not_mem (h : cs ∉ markPattern) : wordToken cs = .name (String.ofList cs) := by
  unfold wordToken
  split_ifs with hand hor hnot
  · exact absurd ⟨.and, hand⟩ h
  · exact absurd ⟨.or, hor⟩ h
  · exact absurd ⟨.not, hnot⟩ h
  · rfl

/-! ## Marks -/

lemma mem_markStarts_of_scanMark {m : Mark} (h : scanMark (c :: cs) = some (m, rest)) :
    c ∈ markStarts := by
  by_contra hc
  rw [scanMark_eq_none hc] at h
  cases h

/-- What comes after the first character of a mark can only make the mark a longer one. -/
lemma exists_scanMark_cons {m m' : Mark} (h : scanMark [c] = some (m, []))
    (h' : ∀ more, scanMark (c :: '=' :: more) = some (m', more))
    (hlength : m.spelling.toList.length ≤ m'.spelling.toList.length) (more : List Char) :
    ∃ m'' rest, scanMark (c :: more) = some (m'', rest) ∧
      m.spelling.toList.length ≤ m''.spelling.toList.length ∧ (more = [] → m'' = m) := by
  by_cases hmore : ∃ rest, more = '=' :: rest
  · obtain ⟨rest, rfl⟩ := hmore
    exact ⟨m', rest, h' rest, hlength, by simp⟩
  · have hhead : ∀ d ∈ more.head?, d ≠ '=' := by
      rintro d hd rfl
      exact hmore (List.head?_eq_some_iff.1 hd)
    exact ⟨m, more, by rw [scanMark_cons hhead, h]; rfl, le_rfl, fun _ => rfl⟩

/-- A mark that is no word is taken off the front, or a longer one is; if nothing comes after it, then
it is that mark. -/
lemma exists_scanMark {m : Mark} (hm : m.isWord = false) (h : m.spelling.toList ++ more = c :: cs) :
    ∃ m' rest, scanMark (c :: cs) = some (m', rest) ∧
      m.spelling.toList.length ≤ m'.spelling.toList.length ∧ (more = [] → m' = m) := by
  rw [← h]
  cases m with
  | and | or | not => cases hm
  | bang => exact exists_scanMark_cons rfl (fun _ => rfl) (by decide) more
  | less => exact exists_scanMark_cons rfl (fun _ => rfl) (by decide) more
  | greater => exact exists_scanMark_cons rfl (fun _ => rfl) (by decide) more
  | _ => exact ⟨_, _, rfl, le_rfl, fun _ => rfl⟩

/-! ## What is taken off the front -/

lemma munch_word (hc : isNameStart c = true) :
    munch c cs = .token (wordToken (c :: cs.takeWhile isNameChar)) (c :: cs.takeWhile isNameChar)
      (cs.dropWhile isNameChar) := by
  rw [munch, if_pos hc]

lemma munch_quoted {inner : List Char} (hc : isQuote c = true)
    (hrun : quotedRun c [] cs = ⟨inner, true, rest⟩) :
    munch c cs = .token (.text (String.ofList (unescape inner))) (c :: inner ++ [c]) rest := by
  simp [munch, isNameStart_eq_false_of_isQuote hc, hc, hrun]

lemma munch_mark {m : Mark} (hscan : scanMark (c :: cs) = some (m, rest)) :
    munch c cs = .token (.mark m) m.spelling.toList rest := by
  have hstarts : markStarts.all (fun d => !isNameStart d && !isQuote d && !d.isDigit && d != '.') =
      true := rfl
  have hkinds : isNameStart c = false ∧ isQuote c = false ∧ c.isDigit = false ∧ c ≠ '.' := by
    simpa [and_assoc] using List.all_eq_true.1 hstarts c (mem_markStarts_of_scanMark hscan)
  obtain ⟨hstart, hquote, hdigit, hpoint⟩ := hkinds
  simp [munch, hstart, hquote, Numeral.scan_eq_none hdigit hpoint, hscan]

/-- What is taken off the front denotes the token that it is taken for. -/
theorem denotes_of_munch (h : munch c cs = .token t slice rest) : Denotes slice t := by
  unfold munch at h
  split at h
  · rename_i hc
    obtain ⟨rfl, rfl, -⟩ := Munch.token.inj h
    refine denotes_wordToken (Bool.and_eq_true_iff.2 ⟨hc, List.all_eq_true.2 fun d hd => ?_⟩)
    exact List.mem_takeWhile_imp hd
  · split at h
    · rename_i hquote
      dsimp only at h
      split at h
      · rename_i hclosed
        obtain ⟨rfl, rfl, -⟩ := Munch.token.inj h
        obtain ⟨inner, hinner, htaken⟩ := exists_mem_of_quotedRun hclosed
        have htext := Denotes.text hquote (mem_quotedPattern.2 ⟨inner, hinner, rfl⟩)
        simpa [htaken] using htext
      · cases h
    · split at h
      · rename_i n _ hscan
        obtain ⟨rfl, rfl, -⟩ := Munch.token.inj h
        have hn := Numeral.proper_of_scan hscan
        exact .number (Numeral.mem_numeralPattern.2 ⟨n, hn, rfl⟩) (readNumber_text hn)
      · split at h
        · rename_i m _ _
          obtain ⟨rfl, rfl, -⟩ := Munch.token.inj h
          exact .mark m
        · cases h

/-- A word at the front is taken off, or a longer one is; if nothing comes after it, it is that word. -/
lemma exists_munch_word (hs : isNameText s = true) (h : s ++ more = c :: cs) :
    ∃ slice rest, munch c cs = .token (wordToken slice) slice rest ∧ s.length ≤ slice.length ∧
      (more = [] → slice = s) := by
  cases s with
  | nil => cases hs
  | cons d ds =>
    rw [List.cons_append] at h
    obtain ⟨rfl, rfl⟩ := List.cons.inj h
    obtain ⟨hd, hds⟩ : isNameStart d = true ∧ ∀ e ∈ ds, isNameChar e = true := by
      simpa [isNameText] using hs
    refine ⟨_, _, munch_word hd, ?_, ?_⟩
    · simp [List.takeWhile_append_of_pos hds]
    · rintro rfl
      rw [List.append_nil, List.takeWhile_eq_self_iff.2 hds]

/-- Where a text that denotes a token is at the front, it is taken off, or a longer one is; if nothing
comes after it, it is taken for that token. -/
theorem exists_munch (hs : Denotes s t) (h : s ++ more = c :: cs) :
    ∃ t' slice rest, munch c cs = .token t' slice rest ∧ s.length ≤ slice.length ∧
      (more = [] → t' = t) := by
  cases hs with
  | mark m =>
    cases hm : m.isWord with
    | true =>
      have hword : isNameText m.spelling.toList = true := isNameText_spelling m ▸ hm
      obtain ⟨slice, rest, hmunch, hlength, hslice⟩ := exists_munch_word hword h
      exact ⟨_, slice, rest, hmunch, hlength, fun hmore => by rw [hslice hmore, wordToken_spelling hm]⟩
    | false =>
      obtain ⟨m', rest, hscan, hlength, hm'⟩ := exists_scanMark hm h
      exact ⟨_, _, rest, munch_mark hscan, hlength, fun hmore => by rw [hm' hmore]⟩
  | name hname hmark =>
    obtain ⟨slice, rest, hmunch, hlength, hslice⟩ := exists_munch_word (mem_namePattern.1 hname) h
    exact ⟨_, slice, rest, hmunch, hlength, fun hmore => by
      rw [hslice hmore, wordToken_of_not_mem hmark]⟩
  | @text q _ hq hs =>
    obtain ⟨inner, hinner, rfl⟩ := mem_quotedPattern.1 hs
    obtain ⟨rfl, rfl⟩ : q = c ∧ inner ++ q :: more = cs := by simpa using h
    refine ⟨_, _, _, munch_quoted hq (quotedRun_of_mem hq hinner), by simp, fun _ => by simp⟩
  | number hs hx =>
    obtain ⟨n, hn, rfl⟩ := Numeral.mem_numeralPattern.1 hs
    obtain ⟨n', rest, hscan, hlength⟩ := Numeral.exists_scan hn more
    refine ⟨_, _, rest, munch_numeral (h ▸ hscan), hlength, ?_⟩
    rintro rfl
    rw [List.append_nil, Numeral.scan_text hn] at hscan
    obtain ⟨rfl, -⟩ := Prod.mk.inj (Option.some.inj hscan)
    rw [readNumber_text hn] at hx
    rw [Except.ok.inj hx]

/-! ## The texts of tokens -/

lemma Denotes.ne_nil (h : Denotes s t) : s ≠ [] := by
  cases h with
  | mark m => cases m <;> decide
  | number hs =>
    obtain ⟨n, hn, rfl⟩ := Numeral.mem_numeralPattern.1 hs
    exact Numeral.text_ne_nil_of_scan (Numeral.scan_text hn)
  | text _ hs =>
    obtain ⟨inner, -, rfl⟩ := mem_quotedPattern.1 hs
    exact List.cons_ne_nil _ _
  | name hs _ =>
    rintro rfl
    cases mem_namePattern.1 hs

/-- A text denotes one token at most. -/
theorem Denotes.unique {t' : Token} (h : Denotes s t) (h' : Denotes s t') : t = t' := by
  obtain ⟨c, cs, rfl⟩ := List.exists_cons_of_ne_nil h.ne_nil
  obtain ⟨u, slice, rest, hmunch, -, hu⟩ := exists_munch h (List.append_nil _)
  obtain ⟨u', slice', rest', hmunch', -, hu'⟩ := exists_munch h' (List.append_nil _)
  obtain ⟨rfl, -, -⟩ := Munch.token.inj (hmunch.symm.trans hmunch')
  rw [← hu rfl, hu' rfl]

/-- The texts of tokens are those that denote one. -/
theorem mem_tokenPattern : s ∈ tokenPattern ↔ ∃ t, Denotes s t := by
  constructor
  · rintro (((⟨m, rfl⟩ | hnumber) | hdouble | hsingle) | hname)
    · exact ⟨_, .mark m⟩
    · obtain ⟨n, hn, rfl⟩ := Numeral.mem_numeralPattern.1 hnumber
      exact ⟨_, .number hnumber (readNumber_text hn)⟩
    · exact ⟨_, .text rfl hdouble⟩
    · exact ⟨_, .text rfl hsingle⟩
    · exact ⟨_, denotes_wordToken (mem_namePattern.1 hname)⟩
  · rintro ⟨t, ht⟩
    cases ht with
    | mark m => exact .inl (.inl (.inl ⟨m, rfl⟩))
    | number hs => exact .inl (.inl (.inr hs))
    | @text q _ hq hs =>
      rcases (by simpa [isQuote] using hq : q = '\x22' ∨ q = '\x27') with rfl | rfl
      · exact .inl (.inr (.inl hs))
      · exact .inl (.inr (.inr hs))
    | name hs => exact .inr hs

/-! ## The longest text of a token -/

/-- Nothing longer than what is taken off the front is there. -/
theorem length_le_of_munch (h : munch c cs = .token t slice rest) (hs : s ∈ tokenPattern)
    (hfront : s <+: c :: cs) : s.length ≤ slice.length := by
  obtain ⟨u, hu⟩ := mem_tokenPattern.1 hs
  obtain ⟨more, hmore⟩ := hfront
  obtain ⟨t', slice', rest', hmunch, hlength, -⟩ := exists_munch hu hmore
  obtain ⟨-, rfl, -⟩ := Munch.token.inj (h.symm.trans hmunch)
  exact hlength

/-- Where nothing is taken off the front, no text of a token is there. -/
theorem not_mem_of_rejected (h : munch c cs = .rejected slice) (hfront : s <+: c :: cs) :
    s ∉ tokenPattern := by
  intro hs
  obtain ⟨u, hu⟩ := mem_tokenPattern.1 hs
  obtain ⟨more, hmore⟩ := hfront
  obtain ⟨t', slice', rest', hmunch, -, -⟩ := exists_munch hu hmore
  cases h.symm.trans hmunch

end

end Formulary
