import Formulary.Token
import Formulary.Number.Numeral
/-!
# Reading tokens

Blanks apart, a text is cut into its tokens from left to right, each the longest that the text begins
with at that place. `munch` takes one token off the front and `tokenize` repeats it. A place where no
token begins is reported with the characters that were looked at in vain: one character as a rule, and
for a quoted text without an end all of it, up to a backslash with which it cannot go on.

Each step splits the text: `append_of_munch` says that what was taken and what is left make up the
text, and `slice_ne_nil_of_munch` that something was taken.
-/

namespace Formulary

/-- The blanks between tokens. -/
def isTokenBlank (c : Char) : Bool :=
  c = ' ' || c = '\t' || c = '\n' || c = '\r'

/-! ## Words -/

/-- The token that a word is: a mark, or else a name. -/
def wordToken (word : List Char) : Token :=
  if word = ['a', 'n', 'd'] then .mark .and
  else if word = ['o', 'r'] then .mark .or
  else if word = ['n', 'o', 't'] then .mark .not
  else .name (String.ofList word)

/-! ## Quoted texts -/

/-- The two quote characters. -/
def isQuote (c : Char) : Bool :=
  c = '\x22' || c = '\x27'

/-- What follows an opening quote: the characters taken, whether the closing quote was reached, and
what is left. -/
structure QuotedRun where
  taken : List Char
  closed : Bool
  rest : List Char

/-- Runs through a quoted text up to its closing quote. A backslash takes the next character with it,
but no newline. -/
def quotedRun (quote : Char) (taken : List Char) : List Char → QuotedRun
  | [] => ⟨taken.reverse, false, []⟩
  | '\\' :: [] => ⟨taken.reverse, false, ['\\']⟩
  | '\\' :: c :: cs =>
    if c = '\n' then ⟨taken.reverse, false, '\\' :: c :: cs⟩
    else quotedRun quote (c :: '\\' :: taken) cs
  | c :: cs =>
    if c = quote then ⟨taken.reverse, true, cs⟩ else quotedRun quote (c :: taken) cs

/-- The character that a backslash and a character stand for. -/
def unescapedChar (c : Char) : Char :=
  if c = 'n' then '\n' else if c = 't' then '\t' else if c = 'r' then '\r' else c

/-- The text that the characters between quotes stand for. -/
def unescape : List Char → List Char
  | '\\' :: c :: cs => unescapedChar c :: unescape cs
  | c :: cs => c :: unescape cs
  | [] => []

theorem append_of_quotedRun (quote : Char) (taken cs : List Char) :
    (quotedRun quote taken cs).taken ++
        (if (quotedRun quote taken cs).closed then [quote] else []) ++
        (quotedRun quote taken cs).rest = taken.reverse ++ cs := by
  fun_induction quotedRun quote taken cs <;> simp_all

/-! ## Marks -/

/-- Takes the longest mark that is no word off the front. -/
def scanMark : List Char → Option (Mark × List Char)
  | '=' :: '=' :: rest => some (.equal, rest)
  | '!' :: '=' :: rest => some (.notEqual, rest)
  | '<' :: '=' :: rest => some (.lessEqual, rest)
  | '>' :: '=' :: rest => some (.greaterEqual, rest)
  | '!' :: rest => some (.bang, rest)
  | '<' :: rest => some (.less, rest)
  | '>' :: rest => some (.greater, rest)
  | '(' :: rest => some (.leftParen, rest)
  | ')' :: rest => some (.rightParen, rest)
  | ',' :: rest => some (.comma, rest)
  | '?' :: rest => some (.question, rest)
  | ':' :: rest => some (.colon, rest)
  | '+' :: rest => some (.plus, rest)
  | '-' :: rest => some (.minus, rest)
  | '*' :: rest => some (.star, rest)
  | '/' :: rest => some (.slash, rest)
  | '%' :: rest => some (.percent, rest)
  | '^' :: rest => some (.caret, rest)
  | _ => none

theorem append_of_scanMark {cs rest : List Char} {m : Mark} (h : scanMark cs = some (m, rest)) :
    m.spelling.toList ++ rest = cs := by
  unfold scanMark at h
  split at h <;> first
    | (obtain ⟨rfl, rfl⟩ : _ ∧ _ := by simpa using h
       rfl)
    | simp at h

/-! ## One token -/

/-- What is found at the front of a text that does not begin with a blank. -/
inductive Munch where
  | token (token : Token) (slice rest : List Char)
  | rejected (slice : List Char)

/-- Takes the longest token off the front of `c :: cs`. -/
def munch (c : Char) (cs : List Char) : Munch :=
  if isNameStart c then
    .token (wordToken (c :: cs.takeWhile isNameChar)) (c :: cs.takeWhile isNameChar)
      (cs.dropWhile isNameChar)
  else if isQuote c then
    let run := quotedRun c [] cs
    if run.closed then
      .token (.text (String.ofList (unescape run.taken))) (c :: run.taken ++ [c]) run.rest
    else .rejected (c :: run.taken)
  else match Numeral.scan (c :: cs) with
    | some (n, rest) => .token (.number n.value.toFloat) n.text rest
    | none => match scanMark (c :: cs) with
      | some (m, rest) => .token (.mark m) m.spelling.toList rest
      | none => .rejected [c]

theorem append_of_munch {c : Char} {cs slice rest : List Char} {t : Token}
    (h : munch c cs = .token t slice rest) : slice ++ rest = c :: cs := by
  unfold munch at h
  split at h
  · obtain ⟨-, rfl, rfl⟩ : _ ∧ _ ∧ _ := by simpa using h
    simp
  · split at h
    · dsimp only at h
      split at h
      · rename_i hc
        obtain ⟨-, rfl, rfl⟩ : _ ∧ _ ∧ _ := by simpa using h
        have := append_of_quotedRun c [] cs
        simpa [hc] using this
      · simp at h
    · split at h
      · rename_i hn
        obtain ⟨-, rfl, rfl⟩ : _ ∧ _ ∧ _ := by simpa using h
        exact Numeral.text_of_scan hn
      · split at h
        · rename_i hm
          obtain ⟨-, rfl, rfl⟩ : _ ∧ _ ∧ _ := by simpa using h
          exact append_of_scanMark hm
        · simp at h

theorem slice_ne_nil_of_munch {c : Char} {cs slice rest : List Char} {t : Token}
    (h : munch c cs = .token t slice rest) : slice ≠ [] := by
  unfold munch at h
  split at h
  · obtain ⟨-, rfl, -⟩ : _ ∧ _ ∧ _ := by simpa using h
    simp
  · split at h
    · dsimp only at h
      split at h
      · obtain ⟨-, rfl, -⟩ : _ ∧ _ ∧ _ := by simpa using h
        simp
      · simp at h
    · split at h
      · rename_i hn
        obtain ⟨-, rfl, -⟩ : _ ∧ _ ∧ _ := by simpa using h
        exact Numeral.text_ne_nil_of_scan hn
      · split at h
        · rename_i m _ _
          obtain ⟨-, rfl, -⟩ : _ ∧ _ ∧ _ := by simpa using h
          cases m <;> decide
        · simp at h

theorem length_rest_of_munch {c : Char} {cs slice rest : List Char} {t : Token}
    (h : munch c cs = .token t slice rest) : rest.length < (c :: cs).length := by
  have happ := congrArg List.length (append_of_munch h)
  have hpos := List.length_pos_iff.2 (slice_ne_nil_of_munch h)
  rw [List.length_append] at happ
  omega

/-! ## All tokens -/

/-- A place where no token begins: the characters that were looked at, and where they stand. -/
structure Rejection where
  slice : List Char
  span : Span

/-- The tokens of a text that begins at a position, after those read before. -/
def tokensFrom (position : Nat) (before : List Lexeme) : List Char → Except Rejection (List Lexeme)
  | [] => .ok before.reverse
  | c :: cs =>
    if isTokenBlank c then tokensFrom (position + c.utf8Size) before cs
    else match _h : munch c cs with
      | .token token slice rest =>
        let stop := position + byteLength slice
        tokensFrom stop (⟨token, position, stop⟩ :: before) rest
      | .rejected slice => .error ⟨slice, position, position + byteLength slice⟩
termination_by cs => cs.length
decreasing_by
  · exact Nat.lt_succ_self _
  · exact length_rest_of_munch _h

/-- The tokens of a text. -/
def tokenize (source : List Char) : Except Rejection (List Lexeme) :=
  tokensFrom 0 [] source

end Formulary
