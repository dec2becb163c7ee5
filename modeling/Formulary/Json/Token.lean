import Formulary.Json.Numeral
import Formulary.Json.Quotation
/-!
# JSON tokens

A text is cut into the brackets, words, numbers and strings of JSON, each with the place where it
stands. The cut goes on until something is no token; what comes after is not looked at. A number out of
range and a string with half a surrogate pair have a faulty value but a clear extent, and whoever does
not need the value can pass them.
-/

namespace Formulary.Json

/-- The tokens of JSON. `cut` is the beginning of a word, number or string that then goes wrong, and
`stray` a character that begins no token. -/
inductive Token where
  | leftBracket | rightBracket | leftBrace | rightBrace | comma | colon
  | null
  | bool (value : Bool)
  | number (value : Except Fault Number)
  | string (value : Except Fault String)
  | cut (quoted : Bool) (faults : Faults)
  | stray

/-- A token and its place. -/
structure Lexeme where
  token : Token
  place : Span

/-! ## Words -/

/-- Takes the rest of a word off the front: where it stops and what is left. -/
def scanWord (position : Nat) : (word cs : List Char) → Except Fault (Nat × List Char)
  | [], cs => .ok (position, cs)
  | _ :: _, [] => .error ⟨.endInValue, position⟩
  | w :: ws, c :: cs =>
    if c = w then scanWord (position + 1) ws cs else .error ⟨.noWord, position + 1⟩

theorem length_of_scanWord {position stop : Nat} {word cs rest : List Char}
    (h : scanWord position word cs = .ok (stop, rest)) : rest.length ≤ cs.length := by
  fun_induction scanWord position word cs <;> simp_all
  omega

/-! ## All tokens -/

/-- The blanks between JSON tokens. -/
def isGap (c : Char) : Bool :=
  c = ' ' || c = '\t' || c = '\n' || c = '\r'

/-- The bracket, comma or colon that a character is. -/
def punctuation? (c : Char) : Option Token :=
  if c = '[' then some .leftBracket
  else if c = ']' then some .rightBracket
  else if c = '\x7b' then some .leftBrace
  else if c = '\x7d' then some .rightBrace
  else if c = ',' then some .comma
  else if c = ':' then some .colon
  else none

/-- The word that begins with a letter: its token, and its other letters. -/
def word? (c : Char) : Option (Token × List Char) :=
  if c = 'n' then some (.null, ['u', 'l', 'l'])
  else if c = 't' then some (.bool true, ['r', 'u', 'e'])
  else if c = 'f' then some (.bool false, ['a', 'l', 's', 'e'])
  else none

/-- The string behind an opening quote, and what is left after it. -/
def quotedFront (position : Nat) (cs : List Char) : Lexeme × List Char :=
  let value := readString (position + 1) cs
  match skimString (position + 1) cs with
  | .ok (stop, rest) => (⟨.string value, ⟨position, stop⟩⟩, rest)
  | .error skimmed =>
    let read := match value with
      | .error fault => fault
      | .ok _ => skimmed
    (⟨.cut true ⟨read, skimmed⟩, .point position⟩, [])

/-- The token at the front of `c :: cs`, and what is left after it. Nothing is left after a token that
goes wrong. -/
def front (position : Nat) (c : Char) (cs : List Char) : Lexeme × List Char :=
  let cut (faults : Faults) : Lexeme × List Char := (⟨.cut false faults, .point position⟩, [])
  match punctuation? c, word? c with
  | some token, _ => (⟨token, ⟨position, position + 1⟩⟩, cs)
  | none, some (token, letters) =>
    match scanWord (position + 1) letters cs with
    | .ok (stop, rest) => (⟨token, ⟨position, stop⟩⟩, rest)
    | .error fault => cut fault.either
  | none, none =>
    if c = '\x22' then quotedFront position cs
    else if c.isDigit || c = '-' then
      match scanNumeral position (c :: cs) with
      | .found value stop rest => (⟨.number value, ⟨position, stop⟩⟩, rest)
      | .cut faults => cut faults
    else (⟨.stray, .point position⟩, [])

theorem length_quotedFront_le (position : Nat) (cs : List Char) :
    (quotedFront position cs).2.length ≤ cs.length := by
  unfold quotedFront
  dsimp only
  split
  · rename_i h
    exact Nat.le_of_lt (length_of_skimString h)
  · simp

theorem length_front_le (position : Nat) (c : Char) (cs : List Char) :
    (front position c cs).2.length ≤ cs.length := by
  unfold front
  dsimp only
  split
  · simp
  · split
    · rename_i h
      exact length_of_scanWord h
    · simp
  · split
    · exact length_quotedFront_le position cs
    · split
      · split
        · rename_i h
          exact Nat.le_of_lt_succ (length_of_scanNumeral h)
        · simp
      · simp

/-- The tokens of a text that begins at a position, after those read before. -/
def tokensFrom (position : Nat) (before : List Lexeme) : List Char → List Lexeme
  | [] => before.reverse
  | c :: cs =>
    if isGap c then tokensFrom (position + 1) before cs
    else
      have := length_front_le position c cs
      let lexeme := (front position c cs).1
      tokensFrom lexeme.place.stop (lexeme :: before) (front position c cs).2
termination_by cs => cs.length

/-- The tokens of a text. -/
def tokens (text : String) : List Lexeme :=
  tokensFrom 0 [] text.toList

end Formulary.Json
