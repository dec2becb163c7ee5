import Formulary.Json.Fault
import Formulary.Text.Hexadecimal
import Formulary.Text.Span
/-!
# Strings in JSON texts

Two ways through a string, from behind its opening quote: `skimString` finds where it stops, looking only
for the form of its escapes, and `readString` finds its value, for which the halves of surrogate pairs
have to fit together. Whatever `readString` accepts stops where `skimString` says.

Positions count bytes, and four hexadecimal digits are four bytes whatever stands there.
-/

namespace Formulary.Json

/-- The character that a backslash and a letter stand for. -/
def escapedChar? (c : Char) : Option Char :=
  if c = '\x22' || c = '\\' || c = '/' then some c
  else if c = 'b' then some '\x08'
  else if c = 'f' then some '\x0c'
  else if c = 'n' then some '\n'
  else if c = 'r' then some '\r'
  else if c = 't' then some '\t'
  else none

/-- What is wrong with the digits of an escape that begin at a position: there are no four bytes left,
or they are no hexadecimal digits. -/
def badDigits (position : Nat) (cs : List Char) : Fault :=
  let left := byteLength cs
  if left < 4 then ⟨.endInString, position + left⟩ else ⟨.badEscape, position + 4⟩

/-! ## Passing a string over -/

/-- The position after the closing quote of a string, and what is left. -/
def skimString (position : Nat) : List Char → Except Fault (Nat × List Char)
  | [] => .error ⟨.endInString, position⟩
  | '\\' :: 'u' :: a :: b :: c :: d :: cs =>
    match digitsIn? 16 [a, b, c, d] with
    | some _ => skimString (position + 6) cs
    | none => .error (badDigits (position + 2) (a :: b :: c :: d :: cs))
  | '\\' :: 'u' :: cs => .error (badDigits (position + 2) cs)
  | '\\' :: c :: cs =>
    if (escapedChar? c).isSome then skimString (position + 2) cs
    else .error ⟨.badEscape, position + 2⟩
  | c :: cs =>
    if c = '\x22' then .ok (position + 1, cs)
    else if c = '\\' then .error ⟨.endInString, position + 1⟩
    else if c < ' ' then .error ⟨.controlCharacter, position⟩
    else skimString (position + c.utf8Size) cs

theorem length_of_skimString {position stop : Nat} {cs rest : List Char}
    (h : skimString position cs = .ok (stop, rest)) : rest.length < cs.length := by
  fun_induction skimString position cs <;> simp_all <;> omega

/-! ## Reading a string -/

/-- The sixteen-bit unit that four hexadecimal digits at a position write, and what is left. -/
def takeUnit (position : Nat) (cs : List Char) : Except Fault (Nat × List Char) :=
  match digitsIn? 16 (cs.take 4) with
  | some unit => if 4 ≤ cs.length then .ok (unit, cs.drop 4) else .error (badDigits position cs)
  | none => .error (badDigits position cs)

/-- The trailing half of a surrogate pair, which has to follow the leading one, and what is left after
it. -/
def takeTrailing (position : Nat) : List Char → Except Fault (Nat × List Char)
  | [] => .error ⟨.endInString, position⟩
  | ['\\'] => .error ⟨.endInString, position + 1⟩
  | '\\' :: 'u' :: rest => do
    let (unit, rest) ← takeUnit (position + 2) rest
    if 0xDC00 ≤ unit && unit < 0xE000 then return (unit, rest)
    else throw ⟨.loneSurrogate, position + 6⟩
  | '\\' :: _ => .error ⟨.cutSurrogate, position + 2⟩
  | _ => .error ⟨.cutSurrogate, position + 1⟩

/-- The character that an escape with `u` stands for, from its digits on; what is left, and its
position. -/
def takeCodePoint (position : Nat) (cs : List Char) : Except Fault (Char × Nat × List Char) := do
  let (unit, rest) ← takeUnit position cs
  if 0xDC00 ≤ unit && unit < 0xE000 then throw ⟨.loneSurrogate, position + 4⟩
  else if 0xD800 ≤ unit && unit < 0xDC00 then
    let (trailing, rest) ← takeTrailing (position + 4) rest
    return (Char.ofNat (0x10000 + (unit - 0xD800) * 0x400 + (trailing - 0xDC00)), position + 10,
      rest)
  else return (Char.ofNat unit, position + 4, rest)

/-- The character that an escape stands for, from behind its backslash; what is left, and its
position. -/
def takeEscape (position : Nat) : List Char → Except Fault (Char × Nat × List Char)
  | [] => .error ⟨.endInString, position⟩
  | 'u' :: rest => takeCodePoint (position + 1) rest
  | c :: rest =>
    match escapedChar? c with
    | some e => .ok (e, position + 1, rest)
    | none => .error ⟨.badEscape, position + 1⟩

/-- The characters up to the closing quote, in at most as many steps as the fuel allows; every step takes
a character. -/
def readChars (fuel position : Nat) (before cs : List Char) : Except Fault (List Char) :=
  match fuel, cs with
  | 0, _ | _, [] => .error ⟨.endInString, position⟩
  | _, '\x22' :: _ => .ok before.reverse
  | fuel + 1, '\\' :: rest => do
    let (c, position, rest) ← takeEscape (position + 1) rest
    readChars fuel position (c :: before) rest
  | fuel + 1, c :: rest =>
    if c < ' ' then .error ⟨.controlCharacter, position + 1⟩
    else readChars fuel (position + c.utf8Size) (c :: before) rest

/-- The value of a string. -/
def readString (position : Nat) (cs : List Char) : Except Fault String :=
  String.ofList <$> readChars cs.length position [] cs

end Formulary.Json
