import Formulary.Text.Hexadecimal
import Formulary.Toml.Trivia
/-!
# Strings of TOML

Strings between double quotes have escapes, those between single quotes have none. Either may be written
between three quotes on both sides, and then holds line ends and up to two quotes in a row.
-/

namespace Formulary.Toml

/-- The characters that a backslash and a letter stand for. -/
def escapes : List (Char × Char) :=
  [('b', '\x08'), ('t', '\t'), ('n', '\n'), ('f', '\x0c'), ('r', '\r'), ('"', '"'), ('\\', '\\')]

/-- The character whose number hexadecimal digits write. -/
def codePoint? (digits : List Char) : Option Char := do
  let n ← digitsIn? 16 digits
  if n.isValidChar then some (Char.ofNat n) else none

/-- The characters that stand for themselves between double quotes. -/
def isUnescaped (c : Char) : Bool :=
  isPlain c && c ≠ '"' && c ≠ '\\'

/-- The characters that stand between single quotes. -/
def isLiteral (c : Char) : Bool :=
  isPlain c && c ≠ '\x27'

namespace Scan

/-- Takes the character whose number a count of hexadecimal digits writes. -/
def codePoint (count : Nat) : Scan Char :=
  checked (upTo count fun c => (hexValue? c).isSome) fun digits =>
    if digits.length = count then codePoint? digits else none

/-- Takes an escape. One that there is not fails behind its letter, or at it if it is outside ASCII. -/
def escape : Scan (List Char) := do
  char '\\'
  let start ← position
  let c ← any
  match escapes.lookup c with
  | some e => return [e]
  | none =>
    if c = 'u' then return [← required (codePoint 4)]
    else if c = 'U' then return [← required (codePoint 8)]
    else failAt (if c.utf8Size = 1 then start + 1 else start) true

/-! ## On one line -/

/-- Takes a string between double quotes. -/
def quotedLine : Scan String := do
  char '"'
  let parts ← many (orElse (run₁ isUnescaped) escape)
  required (char '"')
  return String.ofList parts.flatten

/-- Takes a string between single quotes. -/
def literalLine : Scan String := do
  char '\x27'
  let cs ← run isLiteral
  required (char '\x27')
  return String.ofList cs

/-! ## On several lines -/

/-- Takes one or two quotes before something else, two if possible. -/
def innerQuotes (quote : Char) (before : Scan Unit) : Scan Unit :=
  orElse (do word [quote, quote]; ahead before) (do char quote; ahead before)

/-- Takes a backslash at the end of a line, with all blanks and line ends that follow. -/
def joinedLines : Scan Unit := do
  char '\\'
  blanks
  newline
  discard <| many (orElse newline (discard <| run₁ isBlankChar))

/-- Takes a piece of a string with escapes that is no quote. -/
def piece : Scan Unit :=
  orElse (discard <| run₁ isUnescaped) <| orElse joinedLines <| orElse (discard escape) newline

/-- Takes a piece of a string without escapes that is no quote. -/
def literalPiece : Scan Unit :=
  orElse (discard <| one isLiteral) newline

/-- Takes a string with escapes between three quotes on both sides. -/
def quotedLines : Scan Unit := do
  let fence := word ['"', '"', '"']
  let other := discard <| one (· ≠ '"')
  fence
  discard <| optional newline
  required do
    discard <| many piece
    discard <| many do
      innerQuotes '"' other
      discard <| many₁ piece
    discard <| optional (innerQuotes '"' other)
    discard <| optional (innerQuotes '"' fence)
    fence

/-- Takes a string without escapes between three quotes on both sides. -/
def literalLines : Scan Unit := do
  let fence := word ['\x27', '\x27', '\x27']
  let other := discard <| one (· ≠ '\x27')
  fence
  discard <| optional newline
  required do
    discard <| many literalPiece
    discard <| many do
      innerQuotes '\x27' other
      discard <| many₁ literalPiece
    discard <| optional (innerQuotes '\x27' fence)
    fence

/-- Takes a string of any form. -/
def quoted : Scan Unit :=
  orElse quotedLines <| orElse (discard quotedLine) <| orElse literalLines (discard literalLine)

end Scan

end Formulary.Toml
