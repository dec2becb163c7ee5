import Formulary.Toml.Scan
/-!
# Blanks, comments and line ends of TOML
-/

namespace Formulary.Toml

/-- The blanks inside a line. -/
def isBlankChar (c : Char) : Bool :=
  c = ' ' || c = '\t'

/-- The characters that are no controls; a tabulator is none. -/
def isPlain (c : Char) : Bool :=
  c = '\t' || (' ' ≤ c && c ≠ '\x7f')

namespace Scan

/-- Takes the blanks. -/
def blanks : Scan Unit := do
  discard <| run isBlankChar

/-- Takes a line end. A carriage return is one only before a line feed. -/
def newline : Scan Unit :=
  orElse (char '\n') (do char '\r'; char '\n')

/-- Takes a comment, up to the end of its line. -/
def comment : Scan Unit := do
  char '#'
  discard <| run isPlain

/-- Takes a line end, or finds that of the text. -/
def lineEnd : Scan Unit :=
  orElse newline atEnd

/-- Takes what may follow in a line: blanks and a comment. -/
def restOfLine : Scan Unit := do
  blanks
  discard <| optional comment
  lineEnd

/-- Takes blanks, line ends and comments, each of these with the end of its line. -/
def gapWithin : (fuel : Nat) → Scan Unit
  | 0 => blanks
  | fuel + 1 => do
    blanks
    match ← next? with
    | some '#' => do
      comment
      newline
      gapWithin fuel
    | some '\n' | some '\r' => do
      newline
      gapWithin fuel
    | _ => return

/-- Takes blanks, line ends and comments. -/
def gap : Scan Unit := do
  gapWithin (← get).rest.length

end Scan

end Formulary.Toml
