/-!
# Places in a TOML text

A position, counted in bytes, as a line and a column, both counted from one. The end of the text counts as
the place behind its last character, also if that is a line feed. Columns count characters, except at a
character of several bytes: there they count the bytes before it.
-/

namespace Formulary.Toml

/-- A line and a column. -/
structure Place where
  line : Nat
  column : Nat
deriving DecidableEq

/-- How far a text has been passed: the lines before, and the characters and bytes of the line. -/
structure Passed where
  lines : Nat
  chars : Nat
  bytes : Nat

namespace Passed

/-- After one more character. -/
def step (p : Passed) (c : Char) : Passed :=
  if c = '\n' then ⟨p.lines + 1, 0, 0⟩ else ⟨p.lines, p.chars + 1, p.bytes + c.utf8Size⟩

/-- The place in the rest of a text that lies a number of bytes ahead. -/
def placeIn (p : Passed) (ahead : Nat) : List Char → Place
  | [] => ⟨p.lines + 1, p.chars + 1⟩
  | [c] =>
    if ahead < c.utf8Size then
      ⟨p.lines + 1, (if c.utf8Size = 1 then p.chars else p.bytes) + 1⟩
    else ⟨p.lines + 1, p.chars + 2⟩
  | c :: d :: cs =>
    if ahead < c.utf8Size then
      ⟨p.lines + 1, (if c.utf8Size = 1 then p.chars else p.bytes) + 1⟩
    else (p.step c).placeIn (ahead - c.utf8Size) (d :: cs)

end Passed

/-- The place of a position in a text. -/
def placeOf (text : String) (position : Nat) : Place :=
  Passed.placeIn ⟨0, 0, 0⟩ position text.toList

end Formulary.Toml
