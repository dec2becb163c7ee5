/-!
# What can be wrong with a JSON text

A fault is a cause and the number of bytes that had been looked at when it was found; `Place` turns
that number into a line and a column.
-/

namespace Formulary.Json

/-- Why a text is no JSON text. -/
inductive Cause where
  | endInArray | endInObject | endInString | endInValue
  | noColon | noArrayComma | noObjectComma
  | noWord | noValue | noKey
  | badEscape | badNumber | outOfRange
  | controlCharacter | loneSurrogate | cutSurrogate
  | trailingComma | trailingCharacters | tooDeep
deriving DecidableEq

/-- The wording of a cause. -/
def Cause.message : Cause → String
  | endInArray => "EOF while parsing a list"
  | endInObject => "EOF while parsing an object"
  | endInString => "EOF while parsing a string"
  | endInValue => "EOF while parsing a value"
  | noColon => "expected `:`"
  | noArrayComma => "expected `,` or `]`"
  | noObjectComma => "expected `,` or `\x7d`"
  | noWord => "expected ident"
  | noValue => "expected value"
  | noKey => "key must be a string"
  | badEscape => "invalid escape"
  | badNumber => "invalid number"
  | outOfRange => "number out of range"
  | controlCharacter => "control character (\\u0000-\\u001F) found while parsing a string"
  | loneSurrogate => "lone leading surrogate in hex escape"
  | cutSurrogate => "unexpected end of hex escape"
  | trailingComma => "trailing comma"
  | trailingCharacters => "trailing characters"
  | tooDeep => "recursion limit exceeded"

/-- A cause and where it was found. -/
structure Fault where
  cause : Cause
  position : Nat
deriving DecidableEq

namespace Fault

/-- The fault of a thing that cannot stand at a position, or of the end of the text there: a thing has
been looked at, the end has not. -/
def ahead (cause atEnd : Cause) (position : Nat) (rest : List Char) : Fault :=
  if rest = [] then ⟨atEnd, position⟩ else ⟨cause, position + 1⟩

end Fault

/-- The faults of one thing: that for a reader who wants its value, and that for one who passes it over. -/
structure Faults where
  read : Fault
  skimmed : Fault
deriving DecidableEq

/-- The same fault for either reader. -/
def Fault.either (fault : Fault) : Faults :=
  ⟨fault, fault⟩

/-- A line and a column, in bytes, of a text. -/
structure Place where
  line : Nat
  column : Nat
deriving DecidableEq

/-- Where a position lies in a text: the first line is 1, and the column counts the bytes of the line
before the position. -/
def Place.from (place : Place) (position : Nat) : List Char → Place
  | [] => ⟨place.line, place.column + position⟩
  | c :: cs =>
    if position < c.utf8Size then ⟨place.line, place.column + position⟩
    else if c = '\n' then Place.from ⟨place.line + 1, 0⟩ (position - c.utf8Size) cs
    else Place.from ⟨place.line, place.column + c.utf8Size⟩ (position - c.utf8Size) cs

/-- Where a position lies in a text. -/
def placeOf (text : String) (position : Nat) : Place :=
  Place.from ⟨1, 0⟩ position text.toList

end Formulary.Json
