import Formulary.Number.Layout
import Formulary.Text.Quoted
/-!
# JSON values and their texts

A number keeps whether it is an integer, and the members of an object keep their order. A value has a
compact text and an indented one; a double that is not finite has no JSON form and is written as
`null`.
-/

namespace Formulary

/-- A JSON number. -/
inductive Json.Number where
  | integer (value : Int)
  | real (value : Float)

/-- A JSON value. -/
inductive Json where
  | null
  | bool (value : Bool)
  | number (value : Json.Number)
  | string (value : String)
  | array (items : List Json)
  | object (members : List (String × Json))

namespace Json

/-! ## Building values -/

/-- The value of a double; `null` if it is not finite. -/
def ofFloat (x : Float) : Json :=
  if x.isFinite then number (.real x) else null

/-- The value of a count. -/
def ofNat (n : Nat) : Json :=
  number (.integer n)

/-- The value of something that may be absent. -/
def ofOption {α : Type} (f : α → Json) : Option α → Json
  | some a => f a
  | none => null

/-- The member of an object for something that may be absent, and is left out then. -/
def memberOf {α : Type} (key : String) (f : α → Json) : Option α → List (String × Json)
  | some a => [(key, f a)]
  | none => []

/-- Whether a value is an object. -/
def isObject : Json → Bool
  | object _ => true
  | _ => false

/-- The members of an object sorted by key, of which the last of each key counts. -/
def insertMember (key : String) (value : Json) : List (String × Json) → List (String × Json)
  | [] => [(key, value)]
  | m :: ms =>
    if key < m.1 then (key, value) :: m :: ms
    else if key = m.1 then (key, value) :: ms
    else m :: insertMember key value ms

/-! ## Numbers -/

namespace Number

/-- The double that a number stands for. -/
def toFloat : Number → Float
  | integer (.ofNat n) => Float.ofNat n
  | integer (.negSucc n) => -Float.ofNat (n + 1)
  | real x => x

/-- The characters of an integer. -/
def integerText : Int → List Char
  | .ofNat n => Decimal.digitsOf n
  | .negSucc n => '-' :: Decimal.digitsOf (n + 1)

/-- The characters of a number. -/
def text : Number → List Char
  | integer n => integerText n
  | real x => (NumberStyle.interchange.text x).toList

end Number

/-! ## Strings -/

/-- How a character stands in a JSON string. -/
def stringChar (c : Char) : List Char :=
  if c = '\x22' || c = '\\' then ['\\', c]
  else if c = '\x08' then ['\\', 'b']
  else if c = '\x0c' then ['\\', 'f']
  else if c = '\n' then ['\\', 'n']
  else if c = '\r' then ['\\', 'r']
  else if c = '\t' then ['\\', 't']
  else if c < ' ' then
    let digits := hexadecimal c.toNat
    ['\\', 'u'] ++ List.replicate (4 - digits.length) '0' ++ digits
  else [c]

/-- The characters of a string, quotes included. -/
def stringText (s : String) : List Char :=
  '\x22' :: s.toList.flatMap stringChar ++ ['\x22']

/-! ## Texts -/

mutual

/-- The characters of a value, without blanks. -/
def compact : Json → List Char
  | null => "null".toList
  | bool true => "true".toList
  | bool false => "false".toList
  | number n => n.text
  | string s => stringText s
  | array items => '[' :: compactItems items ++ [']']
  | object members => '{' :: compactMembers members ++ ['}']

/-- The characters of items with commas between them. -/
def compactItems : List Json → List Char
  | [] => []
  | [v] => v.compact
  | v :: w :: vs => v.compact ++ ',' :: compactItems (w :: vs)

/-- The characters of members with commas between them. -/
def compactMembers : List (String × Json) → List Char
  | [] => []
  | [(k, v)] => stringText k ++ ':' :: v.compact
  | (k, v) :: m :: ms => stringText k ++ ':' :: v.compact ++ ',' :: compactMembers (m :: ms)

end

/-- A value on one line, without blanks. -/
def text (v : Json) : String :=
  String.ofList v.compact

/-- A new line, indented by two blanks for each level. -/
def newLine (level : Nat) : List Char :=
  '\n' :: List.replicate (2 * level) ' '

mutual

/-- The characters of a value at a level of indentation, an item or member to a line. -/
def indented (level : Nat) : Json → List Char
  | array [] => ['[', ']']
  | array (v :: vs) => '[' :: indentedItems (level + 1) (v :: vs) ++ newLine level ++ [']']
  | object [] => ['{', '}']
  | object (m :: ms) => '{' :: indentedMembers (level + 1) (m :: ms) ++ newLine level ++ ['}']
  | v => v.compact

/-- The characters of items, each on a line of its own. -/
def indentedItems (level : Nat) : List Json → List Char
  | [] => []
  | [v] => newLine level ++ v.indented level
  | v :: w :: vs => newLine level ++ v.indented level ++ ',' :: indentedItems level (w :: vs)

/-- The characters of members, each on a line of its own. -/
def indentedMembers (level : Nat) : List (String × Json) → List Char
  | [] => []
  | [(k, v)] => newLine level ++ stringText k ++ ':' :: ' ' :: v.indented level
  | (k, v) :: m :: ms =>
    newLine level ++ stringText k ++ ':' :: ' ' :: v.indented level ++
      ',' :: indentedMembers level (m :: ms)

end

/-- A value with an item or member to a line. -/
def prettyText (v : Json) : String :=
  String.ofList (v.indented 0)

end Json

end Formulary
