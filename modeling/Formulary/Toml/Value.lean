import Formulary.Toml.Moment
import Formulary.Toml.Number
import Formulary.Toml.Quoted
import Formulary.Toml.Table
/-!
# Keys and values of TOML
-/

namespace Formulary.Toml

/-- How many arrays and inline tables may lie in each other, or keys in a row with points. -/
def depthLimit : Nat := 79

/-- The characters of a key without quotes. -/
def isKeyChar (c : Char) : Bool :=
  c.isAlphanum || c = '-' || c = '_'

namespace Scan

/-! ## Keys -/

/-- Takes a key without points, and the blanks around it. -/
def key : Scan Key := do
  blanks
  let start ← position
  let name ← match ← next? with
    | some '"' => quotedLine
    | some '\x27' => literalLine
    | _ => String.ofList <$> run₁ isKeyChar
  blanks
  return ⟨name, start⟩

/-- Takes keys with points between them. A point behind which no key comes is left. -/
def path : Scan Path :=
  checked
    (do return (← key, ← many do char '.'; key))
    fun (first, others) =>
      let keys := first :: others
      if keys.length ≤ depthLimit then some ⟨keys.dropLast, keys.getLastD first⟩ else none

/-! ## Arrays and inline tables -/

/-- Takes an array of values. -/
def array (value : Scan Value) : Scan Value := do
  char '['
  required do
    if (← next?) ≠ some ']' then
      let items ← separated (do gap; let v ← value; gap; return v) ','
      unless items.isEmpty do discard <| optional (char ',')
      gap
    char ']'
  return .other

/-- Takes an entry of an inline table. -/
def inlineEntry (value : Scan Value) : Scan (Path × Item) := do
  let p ← path
  required do
    char '='
    blanks
    let start ← position
    let v ← value
    blanks
    return (p, .value v start)

/-- Takes an inline table of values, in which no key is doubled. -/
def inlineTable (value : Scan Value) : Scan Value := do
  char '\x7b'
  required do
    discard <| checked
      (do let entries ← separated (inlineEntry value) ','; blanks; return entries)
      fun entries => entries.foldlM (fun (t : Table) e => t.addAt e.1 e.2) []
    char '\x7d'
  return .other

/-! ## Values -/

/-- Takes a value, of which the arrays and inline tables are as given. -/
def valueWith (nested : Scan Value) : Scan Value := do
  match ← next? with
  | some '"' | some '\x27' => do quoted; return .other
  | some '[' | some '\x7b' => nested
  | some '_' => .integer <$> integer
  | some '.' => do real; return .other
  | some 't' => do required (word "true".toList); return .bool true
  | some 'f' => do required (word "false".toList); return .bool false
  | some 'i' => do word "inf".toList; return .other
  | some 'n' => do word "nan".toList; return .other
  | some c =>
    if c.isDigit || c = '+' || c = '-' then
      orElse (do moment; return .other) <| orElse (do real; return .other) (.integer <$> integer)
    else refuse
  | none => refuse

/-- Takes a value in which arrays and inline tables lie in each other as deep as given. -/
def valueWithin : (depth : Nat) → Scan Value
  | 0 => valueWith (required refuse)
  | depth + 1 => valueWith do
    if (← next?) = some '[' then array (valueWithin depth) else inlineTable (valueWithin depth)

/-- Takes a value. -/
def value : Scan Value :=
  valueWithin depthLimit

end Scan

end Formulary.Toml
