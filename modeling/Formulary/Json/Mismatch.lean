import Formulary.Json
/-!
# JSON of the wrong shape

The ways in which a well-formed document can fail to be the value that a reader wants, and their
wording.
-/

namespace Formulary.Json

/-- What stands where something else is wanted. -/
inductive Found where
  | null
  | bool (value : Bool)
  | number (value : Number)
  | string (value : String)
  | sequence
  | map

/-- How the thing that stands there is named. -/
def Found.shown : Found → String
  | null => "null"
  | bool b => "boolean `" ++ (if b then "true" else "false") ++ "`"
  | number (.integer n) => "integer `" ++ String.ofList (Number.integerText n) ++ "`"
  | number (.real x) => "floating point `" ++ NumberStyle.interchange.text x ++ "`"
  | string s => "string " ++ quoted s
  | sequence => "sequence"
  | map => "map"

/-- Why a document is not the value wanted. -/
inductive Mismatch where
  | invalidType (found : Found) (wanted : String)
  | invalidValue (found : Found) (wanted : String)
  /-- A record written as an array that ends after `count` items. -/
  | invalidLength (count : Nat) (record : String) (fields : Nat)
  | missingField (field : String)
  | duplicateField (field : String)
  | unknownField (field : String) (known : List String)
  | unknownVariant (variant : String) (known : List String)
  | noVariant (type : String)
  | unsupportedVersion (version : Nat) (supported : Nat)
  | notTree (found : Json)

/-- A list of alternatives. -/
def alternatives : List String → String
  | [] => ""
  | [a] => "`" ++ a ++ "`"
  | [a, b] => "`" ++ a ++ "` or `" ++ b ++ "`"
  | names => "one of " ++ ", ".intercalate (names.map fun a => "`" ++ a ++ "`")

/-- What is said of a value that is no tree. -/
def notTreeMessage (found : Json) : String :=
  "expected a number, a name or [head, ...args], found " ++ found.text

namespace Mismatch

/-- The wording of a mismatch. -/
def message : Mismatch → String
  | invalidType found wanted => "invalid type: " ++ found.shown ++ ", expected " ++ wanted
  | invalidValue found wanted => "invalid value: " ++ found.shown ++ ", expected " ++ wanted
  | invalidLength count record fields =>
    "invalid length " ++ toString count ++ ", expected " ++ record ++ " with " ++ toString fields ++
      (if fields = 1 then " element" else " elements")
  | missingField field => "missing field `" ++ field ++ "`"
  | duplicateField field => "duplicate field `" ++ field ++ "`"
  | unknownField field known =>
    "unknown field `" ++ field ++ "`, expected " ++ alternatives known
  | unknownVariant variant known =>
    "unknown variant `" ++ variant ++ "`, expected " ++ alternatives known
  | noVariant type => "data did not match any variant of untagged enum " ++ type
  | unsupportedVersion version supported =>
    "unsupported expression version " ++ toString version ++ ", expected " ++ toString supported
  | notTree found => notTreeMessage found

end Mismatch

end Formulary.Json
