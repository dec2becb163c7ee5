import Formulary.Settings.Interchange
import Formulary.Toml.Document
import Formulary.Toml.Place
/-!
# Settings as TOML

A text of settings has an entry for each setting that is not to be the standard one, and no others.
-/

namespace Formulary.Toml

/-- Where a text is no text of settings. -/
abbrev Fault := Place

/-- The wording of a fault. -/
def Fault.message (f : Fault) : String :=
  "TOML parse error at line " ++ toString f.line ++ ", column " ++ toString f.column

/-- The value of an entry, if it is one, and where the entry is wrong if it is another. A table on the way
to others stands where its key does. -/
def valueOf (key : Key) : Item → Option Value × Nat
  | .value v position => (some v, position)
  | .table (.header position) _ => (none, position)
  | .table _ _ => (none, key.position)
  | .tables position _ => (none, position)

/-- A draft of settings with an entry more; the position at which the entry is wrong otherwise. -/
def enter (d : Settings.Draft) (e : Key × Item) : Except Nat Settings.Draft :=
  let (v, position) := valueOf e.1 e.2
  if e.1.name = "strict_step_refs" then
    match v with
    | some (.bool b) => .ok { d with strictReferences := some b }
    | _ => .error position
  else if e.1.name = "max_depth" then
    match v with
    | some (.integer (.ofNat n)) => .ok { d with maxDepth := some n }
    | _ => .error position
  else .error e.1.position

/-- The settings that a table holds; the position at which the table is wrong otherwise. -/
def settingsOf (t : Table) : Except Nat Settings := do
  return (← t.foldlM enter ⟨none, none⟩).complete

/-- The settings that a text holds. -/
def readSettings (text : String) : Except Fault Settings :=
  (read text >>= settingsOf).mapError (placeOf text)

end Formulary.Toml
