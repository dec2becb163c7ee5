/-!
# Settings
-/

namespace Formulary

/-- What the user of the library decides. -/
structure Settings where
  /-- Whether a step may refer only to inputs and to earlier steps that are not blank. -/
  strictReferences : Bool
  /-- The greatest depth of an expression. -/
  maxDepth : Nat
deriving DecidableEq

namespace Settings

/-- The settings without a choice. -/
def standard : Settings :=
  ⟨true, 256⟩

instance : Inhabited Settings := ⟨standard⟩

/-- The same settings with references unchecked. -/
def lenient (s : Settings) : Settings :=
  { s with strictReferences := false }

end Settings

end Formulary
