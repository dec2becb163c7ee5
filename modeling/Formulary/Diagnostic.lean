import Formulary.Fault
/-!
# Diagnostics

How a fault is shown to a user: a title with the kind of the fault, below it the message with its place
in the source, if it has one, and a word that may have been meant.
-/

namespace Formulary

/-- The kind of a fault in a title. -/
def FaultKind.title : FaultKind → String
  | parse => "Parse"
  | unknownSymbol => "Unknown symbol"
  | nonNumericLiteral => "Literal"
  | emptySource => "Empty expression"
  | nonFiniteResult => "Evaluation"
  | invalidCall => "Call"

/-- The lines that show a fault. A fault without a place has its message in the title. -/
def Fault.diagnostic (fault : Fault) : List String :=
  let title := "Error: " ++ fault.kind.title ++ " error"
  match fault.span? with
  | none => [title ++ ": " ++ fault.message]
  | some s =>
    let place := "  bytes " ++ toString s.start ++ " to " ++ toString s.stop ++ ": "
    let help := fault.suggestion?.map fun name =>
      "  Help: did you mean `" ++ reference name ++ "`?"
    title :: (place ++ fault.message) :: help.toList

end Formulary
