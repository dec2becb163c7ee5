import Formulary.Main
import Formulary.Proofs.Formula.CompleteScope
import Formulary.Proofs.Formula.FrontEnds
import Formulary.Proofs.Formula.Progress
import Formulary.Proofs.Program.Reordering
import Formulary.Proofs.Program.StrictReferences
import Formulary.Proofs.Program.Trace
import Formulary.Proofs.Template.Weaving
import Formulary.Proofs.Program.Removal
import Formulary.Proofs.Program.Names
import Formulary.Proofs.Template.Cells
import Formulary.Proofs.Template.Places
import Formulary.Proofs.Formula.Diagnostics
import Formulary.Proofs.Token.Display
import Formulary.Proofs.Formula.Messages
import Formulary.Proofs.Program.GreaterDepth
import Formulary.Proofs.Session.Bindings
import Formulary.Proofs.Number.Doubles
import Formulary.Proofs.Number.Rounding
import Formulary.Proofs.Program.Outcomes
import Formulary.Proofs.Number.Range
import Formulary.Proofs.Json.Numbers
import Formulary.Proofs.Json.Strings
import Formulary.Proofs.Json.Values
import Formulary.Proofs.Json.Texts
import Formulary.Proofs.Json.Documents
import Formulary.Proofs.Json.Ranges
import Formulary.Proofs.Json.Reading
import Formulary.Proofs.Json.Records
import Formulary.Proofs.Program.Saving
import Formulary.Proofs.Program.Failures
import Formulary.Proofs.Program.Rules
import Formulary.Proofs.Expr.Printing
import Formulary.Proofs.Expr.Viability
import Formulary.Proofs.Expr.Expectations
import Formulary.Proofs.Token.Splitting
import Formulary.Proofs.Expr.Extents
import Formulary.Proofs.Program.Inlining
import Formulary.Proofs.Expr.Preorder
import Formulary.Proofs.Expr.Resolution
import Formulary.Proofs.Formula.TreeVariables
import Formulary.Proofs.Template.Occurrences
import Formulary.Proofs.Tree.Chains
import Formulary.Proofs.Session.Scopes
import Formulary.Proofs.Text.EditDistance
import Formulary.Proofs.Formula.Suggestions
import Formulary.Proofs.Expr.Comparisons
import Formulary.Proofs.Template.Alignment
import Formulary.Proofs.Number.Roots
