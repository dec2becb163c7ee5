import Formulary.Json.Reader
import Formulary.Settings
/-!
# Settings as JSON
-/

namespace Formulary.Settings

open Json (Reader Field Shape)

/-- What has been read of settings. -/
structure Draft where
  strictReferences : Option Bool
  maxDepth : Option Nat

/-- Settings without a choice left open. -/
def Draft.complete (d : Draft) : Settings :=
  ⟨d.strictReferences.getD standard.strictReferences, d.maxDepth.getD standard.maxDepth⟩

/-- The record of settings, which has no other fields. -/
def shape : Shape Draft Settings where
  name := "struct EngineConfig"
  fields := [
    .filling "strict_step_refs" .defaulted Draft.strictReferences
      (fun b d => { d with strictReferences := some b }) Reader.bool,
    .filling "max_depth" .defaulted Draft.maxDepth (fun n d => { d with maxDepth := some n })
      (Reader.unsigned "usize")]
  strict := true
  blank := ⟨none, none⟩
  build d := .ok d.complete

/-- The JSON form of settings. -/
def toJson (s : Settings) : Json :=
  .object [("strict_step_refs", .bool s.strictReferences), ("max_depth", .ofNat s.maxDepth)]

/-- Reads settings. -/
def reader : Reader Settings :=
  shape.reader

end Formulary.Settings
