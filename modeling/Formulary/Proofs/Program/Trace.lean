import Formulary.Proofs.Program.Run
/-!
# What a trace says of its program

The trace of a run agrees with itself: the scope at the end has a name for each input and for each step
that is not blank, and in it, not only in the part of it that a step was run with, every step comes to
the number that its record has (`Program.selfConsistent_of_run`).
-/

namespace Formulary
namespace Program

/-- The record of a step, seen from the scope at the end: it has a number unless the step is blank, and
this number is bound to the name of the step and is what the definition of the step comes to. -/
structure StepConsistent (settings : Settings) (scope : Scope) (s : Step) (r : StepRecord) : Prop where
  name : r.name = s.name
  value_eq_none_iff : r.value = none ↔ s.isBlank = true
  evaluates : s.isBlank = false → ∃ d f x, s.definition = some d ∧ d.formula settings = .ok f ∧
    f.evaluate scope = .ok x ∧ r.value = some x ∧ scope.get? s.name = some x

/-- A trace that agrees with itself and with its program. -/
structure SelfConsistent (settings : Settings) (p : Program) (t : Trace) : Prop where
  /-- The records are those of the steps, in their order. -/
  steps : List.Forall₂ (StepConsistent settings t.scope) p.steps t.steps
  /-- The inputs are bound first, and after them the steps that are not blank. -/
  names : t.scope.names = p.inputNames ++ (p.steps.filter (!·.isBlank)).map Step.name
  inputs : ∀ i ∈ p.inputs, ∃ d, i.initial = some d ∧ t.scope.get? i.name = some d.toFloat

lemma Recorded.consistent {settings : Settings} {scope : Scope} {s : Step} {r : StepRecord}
    (h : Recorded settings scope s r) : StepConsistent settings scope s r := by
  have hblank := Step.isBlank_of_evaluate h.value
  refine ⟨h.name, ?_, ?_⟩
  · rw [hblank, Option.isNone_iff_eq_none]
  · intro hfilled
    rw [hblank] at hfilled
    obtain ⟨d, hd, ⟨-, hnone⟩ | ⟨-, x, hx, hsome⟩⟩ := Step.evaluate_eq_ok_iff.1 h.value
    · rw [hnone] at hfilled
      exact absurd hfilled (by simp)
    · obtain ⟨f, hf, hevaluate⟩ := Definition.evaluate_eq_ok_iff.1 hx
      exact ⟨d, f, x, hd, hf, hevaluate, hsome, h.bound x hsome⟩

/-- **A trace agrees with itself.** -/
theorem selfConsistent_of_run {settings : Settings} {p : Program} {t : Trace}
    (h : p.run settings = .ok t) : SelfConsistent settings p t := by
  obtain ⟨hle, hrecorded, hnames⟩ := run_spec h
  have hvalid := (run_eq_ok_iff.1 h).1
  refine ⟨hrecorded.imp fun _ _ => Recorded.consistent, hnames, ?_⟩
  intro i hi
  obtain ⟨d, hd⟩ := Option.isSome_iff_exists.1 (hvalid.inputs i hi).2
  refine ⟨d, hd, hle _ _ ?_⟩
  rw [(startScope_spec hvalid).2 i hi, hd, Option.map_some]

/-- A program with a step that has not been written yet. -/
def doubled : Program where
  inputs := [.of "a" .float (.number 2.0)]
  steps := [.of "b" (.source ""), .of "c" (.tree (.array [.string "Add", .string "a", .string "a"]))]
  outputs := [.of "d" .float "c"]

theorem selfConsistent_doubled : ∃ t, doubled.run .standard = .ok t ∧
    SelfConsistent .standard doubled t := by
  have hvalid : doubled.Valid .standard := violation?_eq_none_iff.1 (by decide +kernel)
  have hsteps : runSteps .standard 0 (startScope doubled.inputs) doubled.steps =
      .ok ([⟨"b", none⟩, ⟨"c", some (2.0 + 2.0)⟩], .ofList [("a", 2.0), ("c", 2.0 + 2.0)]) := rfl
  have hrun := run_of_steps hvalid hsteps
  exact ⟨_, hrun, selfConsistent_of_run hrun⟩

end Program
end Formulary
