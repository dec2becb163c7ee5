import Formulary.Proofs.Expr.Applications
import Formulary.Proofs.Formula.CompleteScope
/-!
# Evaluation does not get stuck

A resolved expression comes to one of a few ends in every scope (`Expr.Outcome`), and on the way functions
are applied only to what they serve. So analysis of a source tells what evaluation can come to: the
message that it reports is what evaluation fails with in every scope, and if it reports none then
evaluation comes to one of the ends of a resolved expression (`evaluation_never_stuck`).
-/

namespace Formulary

open Result

/-- What analysis reports is what evaluation fails with. -/
lemma evaluateSource_of_analyze_eq_some {settings : Settings} {source message : String}
    (h : (analyze settings source).error = some message) (scope : Scope) :
    ∃ fault, evaluateSource settings source scope = .error fault ∧ fault.message = message := by
  obtain ⟨fault, hfault, hmessage⟩ := exists_fault_of_analyze h
  refine ⟨fault.suggestFrom scope, ?_, by rw [Fault.message_suggestFrom, hmessage]⟩
  rw [evaluateSource, hfault]

/-- A source that analysis finds right is evaluated as its expression is. -/
lemma evaluateSource_of_analyze_eq_none {settings : Settings} {source : String}
    (hblank : isBlankText source = false) (h : (analyze settings source).error = none) :
    ∃ f, Formula.ofSource settings source = .ok f ∧ f.expr.resolutionFault? = none ∧
      ∀ scope, evaluateSource settings source scope =
        (f.expr.evaluate scope).mapError (Fault.mapSpan f.template.toSource) := by
  obtain ⟨f, hf⟩ := exists_formula_of_analyze hblank h
  obtain ⟨-, ls, e, -, -, -, hresolved, hfe⟩ := Formula.ofSource_eq_ok_iff.1 hf
  refine ⟨f, hf, ?_, fun scope => ?_⟩
  · rw [hfe]
    exact Expr.resolutionFault?_eq_none_iff.2 hresolved
  · rw [evaluateSource, hf]
    rfl

/-- **Evaluation does not get stuck.** A resolved expression comes in every scope to a finite number or to
one of three faults, and its evaluation applies functions only to numbers that they serve. So in every
scope the evaluation of a source fails with the message that analysis reports; if it reports none, then
evaluation ends as that of a resolved expression does, but for the spans, which are those of the source. -/
theorem evaluation_never_stuck :
    (∀ e : Expr, e.resolutionFault? = none → ∀ scope : Scope,
      e.Outcome scope (e.evaluate scope) ∧
      (e.noted scope).result = e.value scope ∧
      ∀ note ∈ (e.noted scope).notes, note.1.Serves note.2) ∧
    ∀ settings source, isBlankText source = false →
      (∀ message, (analyze settings source).error = some message → ∀ scope,
        ∃ fault, evaluateSource settings source scope = .error fault ∧ fault.message = message) ∧
      ((analyze settings source).error = none →
        ∃ f, Formula.ofSource settings source = .ok f ∧ f.expr.resolutionFault? = none ∧
          ∀ scope, ∃ r, f.expr.Outcome scope r ∧
            evaluateSource settings source scope = r.mapError (Fault.mapSpan f.template.toSource)) := by
  refine ⟨fun e he scope => ?_, fun settings source hblank => ⟨fun message h scope => ?_, fun h => ?_⟩⟩
  · exact ⟨Expr.evaluate_of_resolved (Expr.resolutionFault?_eq_none_iff.1 he) scope,
      Expr.result_noted e, Expr.served_noted e⟩
  · exact evaluateSource_of_analyze_eq_some h scope
  · obtain ⟨f, hf, hresolved, heval⟩ := evaluateSource_of_analyze_eq_none hblank h
    refine ⟨f, hf, hresolved, fun scope => ⟨f.expr.evaluate scope, ?_, heval scope⟩⟩
    exact Expr.evaluate_of_resolved (Expr.resolutionFault?_eq_none_iff.1 hresolved) scope

/-- A call, a source that is wrong and one that is right. -/
theorem evaluation_of_call_and_sources :
    (∀ scope : Scope, Expr.Outcome
      (.call (.point 0) "abs" (.point 0) [.symbol (.point 0) (identifierOf "x")]) scope
      (Expr.evaluate (.call (.point 0) "abs" (.point 0) [.symbol (.point 0) (identifierOf "x")])
        scope)) ∧
    (∃ message, ∀ scope, ∃ fault,
      evaluateSource .standard ")" scope = .error fault ∧ fault.message = message) ∧
    ∃ f, Formula.ofSource .standard (Fault.reference "a") = .ok f ∧ ∀ scope, ∃ r,
      f.expr.Outcome scope r ∧ evaluateSource .standard (Fault.reference "a") scope =
        r.mapError (Fault.mapSpan f.template.toSource) := by
  -- the parenthesis is the first token, and none has been opened
  have htokens : tokenize [')'] = .ok [⟨.mark .rightParen, ⟨0, 1⟩⟩] := by with_unfolding_all rfl
  have htemplate : (Template.ofSource ")").text = [')'] := by with_unfolding_all rfl
  have hwrong : ∃ message, (analyze .standard ")").error = some message := by
    have htext : ∃ fault, Expr.ofText [')'] = .error fault := by
      rw [Expr.ofText, htokens]
      exact ⟨_, rfl⟩
    obtain ⟨fault, hfault⟩ := htext
    refine ⟨fault.message, ?_⟩
    simp [analyze, Formula.ofSource, htemplate, hfault, show isBlankText ")" = false from rfl]
  have hright : (analyze .standard (Fault.reference "a")).error = none :=
    analyze_eq_none (Formula.ofSource_reference (v := "a") rfl (by decide))
  obtain ⟨message, hmessage⟩ := hwrong
  obtain ⟨f, hf, -, hresult⟩ :=
    (evaluation_never_stuck.2 .standard _ (isBlankText_reference "a")).2 hright
  refine ⟨fun scope => (evaluation_never_stuck.1 _ rfl scope).1, ⟨message, fun scope => ?_⟩, f, hf,
    hresult⟩
  exact (evaluation_never_stuck.2 .standard ")" rfl).1 message hmessage scope

end Formulary
