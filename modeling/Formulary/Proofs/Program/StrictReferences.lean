import Formulary.Proofs.Formula.Name
import Formulary.Proofs.Program.Run
/-!
# Strict references

If validation is strict, a step refers only to inputs and to earlier steps that are not blank. Along a
run the names that validation counts as having a number are bound (`Program.Covers`), so a reference
never meets a name without a binding. What validation does not see is an identifier of a variable that
stands bare in a source, and only there can a binding be missing
(`Program.standsBare_of_unbound`).
-/

namespace Formulary

open Result

/-! ## Where a binding is missing -/

lemma Definition.resolved_of_formula {d : Definition} {settings : Settings} {f : Formula}
    (h : d.formula settings = .ok f) : f.expr.Resolved := by
  cases d with
  | source text =>
    obtain ⟨-, _, e, -, -, -, hresolved, rfl⟩ := Formula.ofSource_eq_ok_iff.1 h
    exact hresolved
  | tree value =>
    obtain ⟨e, -, -, hresolved, rfl⟩ := Formula.ofTree_eq_ok_iff.1 h
    exact hresolved

lemma Definition.not_isUnbound_formula {d : Definition} {settings : Settings} :
    ¬ IsUnbound (d.formula settings) := by
  cases d with
  | source text => exact Formula.not_isUnbound_ofSource
  | tree value => exact Formula.not_isUnbound_ofTree

/-- A variable that is reported to have no binding is one of the formula, and the scope lacks it. -/
lemma Definition.unbound_of_evaluate {d : Definition} {settings : Settings} {scope : Scope}
    {v : String} {span : Option Span} {suggestion : Option String}
    (h : d.evaluate settings scope = .error (.unbound v span suggestion)) :
    ∃ f, d.formula settings = .ok f ∧ v ∈ f.expr.mentions ∧ scope.get? v = none := by
  rw [Definition.evaluate] at h
  rcases bind_eq_error.1 h with h | ⟨f, hf, h⟩
  · exact absurd ⟨v, span, suggestion, h⟩ not_isUnbound_formula
  · obtain ⟨fault, hfault, hspan⟩ := mapError_eq_error.1 h
    have houtcome := Expr.evaluate_of_resolved (resolved_of_formula hf) scope
    rw [hfault] at houtcome
    cases houtcome with
    | notFinite _ => exact absurd hspan (by simp [Fault.mapSpan])
    | reserved _ => exact absurd hspan (by simp [Fault.mapSpan])
    | @unbound w s hw hget =>
      obtain rfl : w = v := (Fault.unbound.inj hspan).1
      exact ⟨f, hf, Expr.mem_mentions.2 ⟨s, _, hw, variableOf?_identifierOf w⟩, hget⟩

/-- A variable without a binding that is not among those listed for a definition stands bare in it, and
the definition is a source. -/
lemma Definition.exists_bare_of_unbound {d : Definition} {settings : Settings} {scope : Scope}
    {v : String} {span : Option Span} {suggestion : Option String}
    (hbound : ∀ n ∈ d.variableNames, scope.contains n = true)
    (h : d.evaluate settings scope = .error (.unbound v span suggestion)) :
    ∃ text, d = .source text ∧ StandsBare text (identifierOf v) := by
  obtain ⟨f, hf, hv, hget⟩ := unbound_of_evaluate h
  have hfree : v ∉ d.variableNames := by
    intro hmem
    have := hbound v hmem
    rw [Scope.contains_eq_false_iff.2 hget] at this
    exact absurd this (by simp)
  cases d with
  | source text =>
    rcases Formula.mentions_of_source hf hv with hbare | hmem
    · exact ⟨text, rfl, hbare⟩
    · exact absurd hmem hfree
  | tree value => exact absurd ((Formula.mentions_of_tree hf).1 hv) hfree

namespace Program

/-! ## What validation has seen -/

lemma referenceFault?_eq_none_iff {step name : String} {visible : List (String × Bool)}
    {declared : List String} :
    referenceFault? step visible declared name = none ↔ visible.lookup name = some true := by
  rw [referenceFault?]
  rcases visible.lookup name with _ | _ | _
  · simp only [reduceCtorEq, iff_false]
    split
    · simp
    · split <;> simp
  · simp
  · simp

lemma referenceViolation?_eq_none_iff {index : Nat} {step : String} {visible : List (String × Bool)}
    {declared : List String} {d : Definition} :
    referenceViolation? index step visible declared d = none ↔
      ∀ v ∈ d.variableNames, visible.lookup v = some true := by
  rw [referenceViolation?, List.findSome?_eq_none_iff]
  simp only [Option.map_eq_none_iff, referenceFault?_eq_none_iff]

lemma firstBadReference?_cons_eq_none_iff {visible : List (String × Bool)} {declared : List String}
    {index : Nat} {s : Step} {ss : List Step} {d : Definition} (hd : s.definition = some d) :
    firstBadReference? visible declared index (s :: ss) = none ↔
      (∀ v ∈ d.variableNames, visible.lookup v = some true) ∧
        firstBadReference? ((s.name, !d.isBlank) :: visible) declared (index + 1) ss = none := by
  rw [firstBadReference?, hd]
  dsimp only
  split
  · rename_i v hviolation
    refine iff_of_false (by simp) fun h => ?_
    rw [referenceViolation?_eq_none_iff.2 h.1] at hviolation
    exact absurd hviolation (by simp)
  · rename_i hnone
    exact (and_iff_right (referenceViolation?_eq_none_iff.1 hnone)).symm

/-! ## The invariant of a run -/

/-- Each name that counts as having a number is bound. -/
def Covers (scope : Scope) (visible : List (String × Bool)) : Prop :=
  ∀ n, visible.lookup n = some true → scope.contains n = true

lemma covers_startScope {settings : Settings} {p : Program} (hp : p.Valid settings) :
    Covers (startScope p.inputs) (p.inputNames.map fun name => (name, true)) := by
  intro n hn
  rw [Scope.contains_iff_mem_names, (startScope_spec hp).1]
  obtain ⟨m, hm, heq⟩ := List.mem_map.1 (mem_of_lookup hn)
  obtain rfl := (Prod.mk.inj heq).1
  exact hm

/-- A step that comes to an end keeps the names that count as having a number bound. -/
lemma covers_extend {settings : Settings} {scope : Scope} {visible : List (String × Bool)} {s : Step}
    {d : Definition} {value : Option Float} (hcovers : Covers scope visible)
    (hd : s.definition = some d) (h : s.evaluate settings scope = .ok value) :
    Covers (s.extend scope value) ((s.name, !d.isBlank) :: visible) := by
  have hblank : d.isBlank = value.isNone := by
    simpa [Step.isBlank, hd] using Step.isBlank_of_evaluate h
  intro n hn
  rw [List.lookup_cons] at hn
  cases value with
  | none =>
    -- a blank step hides an earlier binding of its name from validation
    split at hn
    · simp [hblank] at hn
    · exact hcovers n hn
  | some x =>
    rw [Step.extend, Scope.contains_insert]
    split at hn
    · rename_i hname
      exact .inl (by simpa using hname)
    · exact .inr (hcovers n hn)

/-- The step at which a run with strict references fails had its references bound. -/
theorem exists_failed_step {settings : Settings} {index index' i : Nat} {scope : Scope}
    {visible : List (String × Bool)} {declared : List String} {ss : List Step} {name : String}
    {fault : Fault} (hcovers : Covers scope visible)
    (hrefs : firstBadReference? visible declared index' ss = none)
    (h : runSteps settings index scope ss = .error (.failed i name fault)) :
    ∃ k s scope', i = index + k ∧ ss[k]? = some s ∧ s.name = name ∧
      s.evaluate settings scope' = .error fault ∧
      ∀ d, s.definition = some d → ∀ v ∈ d.variableNames, scope'.contains v = true := by
  -- validation and run go through the steps side by side; `Covers` is what ties them together
  induction ss generalizing index index' scope visible with
  | nil => exact absurd h (by simp [runSteps])
  | cons s ss ih =>
    rcases runSteps_cons_eq_error_iff.1 h with ⟨cause, hcause, hfailed⟩ | ⟨value, hvalue, hrest⟩
    · obtain ⟨rfl, rfl, rfl⟩ := RunFault.failed.inj hfailed
      refine ⟨0, s, scope, rfl, rfl, rfl, hcause, fun d hd v hv => ?_⟩
      exact hcovers v (((firstBadReference?_cons_eq_none_iff hd).1 hrefs).1 v hv)
    · obtain ⟨d, hd, -⟩ := Step.evaluate_eq_ok_iff.1 hvalue
      obtain ⟨k, r, scope', hi, hr, hstep⟩ := ih (covers_extend hcovers hd hvalue)
        ((firstBadReference?_cons_eq_none_iff hd).1 hrefs).2 hrest
      exact ⟨k + 1, r, scope', by omega, hr, hstep⟩

/-! ## Whole runs -/

/-- **With strict references, a run fails for want of a binding only at a step with a source in which
the identifier of the variable stands bare.** -/
theorem standsBare_of_unbound {settings : Settings} {p : Program} {index : Nat} {name v : String}
    {span : Option Span} {suggestion : Option String} (hstrict : settings.strictReferences = true)
    (h : p.run settings = .error (.failed index name (.unbound v span suggestion))) :
    ∃ s text, p.steps[index]? = some s ∧ s.name = name ∧ s.definition = some (.source text) ∧
      StandsBare text (identifierOf v) := by
  obtain ⟨hvalid, hsteps⟩ := run_eq_failed_iff.1 h
  obtain ⟨k, s, scope, hk, hs, hname, hfault, hbound⟩ :=
    exists_failed_step (covers_startScope hvalid) (hvalid.references hstrict) hsteps
  rw [Nat.zero_add] at hk
  subst hk
  rcases Step.evaluate_eq_error_iff.1 hfault with ⟨-, hblank⟩ | ⟨d, hd, -, hevaluate⟩
  · exact absurd hblank (by simp)
  · obtain ⟨text, rfl, hbare⟩ := Definition.exists_bare_of_unbound (hbound d hd) hevaluate
    exact ⟨s, text, hs, hname, hd, hbare⟩

/-- A program with a bare identifier. -/
def bareStep : Program where
  inputs := []
  steps := [.of "a" (.source "__v_q")]
  outputs := [.of "b" .float "a"]

theorem standsBare_bareStep : bareStep.run .standard = .error (.failed 0 "a"
      (.unbound "q" (some ⟨0, 5⟩) none)) ∧
    ∃ s text, bareStep.steps[0]? = some s ∧ s.name = "a" ∧ s.definition = some (.source text) ∧
      StandsBare text (identifierOf "q") := by
  have hname : isName "q" = true := rfl
  have hq : "__v_q" = identifierOf "q" := by decide
  have hvalid : bareStep.Valid .standard := violation?_eq_none_iff.1 (by decide +kernel)
  have hevaluate : Definition.evaluate (.source "__v_q") .standard .empty =
      .error (.unbound "q" (some ⟨0, 5⟩) none) := by
    have hf : Formula.ofSource .standard (identifierOf "q") = .ok _ :=
      Formula.ofSource_identifier hname (by decide)
    have h := evaluateSource_identifier hname (by decide : 0 < Settings.standard.maxDepth)
      (Scope.get?_empty "q")
    rw [evaluateSource, hf] at h
    rw [Definition.evaluate, Definition.formula, hq, hf, ok_bind]
    exact h
  have hrun : bareStep.run .standard =
      .error (.failed 0 "a" (.unbound "q" (some ⟨0, 5⟩) none)) := by
    refine run_eq_failed_iff.2 ⟨hvalid, runSteps_cons_eq_error_iff.2 (.inl ⟨_, ?_, rfl⟩)⟩
    exact Step.evaluate_eq_error_iff.2 (.inr ⟨_, rfl, by decide, hevaluate⟩)
  exact ⟨hrun, standsBare_of_unbound rfl hrun⟩

end Program
end Formulary
