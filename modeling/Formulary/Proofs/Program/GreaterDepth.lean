import Formulary.Proofs.Program.Run
/-!
# Runs with a greater depth

The depth that the settings allow is looked at in one place: after an expression has been read and
before its names are looked at (`Expr.checked`). With a greater depth allowed, what is read stays as it
is unless it was too deep before, whatever else is wrong with it. A run that came to its end keeps its
steps and its scope, and of its outputs only those can change that were too deep
(`Program.run_of_greater_depth`).
-/

namespace Formulary

open Result

/-- Whether a result is that an expression is too deep. -/
def IsTooDeep {α : Type} (r : Except Fault α) : Prop :=
  ∃ s, r = .error (.tooDeep s)

lemma not_isTooDeep_ok {α : Type} (a : α) : ¬ IsTooDeep (.ok a : Except Fault α) := by
  rintro ⟨s, h⟩
  exact absurd h (by simp)

section
variable {c c' : Settings}

/-! ## Expressions and formulas -/

lemma Expr.exceeds_eq_false_of_le {limit limit' : Nat} {e : Expr} (hlimit : limit ≤ limit')
    (h : e.exceeds limit = false) : e.exceeds limit' = false := by
  rw [← Bool.not_eq_true, exceeds_iff] at h ⊢
  omega

/-- An expression that was not too deep has the same fault in its names as before, or none. -/
lemma Expr.checked_of_le (hdepth : c.maxDepth ≤ c'.maxDepth) {e : Expr}
    (h : ¬ IsTooDeep (e.checked c)) : e.checked c' = e.checked c := by
  have hlow : e.exceeds c.maxDepth = false := by
    by_contra hexceeds
    have hexceeds : e.exceeds c.maxDepth = true := by simpa using hexceeds
    exact h ⟨e.span, by rw [checked, if_pos hexceeds]⟩
  rw [checked, checked, exceeds_eq_false_of_le hdepth hlow, hlow]

lemma Formula.ofSource_of_le (hdepth : c.maxDepth ≤ c'.maxDepth) {source : String}
    (h : ¬ IsTooDeep (ofSource c source)) : ofSource c' source = ofSource c source := by
  unfold ofSource at h ⊢
  split
  · rfl
  · rename_i hblank
    rw [if_neg hblank] at h
    dsimp only at h ⊢
    rcases htext : Expr.ofText (Template.ofSource source).text with fault | e
    · rfl
    · rw [htext, ok_bind] at h
      rw [ok_bind, ok_bind, Expr.checked_of_le hdepth]
      rintro ⟨s, hs⟩
      rw [hs] at h
      exact h ⟨_, rfl⟩

lemma Formula.ofTree_of_le (hdepth : c.maxDepth ≤ c'.maxDepth) {tree : Json}
    (h : ¬ IsTooDeep (ofTree c tree)) : ofTree c' tree = ofTree c tree := by
  unfold ofTree at h ⊢
  rcases htree : (Tree.toExpr tree).mapError Fault.badTree with fault | e
  · rfl
  · rw [htree, ok_bind] at h
    rw [ok_bind, ok_bind, Expr.checked_of_le hdepth]
    rintro ⟨s, hs⟩
    exact h ⟨s, by rw [hs, error_bind]⟩

lemma Definition.formula_of_le (hdepth : c.maxDepth ≤ c'.maxDepth) {d : Definition}
    (h : ¬ IsTooDeep (d.formula c)) : d.formula c' = d.formula c := by
  cases d with
  | source text => exact Formula.ofSource_of_le hdepth h
  | tree value => exact Formula.ofTree_of_le hdepth h

lemma Definition.evaluate_of_le (hdepth : c.maxDepth ≤ c'.maxDepth) {d : Definition} {scope : Scope}
    (h : ¬ IsTooDeep (d.evaluate c scope)) : d.evaluate c' scope = d.evaluate c scope := by
  rw [evaluate, evaluate, formula_of_le hdepth]
  rintro ⟨s, hs⟩
  exact h ⟨s, by rw [evaluate, hs, error_bind]⟩

namespace Program

/-! ## Steps and outputs -/

lemma Step.evaluate_eq_ok_of_depth (hdepth : c.maxDepth ≤ c'.maxDepth) {s : Step} {scope : Scope}
    {value : Option Float} (h : s.evaluate c scope = .ok value) :
    s.evaluate c' scope = .ok value := by
  obtain ⟨d, hd, hcase⟩ := Step.evaluate_eq_ok_iff.1 h
  refine Step.evaluate_eq_ok_iff.2 ⟨d, hd, hcase.imp id ?_⟩
  rintro ⟨hblank, x, hx, rfl⟩
  refine ⟨hblank, x, ?_, rfl⟩
  rw [← hx]
  exact Definition.evaluate_of_le hdepth (hx ▸ not_isTooDeep_ok x)

/-- Steps that came to their end leave the same records and the same scope. -/
theorem runSteps_of_depth (hdepth : c.maxDepth ≤ c'.maxDepth) {index : Nat} {scope final : Scope}
    {ss : List Step} {rs : List StepRecord} (h : runSteps c index scope ss = .ok (rs, final)) :
    runSteps c' index scope ss = .ok (rs, final) := by
  induction ss generalizing index scope rs with
  | nil => exact h
  | cons s ss ih =>
    obtain ⟨value, rest, hvalue, hrest, rfl⟩ := runSteps_cons_eq_ok_iff.1 h
    exact runSteps_cons_eq_ok_iff.2
      ⟨value, rest, Step.evaluate_eq_ok_of_depth hdepth hvalue, ih hrest, rfl⟩

lemma Output.evaluate_of_le (hdepth : c.maxDepth ≤ c'.maxDepth) {o : Output} {scope : Scope}
    (h : ¬ IsTooDeep (o.evaluate c scope)) : o.evaluate c' scope = o.evaluate c scope := by
  unfold Output.evaluate at h ⊢
  rcases hvalue : o.value with _ | d
  · rfl
  · rw [hvalue] at h
    dsimp only at h ⊢
    rcases hplain : d.plainName? with _ | name
    · rw [hplain] at h
      exact Definition.evaluate_of_le hdepth h
    · rfl

/-- An output that does not report that it is too deep reports the same. -/
lemma Output.record_of_le (hdepth : c.maxDepth ≤ c'.maxDepth) {o : Output} {scope : Scope}
    (h : (o.record c scope).error ≠ some "expression nested too deeply") :
    o.record c' scope = o.record c scope := by
  rw [Output.record, Output.record, Output.evaluate_of_le hdepth]
  rintro ⟨s, hs⟩
  have herror : (o.record c scope).error = some (Fault.tooDeep s).message := by
    rw [Output.record, hs]
  exact h herror

/-! ## Whole runs -/

lemma Valid.of_strictReferences_eq {p : Program} (h : p.Valid c)
    (hstrict : c.strictReferences = c'.strictReferences) : p.Valid c' :=
  { h with references := fun h' => h.references (hstrict ▸ h') }

/-- **A greater depth changes nothing that worked.** A run that comes to its end does so with a greater
depth, too, with the same steps and the same scope. An output that shows a number, or an error other
than that it is too deep, shows the same. -/
theorem run_of_greater_depth {p : Program} {t : Trace}
    (hstrict : c.strictReferences = c'.strictReferences) (hdepth : c.maxDepth ≤ c'.maxDepth)
    (h : p.run c = .ok t) :
    ∃ t', p.run c' = .ok t' ∧ t'.steps = t.steps ∧ t'.scope = t.scope ∧
      List.Forall₂ (fun o o' : OutputRecord =>
        o.error ≠ some "expression nested too deeply" → o' = o) t.outputs t'.outputs := by
  obtain ⟨hvalid, hsteps, houtputs⟩ := run_eq_ok_iff.1 h
  refine ⟨_, run_of_steps (hvalid.of_strictReferences_eq hstrict) (runSteps_of_depth hdepth hsteps),
    rfl, rfl, ?_⟩
  rw [houtputs]
  dsimp only
  rw [List.forall₂_map_left_iff, List.forall₂_map_right_iff, List.forall₂_same]
  exact fun o _ herror => Output.record_of_le hdepth herror

/-- A program with an output that is deeper than its step. -/
def layered : Program where
  inputs := [.of "a" .float (.number 2.0)]
  steps := [.of "b" (.tree (.string "a"))]
  outputs := [.of "c" .float "b",
    ⟨"d", "", none, .float, none, some (.tree (.array [.string "Negate", .string "b"]))⟩]

theorem run_layered_deeper : ∃ t t', layered.run ⟨true, 1⟩ = .ok t ∧ layered.run ⟨true, 2⟩ = .ok t' ∧
    t.outputs.map OutputRecord.error = [none, some "expression nested too deeply"] ∧
    t'.outputs.map OutputRecord.error = [none, none] ∧
    t'.steps = t.steps ∧ t'.scope = t.scope ∧
    List.Forall₂ (fun o o' : OutputRecord =>
      o.error ≠ some "expression nested too deeply" → o' = o) t.outputs t'.outputs := by
  have hvalid : layered.Valid ⟨true, 1⟩ := violation?_eq_none_iff.1 (by decide +kernel)
  have hsteps : runSteps ⟨true, 1⟩ 0 (startScope layered.inputs) layered.steps =
      .ok ([⟨"b", some 2.0⟩], .ofList [("a", 2.0), ("b", 2.0)]) := rfl
  have hrun := run_of_steps hvalid hsteps
  have hdeeper : (⟨true, 1⟩ : Settings).maxDepth ≤ (⟨true, 2⟩ : Settings).maxDepth := by decide
  obtain ⟨t', ht', hkept⟩ := run_of_greater_depth (by rfl) hdeeper hrun
  refine ⟨_, t', hrun, ht', rfl, ?_, hkept⟩
  obtain ⟨-, -, houtputs⟩ := run_eq_ok_iff.1 ht'
  rw [houtputs, hkept.2.1]
  rfl

end Program
end
end Formulary
