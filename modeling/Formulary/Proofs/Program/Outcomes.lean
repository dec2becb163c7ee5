import Formulary.Proofs.Number.Rounding
import Formulary.Proofs.Program.Names
/-!
# What runs report

Only the evaluation of a formula checks that a number is finite. An output that names a step takes the
number out of the scope, and a number is made a value of its type after the check; what is reported is
finite and of its type all the same (`Program.run_reports`).
-/

namespace Formulary

/-- A number bound in a scope of finite numbers. -/
lemma Scope.Finite.of_mem {scope : Scope} (h : scope.Finite) {b : String × Float}
    (hb : b ∈ scope.bindings) : b.2.isFinite = true := by
  refine h b.1 b.2 ?_
  obtain ⟨before, after, hbindings⟩ := List.append_of_mem hb
  rw [get?, List.lookup_eq_some_iff]
  refine ⟨before, after, hbindings, fun c hc => ?_⟩
  have hdistinct := scope.distinct
  rw [hbindings, List.map_append, List.map_cons] at hdistinct
  have hne := (List.nodup_append.1 hdistinct).2.2 c.1 (List.mem_map_of_mem hc) b.1 List.mem_cons_self
  simpa using hne.symm

/-- A finite number is finite as a value of any type, and it is of that type. -/
lemma NumberType.normalize_spec (type : NumberType) {x : Float} (h : x.isFinite = true) :
    (type.normalize x).isFinite = true ∧
      (type = .integer → isIntegral (type.normalize x) = true) ∧
      (type = .boolean → type.normalize x = 0.0 ∨ type.normalize x = 1.0) := by
  cases type with
  | integer =>
    rw [normalize, roundHalfAway]
    exact ⟨isFinite_roundBy _ h, fun _ => isIntegral_roundBy _ h, fun e => absurd e (by simp)⟩
  | float =>
    rw [normalize]
    exact ⟨h, fun e => absurd e (by simp), fun e => absurd e (by simp)⟩
  | boolean =>
    rw [normalize, Arithmetic.ofBool]
    split
    · exact ⟨rfl, fun e => absurd e (by simp), fun _ => .inr rfl⟩
    · exact ⟨rfl, fun e => absurd e (by simp), fun _ => .inl rfl⟩

namespace Program

variable {settings : Settings}

/-- What the record of an output is like: it has a finite value of the type of the output, or an
error. -/
structure Reports (o : Output) (r : OutputRecord) : Prop where
  name : r.name = o.name
  value_or_error : r.value.isSome = true ↔ r.error.isSome = false
  finite : ∀ x, r.value = some x → x.isFinite = true
  integral : ∀ x, r.value = some x → o.type = .integer → isIntegral x = true
  boolean : ∀ x, r.value = some x → o.type = .boolean → x = 0.0 ∨ x = 1.0

/-- In a scope of finite numbers an output comes to a finite number, if to any. -/
lemma Output.isFinite_of_evaluate {o : Output} {scope : Scope} {x : Float} (hscope : scope.Finite)
    (h : o.evaluate settings scope = .ok x) : x.isFinite = true := by
  rw [Output.evaluate] at h
  split at h
  · exact absurd h (by simp)
  · split at h
    · rename_i name _
      split at h
      · rename_i y hy
        obtain rfl := Except.ok.inj h
        exact hscope name y hy
      · exact absurd h (by simp)
    · exact Definition.isFinite_of_evaluate h

lemma Output.reports_record (o : Output) {scope : Scope} (hscope : scope.Finite) :
    Reports o (o.record settings scope) := by
  rw [Output.record]
  rcases hvalue : o.evaluate settings scope with fault | x
  · exact {
      name := rfl
      value_or_error := by simp
      finite := fun x hx => absurd hx (by simp)
      integral := fun x hx => absurd hx (by simp)
      boolean := fun x hx => absurd hx (by simp) }
  · obtain ⟨hfinite, hintegral, hboolean⟩ :=
      o.type.normalize_spec (Output.isFinite_of_evaluate hscope hvalue)
    exact {
      name := rfl
      value_or_error := by simp
      finite := fun y hy => Option.some.inj hy ▸ hfinite
      integral := fun y hy htype => Option.some.inj hy ▸ hintegral htype
      boolean := fun y hy htype => Option.some.inj hy ▸ hboolean htype }

lemma finite_of_recorded {final : Scope} {ss : List Step} {rs : List StepRecord} (hfinal : final.Finite)
    (h : List.Forall₂ (Recorded settings final) ss rs) :
    ∀ r ∈ rs, ∀ x, r.value = some x → x.isFinite = true := by
  induction h with
  | nil => exact fun r hr => absurd hr List.not_mem_nil
  | cons hrecorded _ ih =>
    intro r hr x hx
    rcases List.mem_cons.1 hr with rfl | hr
    · exact hfinal _ x (hrecorded.bound x hx)
    · exact ih r hr x hx

/-- Truth values are finite. -/
lemma Input.isFinite_of_start? {i : Input} (h : ∀ x, i.initial = some (.number x) → x.isFinite = true) :
    ∀ x, i.start? = some x → x.isFinite = true := by
  intro x hx
  rw [Input.start?] at hx
  rcases hinitial : i.initial with _ | b | y
  · rw [hinitial] at hx
    exact absurd hx (by simp)
  · rw [hinitial] at hx
    obtain rfl := Option.some.inj hx
    cases b <;> rfl
  · rw [hinitial] at hx
    obtain rfl := Option.some.inj hx
    exact h y hinitial

/-- **All that a run reports is finite and of its type.** If the numbers that the inputs start from are
finite, then so are those of the steps and those of the scope. There is one record to each output, in
order, with a finite value of its type or with an error. -/
theorem run_reports {p : Program} {t : Trace}
    (hinputs : ∀ i ∈ p.inputs, ∀ x, i.initial = some (.number x) → x.isFinite = true)
    (h : p.run settings = .ok t) :
    (∀ r ∈ t.steps, ∀ x, r.value = some x → x.isFinite = true) ∧
    (∀ b ∈ t.scope.bindings, b.2.isFinite = true) ∧
    List.Forall₂ Reports p.outputs t.outputs := by
  obtain ⟨-, hsteps, houtputs⟩ := run_eq_ok_iff.1 h
  obtain ⟨-, hrecorded, -⟩ := run_spec h
  have hstart : (startScope p.inputs).Finite :=
    finite_foldl_extend Scope.finite_empty fun i hi => Input.isFinite_of_start? (hinputs i hi)
  have hfinal : t.scope.Finite := finite_runSteps hstart hsteps
  refine ⟨finite_of_recorded hfinal hrecorded, fun b hb => hfinal.of_mem hb, ?_⟩
  rw [houtputs, List.forall₂_map_right_iff, List.forall₂_same]
  exact fun o _ => o.reports_record hfinal

/-- A program that shows one step as an integer and as a truth value, and has an output that fails. -/
def shown : Program where
  inputs := [.of "a" .float (.number 2.5)]
  steps := [.of "b" (.tree (.string "a"))]
  outputs := [.of "whole" .integer "b", .of "truth" .boolean "b",
    ⟨"none", "", none, .float, none, some (.tree (.array []))⟩]

theorem run_shown_reports : ∃ t, shown.run .standard = .ok t ∧
    t.outputs.map OutputRecord.value = [some 3.0, some 1.0, none] ∧
    (∀ b ∈ t.scope.bindings, b.2.isFinite = true) ∧ List.Forall₂ Reports shown.outputs t.outputs := by
  have hvalid : shown.Valid .standard := violation?_eq_none_iff.1 (by decide +kernel)
  have hsteps : runSteps .standard 0 (startScope shown.inputs) shown.steps =
      .ok ([⟨"b", some 2.5⟩], .ofList [("a", 2.5), ("b", 2.5)]) := rfl
  have hrun := run_of_steps hvalid hsteps
  have hinputs : ∀ i ∈ shown.inputs, ∀ x, i.initial = some (.number x) → x.isFinite = true := by
    intro i hi x hx
    obtain rfl := List.mem_singleton.1 hi
    obtain rfl := Initial.number.inj (Option.some.inj hx)
    rfl
  obtain ⟨-, hscope, houtputs⟩ := run_reports hinputs hrun
  exact ⟨_, hrun, rfl, hscope, houtputs⟩

end Program
end Formulary
