import Formulary.Proofs.Formula.Name
import Formulary.Proofs.Program.Run
/-!
# The names of a program

Validation sees to it that the names of a program are distinct and that those of the inputs can be
referred to. All numbers that a run binds are finite if those are that it starts from
(`Program.finite_runSteps`), so a name that can be referred to can be read back at the end
(`Program.names_read_back`). What the name of a step is made of is not looked at, nor whether what an
input starts from is of its type (`Program.unruly`).
-/

namespace Formulary

open Result

/-- All numbers that a scope binds are finite. -/
def Scope.Finite (scope : Scope) : Prop :=
  ∀ name x, scope.get? name = some x → x.isFinite = true

lemma Scope.finite_empty : Scope.empty.Finite := by
  intro name x h
  exact absurd h (by simp)

lemma Scope.Finite.insert {scope : Scope} {name : String} {x : Float} (h : scope.Finite)
    (hx : x.isFinite = true) : (scope.insert name x).Finite := by
  intro n y hn
  rw [Scope.get?_insert] at hn
  split at hn
  · obtain rfl := Option.some.inj hn
    exact hx
  · exact h n y hn

lemma Definition.isFinite_of_evaluate {d : Definition} {settings : Settings} {scope : Scope} {x : Float}
    (h : d.evaluate settings scope = .ok x) : x.isFinite = true := by
  obtain ⟨f, -, hx⟩ := evaluate_eq_ok_iff.1 h
  exact Expr.isFinite_of_evaluate (mapError_eq_ok.1 hx)

namespace Program

variable {settings : Settings}

/-! ## Finite numbers -/

/-- A step adds a finite number at most. -/
lemma Step.finite_extend {s : Step} {scope : Scope} {value : Option Float} (hscope : scope.Finite)
    (h : s.evaluate settings scope = .ok value) : (s.extend scope value).Finite := by
  obtain ⟨d, -, ⟨-, rfl⟩ | ⟨-, x, hx, rfl⟩⟩ := Step.evaluate_eq_ok_iff.1 h
  · exact hscope
  · exact hscope.insert (Definition.isFinite_of_evaluate hx)

/-- Steps that start from finite numbers end with finite numbers. -/
theorem finite_runSteps {index : Nat} {scope final : Scope} {ss : List Step} {rs : List StepRecord}
    (hscope : scope.Finite) (h : runSteps settings index scope ss = .ok (rs, final)) :
    final.Finite := by
  induction ss generalizing index scope rs with
  | nil =>
    obtain ⟨-, rfl⟩ := Prod.mk.inj (Except.ok.inj h)
    exact hscope
  | cons s ss ih =>
    obtain ⟨value, rest, hvalue, hrest, -⟩ := runSteps_cons_eq_ok_iff.1 h
    exact ih (Step.finite_extend hscope hvalue) hrest

lemma finite_foldl_extend {scope : Scope} {is : List Input} (hscope : scope.Finite)
    (his : ∀ i ∈ is, ∀ x, i.start? = some x → x.isFinite = true) :
    (is.foldl (fun scope i => i.extend scope) scope).Finite := by
  induction is generalizing scope with
  | nil => exact hscope
  | cons i is ih =>
    refine ih ?_ fun j hj => his j (List.mem_cons_of_mem i hj)
    show (i.extend scope).Finite
    rw [Input.extend]
    split
    · rename_i x hx
      exact hscope.insert (his i List.mem_cons_self x hx)
    · exact hscope

/-! ## Reading back -/

/-- **The names of a valid program are distinct, those of its inputs can be referred to and each have a
number to start from. At the end of a run that starts from finite numbers, every bound name that can be
referred to can be read back.** -/
theorem names_read_back {p : Program} (h : p.violation? settings = none) :
    (∀ i ∈ p.inputs, isName i.name = true ∧ i.initial.isSome = true) ∧
    (∀ s ∈ p.steps, s.name ≠ "") ∧
    (p.inputNames ++ p.stepNames).Nodup ∧
    ∀ t, p.run settings = .ok t → (∀ i ∈ p.inputs, ∀ x, i.start? = some x → x.isFinite = true) →
      ∀ name x, t.scope.get? name = some x → isName name = true →
        ∀ settings' : Settings, 0 < settings'.maxDepth →
          evaluateSource settings' (Fault.reference name) t.scope = .ok x := by
  have hvalid := violation?_eq_none_iff.1 h
  refine ⟨hvalid.inputs, fun s hs => (hvalid.steps s hs).1, hvalid.distinct, ?_⟩
  intro t ht hinputs name x hx hname settings' hdepth
  obtain ⟨-, hrun, -⟩ := run_eq_ok_iff.1 ht
  have hstart : (startScope p.inputs).Finite := finite_foldl_extend Scope.finite_empty hinputs
  have hfinal : t.scope.Finite := finite_runSteps hstart hrun
  exact evaluateSource_reference hname hdepth hx (hfinal name x hx)

/-- A program with a step that makes a new number of an input. -/
def negated : Program where
  inputs := [.of "a" .boolean (.flag true)]
  steps := [.of "b" (.tree (.array [.string "Negate", .string "a"]))]
  outputs := [.of "c" .float "b"]

theorem negated_read_back : ∃ t, negated.run .standard = .ok t ∧
    evaluateSource .standard "\x7b\x7ba\x7d\x7d" t.scope = .ok 1.0 ∧
    evaluateSource .standard "\x7b\x7bb\x7d\x7d" t.scope = .ok (-1.0) := by
  have hnone : negated.violation? .standard = none := by decide +kernel
  have hsteps : runSteps .standard 0 (startScope negated.inputs) negated.steps =
      .ok ([⟨"b", some (-1.0)⟩], .ofList [("a", 1.0), ("b", -1.0)]) := rfl
  have hrun := run_of_steps (violation?_eq_none_iff.1 hnone) hsteps
  have hinputs : ∀ i ∈ negated.inputs, ∀ x, i.start? = some x → x.isFinite = true := by
    intro i hi x hx
    obtain rfl := List.mem_singleton.1 hi
    obtain rfl := Option.some.inj hx
    rfl
  obtain ⟨-, -, -, hread⟩ := names_read_back hnone
  have hread := hread _ hrun hinputs
  exact ⟨_, hrun, hread "a" 1.0 rfl rfl .standard (by decide),
    hread "b" (-1.0) rfl rfl .standard (by decide)⟩

/-- A program with a boolean input that starts from a number and a step whose name has a blank. -/
def unruly : Program where
  inputs := [.of "a" .boolean (.number 2.0)]
  steps := [.of "b c" (.tree (.string "a"))]
  outputs := [.of "d" .float "1"]

theorem unruly_not_read_back : unruly.violation? .standard = none ∧
    (∃ i ∈ unruly.inputs, i.type = .boolean ∧ i.initial = some (.number 2.0)) ∧
    (∃ s ∈ unruly.steps, isName s.name = false) ∧
    ∃ t, unruly.run .standard = .ok t ∧ t.scope.get? "b c" = some 2.0 ∧
      evaluateSource .standard "\x7b\x7bb c\x7d\x7d" t.scope ≠ .ok 2.0 := by
  have hnone : unruly.violation? .standard = none := by decide +kernel
  have hsteps : runSteps .standard 0 (startScope unruly.inputs) unruly.steps =
      .ok ([⟨"b c", some 2.0⟩], .ofList [("a", 2.0), ("b c", 2.0)]) := rfl
  have hrun := run_of_steps (violation?_eq_none_iff.1 hnone) hsteps
  refine ⟨hnone, ⟨_, List.mem_cons_self, rfl, rfl⟩, ⟨_, List.mem_cons_self, rfl⟩, _, hrun, rfl, ?_⟩
  -- no token begins with a brace
  have htokens : tokensOf (Template.ofSource "\x7b\x7bb c\x7d\x7d").text = none := by
    with_unfolding_all rfl
  intro h
  rw [evaluateSource] at h
  split at h
  · exact absurd h (by simp)
  · rename_i f hf
    obtain ⟨-, ls, e, hls, -⟩ := Formula.ofSource_eq_ok_iff.1 hf
    rw [tokensOf_of_tokenize hls] at htokens
    exact absurd htokens (by simp)

end Program
end Formulary
