import Formulary.Proofs.Expr.Inlining
import Formulary.Proofs.Program.Run
/-!
# Steps inlined in others

A step that is not blank can be inlined where it is referred to: in the scope at the end of a run the
expression of the step still comes to the number that is bound to its name, so every other step keeps
its number and every output its record (`Program.inline_keeps_results`).
-/

namespace Formulary

open Result

namespace Program

variable {settings : Settings}

/-- The record of an output by what its value comes to. -/
def Output.recordOf (o : Output) : Except Fault Float → OutputRecord
  | .ok x => ⟨o.name, some (o.type.normalize x), none⟩
  | .error fault => ⟨o.name, none, some fault.message⟩

lemma Output.record_eq_recordOf (o : Output) (scope : Scope) :
    o.record settings scope = o.recordOf (o.evaluate settings scope) := by
  rw [record]
  cases o.evaluate settings scope <;> rfl

/-- Records do not show where a fault lies. -/
lemma Output.recordOf_mapSpan (o : Output) (move : Span → Span) (r : Except Fault Float) :
    o.recordOf (r.mapError (Fault.mapSpan move)) = o.recordOf r := by
  cases r with
  | error fault => simp [recordOf]
  | ok x => rfl

/-- The record of an output that is no plain name, by its expression. -/
lemma Output.record_of_formula {o : Output} {d : Definition} {f : Formula} (scope : Scope)
    (hvalue : o.value = some d) (hplain : d.plainName? = none) (hf : d.formula settings = .ok f) :
    o.record settings scope = o.recordOf (f.expr.evaluate scope) := by
  rw [record_eq_recordOf, Output.evaluate, hvalue]
  dsimp only
  rw [hplain]
  dsimp only
  rw [Definition.evaluate, hf, ok_bind, Formula.evaluate, recordOf_mapSpan]

/-- What a step that is not blank leaves in a run: it has a formula, and in the scope at the end the
expression of the formula comes to the number of its record, which is bound to its name. -/
lemma exists_formula_of_recorded {scope : Scope} {s : Step} {r : StepRecord} {d : Definition}
    (h : Recorded settings scope s r) (hd : s.definition = some d) (hblank : d.isBlank = false) :
    ∃ f x, d.formula settings = .ok f ∧ f.expr.evaluate scope = .ok x ∧ r = ⟨s.name, some x⟩ ∧
      scope.get? s.name = some x := by
  obtain ⟨d', hd', hcase⟩ := Step.evaluate_eq_ok_iff.1 h.value
  obtain rfl := Option.some.inj (hd.symm.trans hd')
  obtain ⟨hfilled, -⟩ | ⟨-, x, hx, hvalue⟩ := hcase
  · rw [hblank] at hfilled
    exact absurd hfilled (by simp)
  · obtain ⟨f, hf, heval⟩ := Definition.evaluate_eq_ok_iff.1 hx
    rw [Formula.evaluate, mapError_eq_ok] at heval
    obtain ⟨name, value⟩ := r
    obtain rfl : name = s.name := h.name
    obtain rfl : value = some x := hvalue
    exact ⟨f, x, hf, heval, rfl, h.bound x rfl⟩

/-- With an expression in the place of a variable, the steps of a program come to the numbers of a trace
in the scope at its end, and the outputs that have a formula to its records. -/
structure KeptBy (settings : Settings) (p : Program) (t : Trace) (v : String) (e : Expr) : Prop where
  steps : ∀ (k : Nat) (s : Step) (d : Definition),
    p.steps[k]? = some s → s.definition = some d → d.isBlank = false →
    ∃ f x, d.formula settings = .ok f ∧ t.steps[k]? = some ⟨s.name, some x⟩ ∧
      (f.expr.inline v e).evaluate t.scope = .ok x
  outputs : ∀ (k : Nat) (o : Output) (d : Definition) (f : Formula),
    p.outputs[k]? = some o → o.value = some d → d.plainName? = none → d.formula settings = .ok f →
    t.outputs[k]? = some (o.recordOf ((f.expr.inline v e).evaluate t.scope))

/-- **Inlining a definition keeps the result.** An expression in the place of a variable changes nothing
about what another expression comes to in a scope that binds the variable to the number of the first;
afterwards the variable is mentioned only where the first mentions it, and what was resolved is resolved.
In the scope at the end of a run this holds of the expression of each step that is not blank, in the
place of its name: all steps, those after it among them, keep their numbers, and all outputs their
records. -/
theorem inline_keeps_results :
    (∀ (e d : Expr) (v : String),
      ((e.inline v d).mentions = e.mentions.flatMap fun w => if w = v then d.mentions else [w]) ∧
      (e.Resolved → d.Resolved → (e.inline v d).Resolved) ∧
      ∀ (scope : Scope) (x : Float), d.evaluate scope = .ok x → scope.get? v = some x →
        (e.inline v d).evaluate scope = e.evaluate scope) ∧
    ∀ (settings : Settings) (p : Program) (t : Trace), p.run settings = .ok t →
      ∀ s ∈ p.steps, ∀ d, s.definition = some d → d.isBlank = false →
        ∃ f, d.formula settings = .ok f ∧ KeptBy settings p t s.name f.expr := by
  refine ⟨fun e d v => ⟨Expr.mentions_inline e, Expr.Resolved.inline, fun scope x hd hv => ?_⟩, ?_⟩
  · exact Expr.evaluate_inline hd hv e
  intro settings p t h s hs d hd hblank
  obtain ⟨-, hrecorded, -⟩ := run_spec h
  obtain ⟨r, hr⟩ := exists_recorded_of_mem hrecorded hs
  obtain ⟨f, x, hf, heval, -, hbound⟩ := exists_formula_of_recorded hr hd hblank
  refine ⟨f, hf, ?_, ?_⟩
  · intro k s' d' hs' hd' hblank'
    obtain ⟨r', hr', hrecorded'⟩ := exists_recorded_of_getElem? hrecorded hs'
    obtain ⟨g, y, hg, hgeval, rfl, -⟩ := exists_formula_of_recorded hrecorded' hd' hblank'
    exact ⟨g, y, hg, hr', by rw [Expr.evaluate_inline heval hbound, hgeval]⟩
  · intro k o d' g ho hvalue hplain hg
    rw [(run_eq_ok_iff.1 h).2.2, List.getElem?_map, ho, Option.map_some,
      Output.record_of_formula t.scope hvalue hplain hg, Expr.evaluate_inline heval hbound]

/-- The expression that `{{c}} * 2` is read as. -/
def twiceC : Expr :=
  .binary ⟨0, 9⟩ .mul (.symbol ⟨0, 5⟩ "__v_c") (.number ⟨8, 9⟩ 2.0)

/-- A program with a step that is referred to by another and by an output. -/
def squared : Program where
  inputs := [.of "a" .float (.number 2.0)]
  steps := [.of "b" (.tree (.array [.string "Add", .string "a", .number (.real 1.0)])),
    .of "c" (.tree (.array [.string "Multiply", .string "b", .string "b"]))]
  outputs := [⟨"d", "", none, .float, none, some (.tree (.array [.string "Negate", .string "b"]))⟩]

/-- A definition is inlined where evaluation passes over it, and the first step of a program in the other
step and in the output. -/
theorem inline_twiceC_and_squared :
    ((Expr.aAndB.inline "b" twiceC).mentions = ["a", "c"] ∧
      (Expr.aAndB.inline "b" twiceC).evaluate (.ofList [("a", 0.0), ("b", 6.0), ("c", 3.0)]) =
        .ok 0.0) ∧
    ∃ t f, squared.run .standard = .ok t ∧
      (Definition.tree (.array [.string "Add", .string "a", .number (.real 1.0)])).formula .standard =
        .ok f ∧ KeptBy .standard squared t "b" f.expr := by
  obtain ⟨hexpr, hrun⟩ := inline_keeps_results
  obtain ⟨hmentions, -, heval⟩ := hexpr Expr.aAndB twiceC "b"
  have hvalid : squared.Valid .standard := violation?_eq_none_iff.1 (by decide +kernel)
  have hsteps : runSteps .standard 0 (startScope squared.inputs) squared.steps =
      .ok ([⟨"b", some (2.0 + 1.0)⟩, ⟨"c", some ((2.0 + 1.0) * (2.0 + 1.0))⟩],
        .ofList [("a", 2.0), ("b", 2.0 + 1.0), ("c", (2.0 + 1.0) * (2.0 + 1.0))]) := rfl
  have ht := run_of_steps hvalid hsteps
  obtain ⟨f, hf, hkept⟩ := hrun .standard squared _ ht _ List.mem_cons_self _ rfl rfl
  refine ⟨⟨hmentions, ?_⟩, _, f, ht, hf, hkept⟩
  exact heval _ 6.0 rfl rfl

end Program
end Formulary
