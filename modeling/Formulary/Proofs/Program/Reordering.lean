import Formulary.Proofs.Program.Run
/-!
# Steps in another order

The order of the steps may decide whether a program runs, but not what comes of it. If it runs in two
orders, then the scope at the end of one run explains each step of the other: the step comes to the
number that is bound to its name there. By induction along a run its scope stays below every scope that
explains its steps (`Program.le_of_runSteps`), so each of the two is below the other.
-/

namespace Formulary

open Result

/-! ## Scopes that explain a step -/

/-- In the scope, the step comes to a number that is bound to its name, or it is blank. -/
def Scope.Explains (scope : Scope) (settings : Settings) (s : Program.Step) : Prop :=
  ∃ value, s.evaluate settings scope = .ok value ∧ ∀ x, value = some x → scope.get? s.name = some x

namespace Program

variable {settings : Settings}

lemma explains_of_recorded {u : Scope} {ss : List Step} {rs : List StepRecord}
    (h : List.Forall₂ (Recorded settings u) ss rs) : ∀ s ∈ ss, u.Explains settings s := by
  intro s hs
  obtain ⟨r, hr⟩ := exists_recorded_of_mem h hs
  exact ⟨r.value, hr.value, hr.bound⟩

/-- A run that starts below a scope that explains its steps ends below it. -/
theorem le_of_runSteps {index : Nat} {scope final u : Scope} {ss : List Step} {rs : List StepRecord}
    (hstart : scope.Le u) (hss : ∀ s ∈ ss, u.Explains settings s)
    (h : runSteps settings index scope ss = .ok (rs, final)) : final.Le u := by
  induction ss generalizing index scope rs with
  | nil =>
    obtain ⟨-, rfl⟩ := Prod.mk.inj (Except.ok.inj h)
    exact hstart
  | cons s ss ih =>
    obtain ⟨value, rest, hvalue, hrest, -⟩ := runSteps_cons_eq_ok_iff.1 h
    obtain ⟨value', hvalue', hbound⟩ := hss s List.mem_cons_self
    -- the step comes to the same in both scopes
    have hsame := Step.evaluate_eq_ok_of_le hstart hvalue
    rw [hvalue'] at hsame
    obtain rfl := Except.ok.inj hsame
    refine ih ?_ (fun r hr => hss r (List.mem_cons_of_mem s hr)) hrest
    cases value' with
    | none => exact hstart
    | some x => exact Scope.insert_le hstart (hbound x rfl)

/-- The run of a program ends below the scope of a run with the same inputs that has all its steps. -/
lemma scope_le_of_run {p q : Program} {t u : Trace} (hinputs : p.inputs = q.inputs)
    (hsteps : ∀ s ∈ p.steps, s ∈ q.steps) (hp : p.run settings = .ok t)
    (hq : q.run settings = .ok u) : t.scope.Le u.scope := by
  obtain ⟨-, hrun, -⟩ := run_eq_ok_iff.1 hp
  obtain ⟨hle, hrecorded, -⟩ := run_spec hq
  rw [hinputs] at hrun
  exact le_of_runSteps hle (fun s hs => explains_of_recorded hrecorded s (hsteps s hs)) hrun

/-! ## Two orders -/

/-- **Two programs that differ only in the order of their steps and both run bind the same numbers to
the same names, and their outputs are equal.** -/
theorem run_eq_of_perm {p q : Program} {t u : Trace} (hinputs : p.inputs = q.inputs)
    (houtputs : p.outputs = q.outputs) (hsteps : p.steps.Perm q.steps)
    (hp : p.run settings = .ok t) (hq : q.run settings = .ok u) :
    (∀ n, t.scope.get? n = u.scope.get? n) ∧ t.outputs = u.outputs := by
  have htu := scope_le_of_run hinputs (fun s hs => hsteps.mem_iff.1 hs) hp hq
  have hut := scope_le_of_run hinputs.symm (fun s hs => hsteps.mem_iff.2 hs) hq hp
  have hget := Scope.get?_eq_of_le_of_le htu hut
  refine ⟨hget, ?_⟩
  rw [(run_eq_ok_iff.1 hp).2.2, (run_eq_ok_iff.1 hq).2.2, houtputs]
  exact List.map_congr_left fun o _ => Output.record_eq_of_reads fun v _ => hget v

/-- The same program with its steps from last to first. -/
def reversed (p : Program) : Program :=
  ⟨p.inputs, p.steps.reverse, p.outputs⟩

/-- A program with a step that mentions the other without coming to it. -/
def guarded : Program where
  inputs := [.of "a" .float (.number 2.0)]
  steps := [.of "b" (.tree (.array [.string "Add", .string "a", .string "a"])),
    .of "c" (.tree (.array [.string "If", .string "a", .string "a", .string "b"]))]
  outputs := [.of "d" .float "c"]

theorem run_guarded_reversed : ∃ t u, guarded.run Settings.standard.lenient = .ok t ∧
    guarded.reversed.run Settings.standard.lenient = .ok u ∧
    (∀ n, t.scope.get? n = u.scope.get? n) ∧ t.outputs = u.outputs := by
  have hvalid : guarded.Valid Settings.standard.lenient :=
    violation?_eq_none_iff.1 (by decide +kernel)
  have hvalid' : guarded.reversed.Valid Settings.standard.lenient :=
    violation?_eq_none_iff.1 (by decide +kernel)
  have hsteps : runSteps Settings.standard.lenient 0 (startScope guarded.inputs) guarded.steps =
      .ok ([⟨"b", some (2.0 + 2.0)⟩, ⟨"c", some 2.0⟩],
        .ofList [("a", 2.0), ("b", 2.0 + 2.0), ("c", 2.0)]) := rfl
  have hsteps' : runSteps Settings.standard.lenient 0 (startScope guarded.inputs)
      guarded.reversed.steps = .ok ([⟨"c", some 2.0⟩, ⟨"b", some (2.0 + 2.0)⟩],
        .ofList [("a", 2.0), ("c", 2.0), ("b", 2.0 + 2.0)]) := rfl
  have hrun := run_of_steps hvalid hsteps
  have hrun' := run_of_steps hvalid' hsteps'
  have hperm : guarded.steps.Perm guarded.reversed.steps := (List.reverse_perm _).symm
  have hinputs : guarded.inputs = guarded.reversed.inputs := rfl
  exact ⟨_, _, hrun, hrun', run_eq_of_perm hinputs rfl hperm hrun hrun'⟩

end Program
end Formulary
