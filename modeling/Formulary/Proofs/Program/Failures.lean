import Formulary.Proofs.Program.Run
/-!
# Where runs fail

A run fails at the first step that is not blank and has no number in the scope before it
(`Program.FailsFirst`). This scope is that of the inputs and, after them, of the earlier steps that have
a number; it is given for every position, whether a run comes to it or not (`Program.scopeBefore`).

A run without such a step has a result, however many of its outputs fail. An output that is the plain
name of a step shows the number of this step, or an error if the step is blank
(`Program.run_fails_at_first_failure`).
-/

namespace Formulary

open Result

lemma Scope.ofList_concat (bs : List (String × Float)) (name : String) (x : Float) :
    ofList (bs ++ [(name, x)]) = (ofList bs).insert name x := by
  simp [ofList]

namespace Program

/-! ## The scope before a step -/

/-- The number that a step gives to its name, if it is not blank and does not fail. -/
def Step.number? (s : Step) (settings : Settings) (scope : Scope) : Option Float :=
  match s.definition with
  | none => none
  | some d => if d.isBlank then none else (d.evaluate settings scope).toOption

/-- What is bound before the step at a position, in order: the inputs, and then the earlier steps that
have a number. -/
def bindingsBefore (settings : Settings) (p : Program) : Nat → List (String × Float)
  | 0 => p.inputs.filterMap fun i => i.start?.map fun x => (i.name, x)
  | k + 1 =>
    let bindings := bindingsBefore settings p k
    match p.steps[k]? with
    | none => bindings
    | some s =>
      bindings ++ ((s.number? settings (.ofList bindings)).map fun x => (s.name, x)).toList

/-- The scope in which the step at a position is evaluated. -/
def scopeBefore (settings : Settings) (p : Program) (k : Nat) : Scope :=
  .ofList (p.bindingsBefore settings k)

/-- The step at a position is not blank, and its definition fails in the scope before it. -/
def FailsAt (settings : Settings) (p : Program) (k : Nat) (s : Step) (fault : Fault) : Prop :=
  p.steps[k]? = some s ∧ ∃ d, s.definition = some d ∧ d.isBlank = false ∧
    d.evaluate settings (p.scopeBefore settings k) = .error fault

/-- The step at a position has a name and fails, and no step before it fails. -/
structure FailsFirst (settings : Settings) (p : Program) (k : Nat) (name : String) (fault : Fault) :
    Prop where
  fails : ∃ s, p.FailsAt settings k s fault ∧ s.name = name
  least : ∀ j < k, ∀ s cause, ¬ p.FailsAt settings j s cause

section
variable {settings : Settings} {p : Program} {k : Nat} {s : Step} {ss : List Step}
  {rs : List StepRecord} {final : Scope} {fault : Fault}

lemma Step.number?_of_evaluate {scope : Scope} {value : Option Float}
    (h : s.evaluate settings scope = .ok value) : s.number? settings scope = value := by
  obtain ⟨d, hd, ⟨hblank, rfl⟩ | ⟨hblank, x, hx, rfl⟩⟩ := Step.evaluate_eq_ok_iff.1 h
  · simp [number?, hd, hblank]
  · simp [number?, hd, hblank, hx, Except.toOption]

lemma scopeBefore_zero : p.scopeBefore settings 0 = startScope p.inputs := by
  rw [scopeBefore, bindingsBefore, Scope.ofList, List.foldl_filterMap, startScope]
  congr 1
  funext scope i
  cases i.start? <;> rfl

/-- The scope after a step is that before it with the number of the step, if it has one. -/
lemma scopeBefore_succ {value : Option Float} (hs : p.steps[k]? = some s)
    (h : s.evaluate settings (p.scopeBefore settings k) = .ok value) :
    p.scopeBefore settings (k + 1) = s.extend (p.scopeBefore settings k) value := by
  have hnumber : s.number? settings (.ofList (p.bindingsBefore settings k)) = value :=
    Step.number?_of_evaluate h
  rw [scopeBefore, bindingsBefore, hs]
  dsimp only
  rw [hnumber]
  cases value with
  | none => simp [Step.extend, scopeBefore]
  | some x => exact Scope.ofList_concat _ s.name x

lemma failsAt_iff (hp : p.Valid settings) :
    p.FailsAt settings k s fault ↔
      p.steps[k]? = some s ∧ s.evaluate settings (p.scopeBefore settings k) = .error fault := by
  rw [FailsAt, and_congr_right_iff]
  intro hs
  have hdefinition := (hp.steps s (List.mem_of_getElem? hs)).2
  rw [Step.evaluate_eq_error_iff]
  constructor
  · exact .inr
  · rintro (⟨hnone, -⟩ | h)
    · exact absurd hdefinition (by simp [hnone])
    · exact h

/-- There is one first failure at most. -/
lemma FailsFirst.unique {j : Nat} {name name' : String} {cause : Fault}
    (h : p.FailsFirst settings k name fault) (h' : p.FailsFirst settings j name' cause) :
    k = j ∧ name = name' ∧ fault = cause := by
  obtain ⟨s, hs, rfl⟩ := h.fails
  obtain ⟨r, hr, rfl⟩ := h'.fails
  obtain hlt | rfl | hlt := Nat.lt_trichotomy k j
  · exact absurd hs (h'.least k hlt s fault)
  · obtain ⟨hs, d, hd, -, hfault⟩ := hs
    obtain ⟨hr, d', hd', -, hcause⟩ := hr
    obtain rfl := Option.some.inj (hs.symm.trans hr)
    obtain rfl := Option.some.inj (hd.symm.trans hd')
    exact ⟨rfl, rfl, Except.error.inj (hfault.symm.trans hcause)⟩
  · exact absurd hr (h.least j hlt r cause)

/-! ## Runs and the scopes before their steps -/

/-- Steps that come to their end are each evaluated in the scope before them, and leave the record of
what they come to there. -/
theorem evaluate_of_runSteps_eq_ok (hss : p.steps.drop k = ss)
    (h : runSteps settings k (p.scopeBefore settings k) ss = .ok (rs, final)) :
    ∀ (j : Nat) (s : Step), ss[j]? = some s → ∃ value,
      s.evaluate settings (p.scopeBefore settings (k + j)) = .ok value ∧
        rs[j]? = some ⟨s.name, value⟩ := by
  -- the run and the scopes before its steps go on side by side
  induction ss generalizing k rs with
  | nil =>
    intro j s hj
    exact absurd hj (by simp)
  | cons s ss ih =>
    obtain ⟨hs, hrest⟩ := step_of_drop hss
    obtain ⟨value, rest, hvalue, hrun, rfl⟩ := runSteps_cons_eq_ok_iff.1 h
    rw [← scopeBefore_succ hs hvalue] at hrun
    intro j r hj
    cases j with
    | zero =>
      obtain rfl : s = r := by simpa using hj
      exact ⟨value, hvalue, rfl⟩
    | succ j =>
      obtain ⟨value', hvalue', hrecord⟩ := ih hrest hrun j r (by simpa using hj)
      rw [Nat.add_assoc, Nat.add_comm 1 j] at hvalue'
      exact ⟨value', hvalue', by simpa using hrecord⟩

/-- Steps that fail do so at one that fails in the scope before it, and those before it come to their
end. -/
theorem evaluate_of_runSteps_eq_error {e : RunFault} (hss : p.steps.drop k = ss)
    (h : runSteps settings k (p.scopeBefore settings k) ss = .error e) :
    ∃ j s fault, ss[j]? = some s ∧ e = .failed (k + j) s.name fault ∧
      s.evaluate settings (p.scopeBefore settings (k + j)) = .error fault ∧
      ∀ i < j, ∀ r, ss[i]? = some r →
        ∃ value, r.evaluate settings (p.scopeBefore settings (k + i)) = .ok value := by
  induction ss generalizing k with
  | nil => exact absurd h (by simp [runSteps])
  | cons s ss ih =>
    obtain ⟨hs, hrest⟩ := step_of_drop hss
    rcases runSteps_cons_eq_error_iff.1 h with ⟨cause, hcause, rfl⟩ | ⟨value, hvalue, hrun⟩
    · exact ⟨0, s, cause, rfl, rfl, hcause, fun i hi => absurd hi (Nat.not_lt_zero i)⟩
    · rw [← scopeBefore_succ hs hvalue] at hrun
      obtain ⟨j, r, fault, hj, rfl, hfault, hbefore⟩ := ih hrest hrun
      have hshift : ∀ i, k + 1 + i = k + (i + 1) := fun i => by omega
      refine ⟨j + 1, r, fault, by simpa using hj, by rw [hshift], hshift j ▸ hfault, ?_⟩
      intro i hi q hq
      cases i with
      | zero =>
        obtain rfl : s = q := by simpa using hq
        exact ⟨value, hvalue⟩
      | succ i => exact hshift i ▸ hbefore i (by omega) q (by simpa using hq)

/-! ## Outputs that name a step -/

/-- What the record of an output shows if the output is the plain name of a step, blanks around it apart:
the number that the step has in the trace, as a value of the type of the output, or an error if the step
is blank. -/
def ShowsStep (settings : Settings) (p : Program) (t : Trace) (o : Output) (r : OutputRecord) : Prop :=
  ∀ text, o.value = some (.source text) → isName (trim text) = true →
    ∃ (k : Nat) (s : Step) (d : Definition),
      p.steps[k]? = some s ∧ s.name = trim text ∧ s.definition = some d ∧
      (d.isBlank = false → ∃ x, d.evaluate settings (p.scopeBefore settings k) = .ok x ∧
        t.steps[k]? = some ⟨s.name, some x⟩ ∧ r = ⟨o.name, some (o.type.normalize x), none⟩) ∧
      (d.isBlank = true →
        r = ⟨o.name, none, some (Fault.unbound (trim text) none none).message⟩)

/-- The name of a blank step has no binding at the end of a run: no other step and no input has it. -/
lemma get?_blank {t : Trace} (h : p.run settings = .ok t) (hs : p.steps[k]? = some s)
    (hblank : s.isBlank = true) : t.scope.get? s.name = none := by
  have hdistinct := List.nodup_append.1 (run_eq_ok_iff.1 h).1.distinct
  have hmem := List.mem_of_getElem? hs
  rw [Scope.get?_eq_none_iff, (run_spec h).2.2, List.mem_append]
  rintro (hinput | hstep)
  · exact hdistinct.2.2 _ hinput _ (List.mem_map_of_mem hmem) rfl
  · obtain ⟨r, hr, hname⟩ := List.mem_map.1 hstep
    obtain ⟨hr, hfilled⟩ := List.mem_filter.1 hr
    obtain rfl := List.inj_on_of_nodup_map hdistinct.2.1 hr hmem hname
    rw [hblank] at hfilled
    exact absurd hfilled (by simp)

lemma showsStep_record {t : Trace} (h : p.run settings = .ok t) {o : Output} (ho : o ∈ p.outputs) :
    ShowsStep settings p t o (o.record settings t.scope) := by
  intro text hvalue hname
  obtain ⟨hvalid, hsteps, -⟩ := run_eq_ok_iff.1 h
  have hplain : (Definition.source text).plainName? = some (trim text) := if_pos hname
  -- validation has found the step
  obtain ⟨s, hmem, hstep⟩ : ∃ s ∈ p.steps, s.name = trim text := by
    obtain ⟨d, hd, hnames⟩ := hvalid.outputs o ho
    obtain rfl := Option.some.inj (hd.symm.trans hvalue)
    exact List.mem_map.1 (hnames _ hplain)
  obtain ⟨k, hs⟩ := List.mem_iff_getElem?.1 hmem
  obtain ⟨d, hd⟩ := Option.isSome_iff_exists.1 (hvalid.steps s hmem).2
  refine ⟨k, s, d, hs, hstep, hd, fun hfilled => ?_, fun hblank => ?_⟩
  · rw [← scopeBefore_zero] at hsteps
    obtain ⟨value, heval, hrecord⟩ := evaluate_of_runSteps_eq_ok List.drop_zero hsteps k s hs
    obtain ⟨r, hr, hrecorded⟩ := exists_recorded_of_getElem? (run_spec h).2.1 hs
    obtain rfl := Option.some.inj (hrecord.symm.trans hr)
    rw [Nat.zero_add] at heval
    obtain ⟨d', hd', ⟨hblank, -⟩ | ⟨-, x, hx, rfl⟩⟩ := Step.evaluate_eq_ok_iff.1 heval
    · obtain rfl := Option.some.inj (hd.symm.trans hd')
      exact absurd hblank (by simp [hfilled])
    · obtain rfl := Option.some.inj (hd.symm.trans hd')
      have hget : t.scope.get? (trim text) = some x := hstep ▸ hrecorded.bound x rfl
      refine ⟨x, hx, hrecord, ?_⟩
      simp only [Output.record, Output.evaluate, hvalue, hplain, hget]
  · have hnone : t.scope.get? (trim text) = none :=
      hstep ▸ get?_blank h hs (by simp [Step.isBlank, hd, hblank])
    simp only [Output.record, Output.evaluate, hvalue, hplain, hnone]

/-! ## Whole runs -/

/-- In a run that comes to its end no step fails. -/
lemma not_failsAt_of_run {t : Trace} (h : p.run settings = .ok t) :
    ¬ p.FailsAt settings k s fault := by
  obtain ⟨hvalid, hsteps, -⟩ := run_eq_ok_iff.1 h
  rw [← scopeBefore_zero] at hsteps
  rw [failsAt_iff hvalid]
  rintro ⟨hs, hfault⟩
  obtain ⟨value, hvalue, -⟩ := evaluate_of_runSteps_eq_ok List.drop_zero hsteps k s hs
  rw [Nat.zero_add, hfault] at hvalue
  exact absurd hvalue (by simp)

lemma exists_failed_of_run {e : RunFault} (hvalid : p.violation? settings = none)
    (h : p.run settings = .error e) : ∃ k name fault, e = .failed k name fault := by
  have hsteps := runSteps_of_run_eq_error hvalid h
  rw [← scopeBefore_zero] at hsteps
  obtain ⟨j, s, fault, -, he, -⟩ := evaluate_of_runSteps_eq_error List.drop_zero hsteps
  exact ⟨_, _, _, he⟩

lemma failsFirst_of_run {name : String} (h : p.run settings = .error (.failed k name fault)) :
    p.FailsFirst settings k name fault := by
  obtain ⟨hvalid, hsteps⟩ := run_eq_failed_iff.1 h
  rw [← scopeBefore_zero] at hsteps
  obtain ⟨j, s, cause, hs, he, hcause, hbefore⟩ := evaluate_of_runSteps_eq_error List.drop_zero hsteps
  rw [Nat.zero_add] at he hcause
  obtain ⟨rfl, rfl, rfl⟩ := RunFault.failed.inj he
  refine ⟨⟨s, (failsAt_iff hvalid).2 ⟨hs, hcause⟩, rfl⟩, fun i hi r cause' hfails => ?_⟩
  obtain ⟨hr, hcause'⟩ := (failsAt_iff hvalid).1 hfails
  obtain ⟨value, hvalue⟩ := hbefore i hi r hr
  rw [Nat.zero_add, hcause'] at hvalue
  exact absurd hvalue (by simp)

end

/-- **A valid program fails where the first of its steps fails, and nowhere else.** Its run fails at a
step, with the name of the step and a fault, exactly if the step is the first that is not blank and fails
in the scope of the inputs and of the earlier steps, and if this is its fault. The run has a result
exactly if there is no such step, whatever the outputs come to. Each output that is the plain name of a
step then shows the number of the step as a value of its own type, or an error if the step is blank. -/
theorem run_fails_at_first_failure {settings : Settings} {p : Program}
    (h : p.violation? settings = none) :
    (∀ k name fault, p.run settings = .error (.failed k name fault) ↔
      p.FailsFirst settings k name fault) ∧
    ((∃ t, p.run settings = .ok t) ↔ ∀ k s fault, ¬ p.FailsAt settings k s fault) ∧
    ∀ t, p.run settings = .ok t → List.Forall₂ (ShowsStep settings p t) p.outputs t.outputs := by
  refine ⟨fun k name fault => ⟨failsFirst_of_run, fun hfirst => ?_⟩, ⟨?_, fun hnone => ?_⟩, ?_⟩
  · obtain ⟨s, hfails, rfl⟩ := hfirst.fails
    rcases hrun : p.run settings with e | t
    · obtain ⟨j, name, cause, rfl⟩ := exists_failed_of_run h hrun
      obtain ⟨rfl, rfl, rfl⟩ := hfirst.unique (failsFirst_of_run hrun)
      rfl
    · exact absurd hfails (not_failsAt_of_run hrun)
  · rintro ⟨t, ht⟩ k s fault
    exact not_failsAt_of_run ht
  · rcases hrun : p.run settings with e | t
    · obtain ⟨k, name, fault, rfl⟩ := exists_failed_of_run h hrun
      obtain ⟨s, hfails, -⟩ := (failsFirst_of_run hrun).fails
      exact absurd hfails (hnone k s fault)
    · exact ⟨t, rfl⟩
  · intro t ht
    rw [(run_eq_ok_iff.1 ht).2.2, List.forall₂_map_right_iff, List.forall₂_same]
    exact fun o ho => showsStep_record ht ho

/-- A program with two steps that fail, after one that is blank. -/
def halting : Program where
  inputs := [.of "a" .float (.number 2.5)]
  steps := [.of "b" (.tree (.string "a")), .of "c" (.source ""), .of "d" (.tree (.array [])),
    .of "e" (.tree (.array []))]
  outputs := [.of "f" .float "b"]

/-- A program that shows a step and a blank step by their names. -/
def pending : Program where
  inputs := [.of "a" .float (.number 2.5)]
  steps := [.of "b" (.tree (.string "a")), .of "c" (.source "")]
  outputs := [.of "d" .integer " b ", .of "e" .float "c"]

theorem run_halting_and_pending :
    (halting.run .standard = .error (.failed 2 "d" (.badTree .noHead)) ∧
      halting.FailsFirst .standard 2 "d" (.badTree .noHead)) ∧
    ∃ t, pending.run .standard = .ok t ∧
      t.outputs.map OutputRecord.value = [some 3.0, none] ∧
      List.Forall₂ (ShowsStep .standard pending t) pending.outputs t.outputs := by
  have hhalting : halting.violation? .standard = none := by decide +kernel
  have hpending : pending.violation? .standard = none := by decide +kernel
  have hfails : halting.run .standard = .error (.failed 2 "d" (.badTree .noHead)) :=
    run_eq_failed_iff.2 ⟨violation?_eq_none_iff.1 hhalting, rfl⟩
  have hsteps : runSteps .standard 0 (startScope pending.inputs) pending.steps =
      .ok ([⟨"b", some 2.5⟩, ⟨"c", none⟩], .ofList [("a", 2.5), ("b", 2.5)]) := rfl
  have hrun := run_of_steps (violation?_eq_none_iff.1 hpending) hsteps
  obtain ⟨hfirst, -, -⟩ := run_fails_at_first_failure hhalting
  obtain ⟨-, -, hshows⟩ := run_fails_at_first_failure hpending
  exact ⟨⟨hfails, (hfirst _ _ _).1 hfails⟩, _, hrun, rfl, hshows _ hrun⟩

end Program
end Formulary
