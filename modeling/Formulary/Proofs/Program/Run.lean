import Formulary.Program.Run
import Formulary.Proofs.Formula.Compilation
import Formulary.Proofs.Program.Validity
/-!
# Runs of programs

What a step of a run does, and when a run comes to an end with a trace or with a fault
(`Program.run_eq_ok_iff`, `Program.run_eq_failed_iff`).

The names of a valid program are distinct, so no step of a run binds a name again and the scope only
grows. What a step came to when it was run it therefore comes to in the scope at the end, too
(`Program.runSteps_spec`, `Program.run_spec`).
-/

namespace Formulary

open Result

/-! ## Definitions -/

lemma Definition.evaluate_eq_ok_iff {d : Definition} {settings : Settings} {scope : Scope} {x : Float} :
    d.evaluate settings scope = .ok x ↔
      ∃ f, d.formula settings = .ok f ∧ f.evaluate scope = .ok x := by
  rw [Definition.evaluate, bind_eq_ok]

/-- A number that a formula comes to is the number that it comes to in a greater scope. -/
lemma Formula.evaluate_eq_ok_of_le {f : Formula} {s t : Scope} {x : Float} (hst : s.Le t)
    (h : f.evaluate s = .ok x) : f.evaluate t = .ok x := by
  rw [evaluate, mapError_eq_ok] at h ⊢
  exact Expr.evaluate_eq_ok_of_le hst h

/-- Scopes that agree on the variables of a formula give it results that are equal but for
suggestions. -/
lemma Formula.evaluate_alike {f : Formula} {s t : Scope}
    (h : ∀ v ∈ f.expr.mentions, s.get? v = t.get? v) :
    (f.evaluate s).mapError Fault.unsuggested = (f.evaluate t).mapError Fault.unsuggested := by
  have hcomm : ∀ r : Except Fault Float,
      (r.mapError (Fault.mapSpan f.template.toSource)).mapError Fault.unsuggested =
        (r.mapError Fault.unsuggested).mapError (Fault.mapSpan f.template.toSource) := by
    intro r
    cases r <;> simp
  rw [evaluate, evaluate, hcomm, hcomm, Expr.evaluate_alike h]

lemma Definition.evaluate_eq_ok_of_le {d : Definition} {settings : Settings} {s t : Scope} {x : Float}
    (hst : s.Le t) (h : d.evaluate settings s = .ok x) : d.evaluate settings t = .ok x := by
  obtain ⟨f, hf, hx⟩ := evaluate_eq_ok_iff.1 h
  exact evaluate_eq_ok_iff.2 ⟨f, hf, Formula.evaluate_eq_ok_of_le hst hx⟩

/-- The formula of a definition has the identifier of a variable. -/
def Definition.Mentions (d : Definition) (settings : Settings) (v : String) : Prop :=
  ∃ f span, d.formula settings = .ok f ∧ Expr.symbol span (identifierOf v) ∈ f.expr.nodes

lemma Definition.mentions_iff {d : Definition} {settings : Settings} {v : String} {f : Formula}
    (hf : d.formula settings = .ok f) : d.Mentions settings v ↔ v ∈ f.expr.mentions := by
  rw [Expr.mem_mentions]
  constructor
  · rintro ⟨f', span, hf', hsymbol⟩
    obtain rfl := Except.ok.inj (hf.symm.trans hf')
    exact ⟨span, _, hsymbol, variableOf?_identifierOf v⟩
  · rintro ⟨span, name, hsymbol, hname⟩
    obtain rfl := identifierOf_of_variableOf? hname
    exact ⟨f, span, hf, hsymbol⟩

/-- A number that a definition comes to in a scope is the number that it comes to in one with the same
bindings of what it mentions. -/
lemma Definition.evaluate_eq_ok_of_mentions {d : Definition} {settings : Settings} {s t : Scope}
    {x : Float} (hst : ∀ v, d.Mentions settings v → s.get? v = t.get? v)
    (h : d.evaluate settings s = .ok x) : d.evaluate settings t = .ok x := by
  obtain ⟨f, hf, hx⟩ := evaluate_eq_ok_iff.1 h
  refine evaluate_eq_ok_iff.2 ⟨f, hf, ?_⟩
  rw [Formula.evaluate, mapError_eq_ok] at hx ⊢
  rw [← hx]
  refine Expr.evaluate_eq_of_mentions (fun v hv y hy => ?_) (hx ▸ not_isUnbound_ok x)
  rw [← hst v ((mentions_iff hf).2 hv), hy]

namespace Program

/-! ## One step -/

/-- Whether a step has not been written yet. -/
def Step.isBlank (s : Step) : Bool :=
  s.definition.any Definition.isBlank

/-- How a step comes to an end: a blank one without a number, another with the number of its
definition. -/
theorem Step.evaluate_eq_ok_iff {s : Step} {settings : Settings} {scope : Scope}
    {value : Option Float} :
    s.evaluate settings scope = .ok value ↔ ∃ d, s.definition = some d ∧
      ((d.isBlank = true ∧ value = none) ∨
        (d.isBlank = false ∧ ∃ x, d.evaluate settings scope = .ok x ∧ value = some x)) := by
  rw [Step.evaluate]
  rcases s.definition with _ | d
  · simp
  · simp only [Option.some.injEq, exists_eq_left']
    rcases d.isBlank
    · simp only [Bool.false_eq_true, if_false, false_and, true_and, false_or, map_eq_ok]
      constructor
      · rintro ⟨x, hx, rfl⟩
        exact ⟨x, hx, rfl⟩
      · rintro ⟨x, hx, rfl⟩
        exact ⟨x, hx, rfl⟩
    · simp only [Bool.true_eq_false, if_true, false_and, true_and, or_false, Except.ok.injEq]
      exact eq_comm

theorem Step.evaluate_eq_error_iff {s : Step} {settings : Settings} {scope : Scope} {fault : Fault} :
    s.evaluate settings scope = .error fault ↔
      (s.definition = none ∧ fault = .blank) ∨
      ∃ d, s.definition = some d ∧ d.isBlank = false ∧ d.evaluate settings scope = .error fault := by
  rw [Step.evaluate]
  rcases s.definition with _ | d
  · simp only [Except.error.injEq, true_and, reduceCtorEq, false_and, exists_false, or_false]
    exact eq_comm
  · simp only [reduceCtorEq, false_and, false_or, Option.some.injEq, exists_eq_left']
    rcases d.isBlank
    · simp [map_eq_error]
    · simp

/-- A step that comes to an end has a number exactly if it is not blank. -/
lemma Step.isBlank_of_evaluate {s : Step} {settings : Settings} {scope : Scope} {value : Option Float}
    (h : s.evaluate settings scope = .ok value) : s.isBlank = value.isNone := by
  obtain ⟨d, hd, ⟨hblank, rfl⟩ | ⟨hblank, x, -, rfl⟩⟩ := Step.evaluate_eq_ok_iff.1 h
  · simp [Step.isBlank, hd, hblank]
  · simp [Step.isBlank, hd, hblank]

/-- The same number in a greater scope. -/
lemma Step.evaluate_eq_ok_of_le {s : Step} {settings : Settings} {scope scope' : Scope}
    {value : Option Float} (hle : scope.Le scope') (h : s.evaluate settings scope = .ok value) :
    s.evaluate settings scope' = .ok value := by
  obtain ⟨d, hd, hcase⟩ := Step.evaluate_eq_ok_iff.1 h
  refine Step.evaluate_eq_ok_iff.2 ⟨d, hd, hcase.imp id ?_⟩
  rintro ⟨hblank, x, hx, rfl⟩
  exact ⟨hblank, x, Definition.evaluate_eq_ok_of_le hle hx, rfl⟩

/-- A step mentions a variable in its definition. -/
def Step.Reads (s : Step) (settings : Settings) (v : String) : Prop :=
  ∃ d, s.definition = some d ∧ d.Mentions settings v

/-- The same number in a scope with the same bindings of what the step mentions. -/
lemma Step.evaluate_eq_ok_of_reads {s : Step} {settings : Settings} {scope scope' : Scope}
    {value : Option Float} (hget : ∀ v, s.Reads settings v → scope.get? v = scope'.get? v)
    (h : s.evaluate settings scope = .ok value) : s.evaluate settings scope' = .ok value := by
  obtain ⟨d, hd, hcase⟩ := Step.evaluate_eq_ok_iff.1 h
  refine Step.evaluate_eq_ok_iff.2 ⟨d, hd, hcase.imp id ?_⟩
  rintro ⟨hblank, x, hx, rfl⟩
  refine ⟨hblank, x, ?_, rfl⟩
  exact Definition.evaluate_eq_ok_of_mentions (fun v hv => hget v ⟨d, hd, hv⟩) hx

lemma Step.le_extend {s : Step} {scope : Scope} (value : Option Float) (h : s.name ∉ scope.names) :
    scope.Le (s.extend scope value) := by
  cases value with
  | none => exact Scope.Le.refl scope
  | some x => exact Scope.le_insert x h

/-! ## All steps -/

lemma step_of_drop {p : Program} {k : Nat} {s : Step} {ss : List Step}
    (h : p.steps.drop k = s :: ss) : p.steps[k]? = some s ∧ p.steps.drop (k + 1) = ss := by
  constructor
  · have hget : (p.steps.drop k)[0]? = some s := by rw [h]; rfl
    simpa using hget
  · rw [← List.drop_drop, h]
    rfl

section
variable {settings : Settings} {index : Nat} {scope final : Scope} {s : Step} {ss : List Step}
  {rs : List StepRecord}

lemma runSteps_cons_eq_ok_iff :
    runSteps settings index scope (s :: ss) = .ok (rs, final) ↔
      ∃ value rest, s.evaluate settings scope = .ok value ∧
        runSteps settings (index + 1) (s.extend scope value) ss = .ok (rest, final) ∧
        rs = ⟨s.name, value⟩ :: rest := by
  rw [runSteps]
  rcases s.evaluate settings scope with fault | value
  · simp
  · constructor
    · intro h
      obtain ⟨⟨rest, final'⟩, hrest, hpure⟩ := bind_eq_ok.1 h
      obtain ⟨rfl, rfl⟩ := Prod.mk.inj (Except.ok.inj hpure)
      exact ⟨value, rest, rfl, hrest, rfl⟩
    · rintro ⟨value', rest, hvalue, hrest, rfl⟩
      obtain rfl := Except.ok.inj hvalue
      dsimp only
      rw [hrest]
      rfl

lemma runSteps_cons_eq_error_iff {fault : RunFault} :
    runSteps settings index scope (s :: ss) = .error fault ↔
      (∃ cause, s.evaluate settings scope = .error cause ∧ fault = .failed index s.name cause) ∨
      ∃ value, s.evaluate settings scope = .ok value ∧
        runSteps settings (index + 1) (s.extend scope value) ss = .error fault := by
  rw [runSteps]
  rcases s.evaluate settings scope with cause | value
  · simp [eq_comm]
  · simp only [reduceCtorEq, false_and, exists_false, Except.ok.injEq, exists_eq_left', false_or]
    rw [bind_eq_error]
    refine or_iff_left ?_
    rintro ⟨r, -, h⟩
    exact absurd h (by simp [pure, Except.pure])

/-- What a step of a run leaves: a record of its name and of the number that it comes to, and, if it has
a number, a binding of it. -/
structure Recorded (settings : Settings) (scope : Scope) (s : Step) (r : StepRecord) : Prop where
  name : r.name = s.name
  value : s.evaluate settings scope = .ok r.value
  bound : ∀ x, r.value = some x → scope.get? s.name = some x

lemma exists_recorded_of_getElem? {k : Nat} (h : List.Forall₂ (Recorded settings scope) ss rs)
    (hs : ss[k]? = some s) : ∃ r, rs[k]? = some r ∧ Recorded settings scope s r := by
  induction h generalizing k with
  | nil => exact absurd hs (by simp)
  | cons hrecorded _ ih =>
    cases k with
    | zero =>
      obtain rfl := Option.some.inj hs
      exact ⟨_, rfl, hrecorded⟩
    | succ k => exact ih (by simpa using hs)

lemma exists_recorded_of_mem (h : List.Forall₂ (Recorded settings scope) ss rs) (hs : s ∈ ss) :
    ∃ r, Recorded settings scope s r := by
  obtain ⟨k, hk⟩ := List.mem_iff_getElem?.1 hs
  obtain ⟨r, -, hr⟩ := exists_recorded_of_getElem? h hk
  exact ⟨r, hr⟩

/-- Steps with new and distinct names extend the scope by the names of those that are not blank. Each
comes to the same in the scope at the end as when it was run. -/
theorem runSteps_spec (hnames : (scope.names ++ ss.map Step.name).Nodup)
    (h : runSteps settings index scope ss = .ok (rs, final)) :
    scope.Le final ∧ List.Forall₂ (Recorded settings final) ss rs ∧
      final.names = scope.names ++ (ss.filter (!·.isBlank)).map Step.name := by
  -- the scope grows with each step, so what holds in the scope after it holds at the end
  induction ss generalizing index scope rs with
  | nil =>
    obtain ⟨rfl, rfl⟩ := Prod.mk.inj (Except.ok.inj h)
    exact ⟨Scope.Le.refl scope, .nil, by simp⟩
  | cons s ss ih =>
    obtain ⟨value, rest, hvalue, hrest, rfl⟩ := runSteps_cons_eq_ok_iff.1 h
    have hnew : s.name ∉ scope.names := by
      intro hmem
      exact (List.nodup_append.1 hnames).2.2 _ hmem _ List.mem_cons_self rfl
    have hblank := Step.isBlank_of_evaluate hvalue
    have hstep := Step.le_extend value hnew
    -- the scope after the step has the names before it, and its own unless it is blank
    have hextend : (s.extend scope value).names =
        scope.names ++ ([s].filter (!·.isBlank)).map Step.name := by
      cases value with
      | none =>
        rw [Step.extend, List.filter_cons_of_neg (by simp [hblank])]
        simp
      | some x =>
        rw [Step.extend, Scope.names_insert_of_not_mem x hnew,
          List.filter_cons_of_pos (by simp [hblank])]
        simp
    have hsub : ((s.extend scope value).names ++ ss.map Step.name).Nodup := by
      refine hnames.sublist ?_
      rw [hextend, List.append_assoc, List.map_cons]
      refine (List.Sublist.refl _).append ?_
      exact ((List.filter_sublist (p := (!·.isBlank)) (l := [s])).map Step.name).append
        (List.Sublist.refl _)
    obtain ⟨hle, hrecorded, hfinal⟩ := ih hsub hrest
    refine ⟨hstep.trans hle, .cons ⟨rfl, ?_, ?_⟩ hrecorded, ?_⟩
    · exact Step.evaluate_eq_ok_of_le (hstep.trans hle) hvalue
    · rintro x rfl
      exact hle _ _ (Scope.get?_insert_self scope s.name x)
    · rw [hfinal, hextend, List.append_assoc, ← List.map_append, ← List.filter_append,
        List.singleton_append]

end

/-! ## Where a run starts -/

/-- A scope after an input. -/
def Input.extend (i : Input) (scope : Scope) : Scope :=
  match i.start? with
  | some x => scope.insert i.name x
  | none => scope

/-- Inputs with new and distinct names extend a scope by what they start from. -/
lemma foldl_extend {scope : Scope} {is : List Input}
    (hinitial : ∀ i ∈ is, i.initial.isSome = true)
    (hnames : (scope.names ++ is.map Input.name).Nodup) :
    scope.Le (is.foldl (fun scope i => i.extend scope) scope) ∧
      (is.foldl (fun scope i => i.extend scope) scope).names = scope.names ++ is.map Input.name ∧
      ∀ i ∈ is, (is.foldl (fun scope i => i.extend scope) scope).get? i.name =
        i.initial.map Initial.toFloat := by
  induction is generalizing scope with
  | nil => exact ⟨Scope.Le.refl scope, by simp, fun i hi => absurd hi List.not_mem_nil⟩
  | cons i is ih =>
    obtain ⟨d, hd⟩ := Option.isSome_iff_exists.1 (hinitial i List.mem_cons_self)
    have hextend : i.extend scope = scope.insert i.name d.toFloat := by
      simp [Input.extend, Input.start?, hd]
    have hnew : i.name ∉ scope.names := by
      intro hmem
      exact (List.nodup_append.1 hnames).2.2 _ hmem _ List.mem_cons_self rfl
    have hinsert := Scope.names_insert_of_not_mem d.toFloat hnew
    have hrest : ((i.extend scope).names ++ is.map Input.name).Nodup := by
      rwa [hextend, hinsert, List.append_assoc, List.singleton_append]
    obtain ⟨hle, hfinal, hget⟩ := ih (fun j hj => hinitial j (List.mem_cons_of_mem i hj)) hrest
    rw [List.foldl_cons]
    refine ⟨Scope.Le.trans ?_ hle, ?_, ?_⟩
    · rw [hextend]
      exact Scope.le_insert _ hnew
    · rw [hfinal, hextend, hinsert, List.append_assoc, List.singleton_append, List.map_cons]
    · intro j hj
      rcases List.mem_cons.1 hj with rfl | hj
      · rw [hd]
        refine hle _ _ ?_
        rw [hextend, Scope.get?_insert_self]
      · exact hget j hj

/-- A run starts with the inputs, each bound to what it starts from. -/
lemma startScope_spec {settings : Settings} {p : Program} (hp : p.Valid settings) :
    (startScope p.inputs).names = p.inputNames ∧
      ∀ i ∈ p.inputs, (startScope p.inputs).get? i.name = i.initial.map Initial.toFloat := by
  have hnames : (Scope.empty.names ++ p.inputs.map Input.name).Nodup :=
    (List.nodup_append.1 hp.distinct).1
  obtain ⟨-, hstart, hget⟩ := foldl_extend (fun i hi => (hp.inputs i hi).2) hnames
  exact ⟨hstart, hget⟩

/-! ## Outputs -/

/-- An output is a plain reference to a name, or mentions it in its formula. -/
def Output.Reads (o : Output) (settings : Settings) (v : String) : Prop :=
  ∃ d, o.value = some d ∧ (d.plainName? = some v ∨ d.Mentions settings v)

/-- Scopes with the same bindings of what an output reads give it the same record; the faults may differ
in what they suggest, which no record shows. -/
lemma Output.record_eq_of_reads {settings : Settings} {s t : Scope} {o : Output}
    (h : ∀ v, o.Reads settings v → s.get? v = t.get? v) : o.record settings s = o.record settings t := by
  have halike : (o.evaluate settings s).mapError Fault.unsuggested =
      (o.evaluate settings t).mapError Fault.unsuggested := by
    unfold Output.evaluate
    rcases hvalue : o.value with _ | d
    · rfl
    · dsimp only
      rcases hd : d.plainName? with _ | name
      · dsimp only [Definition.evaluate]
        rcases hf : d.formula settings with fault | f
        · rfl
        · refine Formula.evaluate_alike fun v hv => ?_
          exact h v ⟨d, hvalue, .inr ((Definition.mentions_iff hf).2 hv)⟩
      · simp only [h name ⟨d, hvalue, .inl hd⟩]
  unfold Output.record
  rcases hs : o.evaluate settings s with fault | x
  · rcases ht : o.evaluate settings t with fault' | y
    · rw [hs, ht] at halike
      have hfault : fault.unsuggested = fault'.unsuggested := Except.error.inj halike
      dsimp only
      rw [← Fault.message_unsuggested fault, hfault, Fault.message_unsuggested]
    · rw [hs, ht] at halike
      exact absurd halike (by simp)
  · rcases ht : o.evaluate settings t with fault' | y
    · rw [hs, ht] at halike
      exact absurd halike (by simp)
    · rw [hs, ht] at halike
      obtain rfl : x = y := Except.ok.inj halike
      rfl

/-! ## Whole runs -/

theorem run_eq_ok_iff {settings : Settings} {p : Program} {t : Trace} :
    p.run settings = .ok t ↔ p.Valid settings ∧
      runSteps settings 0 (startScope p.inputs) p.steps = .ok (t.steps, t.scope) ∧
      t.outputs = p.outputs.map fun o => o.record settings t.scope := by
  rw [← violation?_eq_none_iff, run]
  rcases p.violation? settings with _ | v
  · simp only [true_and]
    constructor
    · intro h
      obtain ⟨⟨records, scope⟩, hsteps, hpure⟩ := bind_eq_ok.1 h
      obtain rfl := Except.ok.inj hpure
      exact ⟨hsteps, rfl⟩
    · rintro ⟨hsteps, houtputs⟩
      rw [hsteps, ok_bind, ← houtputs]
      rfl
  · simp

lemma run_of_steps {settings : Settings} {p : Program} {rs : List StepRecord} {final : Scope}
    (hp : p.Valid settings) (h : runSteps settings 0 (startScope p.inputs) p.steps = .ok (rs, final)) :
    p.run settings = .ok ⟨rs, final, p.outputs.map fun o => o.record settings final⟩ :=
  run_eq_ok_iff.2 ⟨hp, h, rfl⟩

/-- What the steps of a run leave, seen from the scope at the end. -/
theorem run_spec {settings : Settings} {p : Program} {t : Trace} (h : p.run settings = .ok t) :
    (startScope p.inputs).Le t.scope ∧
      List.Forall₂ (Recorded settings t.scope) p.steps t.steps ∧
      t.scope.names = p.inputNames ++ (p.steps.filter (!·.isBlank)).map Step.name := by
  obtain ⟨hvalid, hsteps, -⟩ := run_eq_ok_iff.1 h
  have hstart := (startScope_spec hvalid).1
  have hnames : ((startScope p.inputs).names ++ p.steps.map Step.name).Nodup := by
    rw [hstart]
    exact hvalid.distinct
  rw [← hstart]
  exact runSteps_spec hnames hsteps

theorem run_eq_failed_iff {settings : Settings} {p : Program} {index : Nat} {name : String}
    {fault : Fault} :
    p.run settings = .error (.failed index name fault) ↔ p.Valid settings ∧
      runSteps settings 0 (startScope p.inputs) p.steps = .error (.failed index name fault) := by
  rw [← violation?_eq_none_iff, run]
  rcases p.violation? settings with _ | v
  · simp only [true_and]
    rw [bind_eq_error]
    refine or_iff_left ?_
    rintro ⟨r, -, h⟩
    exact absurd h (by simp [pure, Except.pure])
  · simp

/-- What ends the run of a valid program ends its steps. -/
lemma runSteps_of_run_eq_error {settings : Settings} {p : Program} {e : RunFault}
    (hvalid : p.violation? settings = none) (h : p.run settings = .error e) :
    runSteps settings 0 (startScope p.inputs) p.steps = .error e := by
  rcases hsteps : runSteps settings 0 (startScope p.inputs) p.steps with e' | ⟨rs, final⟩
  · rw [run, hvalid, hsteps] at h
    rw [Except.error.inj h]
  · rw [run_of_steps (violation?_eq_none_iff.1 hvalid) hsteps] at h
    exact absurd h (by simp)

end Program
end Formulary
