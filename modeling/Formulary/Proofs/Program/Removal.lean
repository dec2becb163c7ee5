import Formulary.Proofs.Program.StrictReferences
import Mathlib.Data.List.InsertIdx
/-!
# Programs with one step less

A step is dead if no other step reads its name and no output does. A dead step can be removed: what is
left breaks no rule, runs, and leaves the same trace but for what was removed
(`Program.run_withoutStep`).

Along the two runs the scopes differ by the binding of the removed step, which no other step reads
(`Program.runSteps_eraseIdx`). Strict validation goes by the references in a source and not by its
expression, but the references of a step that comes to an end are variables of its expression
(`Program.Step.reads_of_mem_variableNames`).
-/

namespace Formulary

open Result

/-! ## What a step refers to, and what it reads -/

lemma variablesOf_eq_nil_of_isBlankText {text : String} (h : isBlankText text = true) :
    variablesOf text = [] := by
  refine List.eq_nil_iff_forall_not_mem.2 fun v hv => ?_
  have hsource : (pieces text.toList).flatMap Piece.source = text.toList := source_pieces _
  have hbrace : '{' ∈ text.toList := by
    rw [← hsource]
    exact List.mem_flatMap.2 ⟨_, mem_variablesOf.1 hv, List.mem_cons_self⟩
  have hblank := List.all_eq_true.1 h _ hbrace
  exact absurd hblank (by decide)

lemma Definition.mentions_of_mem_variableNames {d : Definition} {settings : Settings} {v : String}
    {f : Formula} (hf : d.formula settings = .ok f) (hv : v ∈ d.variableNames) :
    d.Mentions settings v := by
  refine (mentions_iff hf).2 ?_
  cases d with
  | source text => exact Formula.mem_mentions_of_source hf hv
  | tree value => exact (Formula.mentions_of_tree hf).2 hv

namespace Program

variable {settings : Settings}

/-- A step that comes to an end reads what it refers to. -/
theorem Step.reads_of_mem_variableNames {s : Step} {scope : Scope} {value : Option Float}
    {d : Definition} {v : String} (h : s.evaluate settings scope = .ok value)
    (hd : s.definition = some d) (hv : v ∈ d.variableNames) : s.Reads settings v := by
  obtain ⟨d', hd', ⟨hblank, -⟩ | ⟨-, x, hx, -⟩⟩ := Step.evaluate_eq_ok_iff.1 h
  · obtain rfl := Option.some.inj (hd.symm.trans hd')
    cases d with
    | source text =>
      have hnone : variablesOf text = [] := variablesOf_eq_nil_of_isBlankText hblank
      have hmem : v ∈ variablesOf text := hv
      rw [hnone] at hmem
      exact absurd hmem List.not_mem_nil
    | tree value => exact absurd hblank (by simp [Definition.isBlank])
  · obtain rfl := Option.some.inj (hd.symm.trans hd')
    obtain ⟨f, hf, -⟩ := Definition.evaluate_eq_ok_iff.1 hx
    exact ⟨d, hd, Definition.mentions_of_mem_variableNames hf hv⟩

/-! ## Validation -/

/-- Steps that do not refer to a name have the same wrong references whatever is known of it. -/
lemma firstBadReference?_of_lookup {name : String} {visible visible' : List (String × Bool)}
    {declared declared' : List String} {index index' : Nat} {ss : List Step}
    (hss : ∀ r ∈ ss, ∃ d, r.definition = some d ∧ name ∉ d.variableNames)
    (hvisible : ∀ v, v ≠ name → visible'.lookup v = visible.lookup v)
    (h : firstBadReference? visible declared index ss = none) :
    firstBadReference? visible' declared' index' ss = none := by
  induction ss generalizing visible visible' index index' with
  | nil => rfl
  | cons r ss ih =>
    obtain ⟨d, hd, hfree⟩ := hss r List.mem_cons_self
    obtain ⟨hreferences, hrest⟩ := (firstBadReference?_cons_eq_none_iff hd).1 h
    refine (firstBadReference?_cons_eq_none_iff hd).2 ⟨fun v hv => ?_, ?_⟩
    · have hv' : v ≠ name := by
        rintro rfl
        exact hfree hv
      rw [hvisible v hv']
      exact hreferences v hv
    · refine ih (fun q hq => hss q (List.mem_cons_of_mem r hq)) (fun v hv => ?_) hrest
      rw [List.lookup_cons, List.lookup_cons, hvisible v hv]

lemma firstBadReference?_eraseIdx {i : Nat} {s : Step} {visible : List (String × Bool)}
    {declared declared' : List String} {index index' : Nat} {ss : List Step} (hs : ss[i]? = some s)
    (hdefinition : s.definition.isSome = true)
    (hss : ∀ r ∈ ss.eraseIdx i, ∃ d, r.definition = some d ∧ s.name ∉ d.variableNames)
    (h : firstBadReference? visible declared index ss = none) :
    firstBadReference? visible declared' index' (ss.eraseIdx i) = none := by
  induction ss generalizing i visible index index' with
  | nil => rfl
  | cons r ss ih =>
    cases i with
    | zero =>
      obtain rfl : r = s := by simpa using hs
      obtain ⟨d, hd⟩ := Option.isSome_iff_exists.1 hdefinition
      refine firstBadReference?_of_lookup hss (fun v hv => ?_)
        ((firstBadReference?_cons_eq_none_iff hd).1 h).2
      have hne : (v == r.name) = false := by simpa using hv
      rw [List.lookup_cons, hne]
    | succ i =>
      rw [List.eraseIdx_cons_succ] at hss ⊢
      obtain ⟨d, hd, -⟩ := hss r List.mem_cons_self
      obtain ⟨hreferences, hrest⟩ := (firstBadReference?_cons_eq_none_iff hd).1 h
      refine (firstBadReference?_cons_eq_none_iff hd).2 ⟨hreferences, ?_⟩
      exact ih (by simpa using hs) (fun q hq => hss q (List.mem_cons_of_mem r hq)) hrest

/-- The program without the step at a position. -/
def withoutStep (p : Program) (i : Nat) : Program :=
  { p with steps := p.steps.eraseIdx i }

lemma stepNames_withoutStep (p : Program) (i : Nat) :
    (p.withoutStep i).stepNames = p.stepNames.eraseIdx i :=
  (List.eraseIdx_map ..).symm

lemma mem_stepNames_withoutStep {p : Program} {i : Nat} {s : Step} {name : String}
    (hs : p.steps[i]? = some s) (hname : name ≠ s.name) (h : name ∈ p.stepNames) :
    name ∈ (p.withoutStep i).stepNames := by
  obtain ⟨j, hj⟩ := List.mem_iff_getElem?.1 h
  have hsname : p.stepNames[i]? = some s.name := by simp [stepNames, hs]
  have hji : j ≠ i := by
    rintro rfl
    exact hname (Option.some.inj (hj.symm.trans hsname))
  rw [stepNames_withoutStep]
  exact List.mem_eraseIdx_iff_getElem?.2 ⟨j, hji, hj⟩

/-- A valid program stays valid without a step that no other step and no output refers to. -/
theorem Valid.withoutStep {p : Program} {i : Nat} {s : Step} (hp : p.Valid settings)
    (hs : p.steps[i]? = some s) (hne : (p.withoutStep i).steps ≠ [])
    (hsteps : ∀ r ∈ (p.withoutStep i).steps, ∀ d, r.definition = some d → s.name ∉ d.variableNames)
    (houtputs : ∀ o ∈ p.outputs, ∀ d, o.value = some d → d.plainName? ≠ some s.name) :
    (p.withoutStep i).Valid settings where
  steps_ne_nil := hne
  inputs := hp.inputs
  outputs_ne_nil := hp.outputs_ne_nil
  steps r hr := hp.steps r (List.mem_of_mem_eraseIdx hr)
  outputs o ho := by
    obtain ⟨d, hd, hplain⟩ := hp.outputs o ho
    refine ⟨d, hd, fun name hname => mem_stepNames_withoutStep hs ?_ (hplain name hname)⟩
    rintro rfl
    exact houtputs o ho d hd hname
  distinct := by
    rw [stepNames_withoutStep]
    exact hp.distinct.sublist ((List.Sublist.refl _).append (List.eraseIdx_sublist ..))
  references hstrict := by
    refine firstBadReference?_eraseIdx hs (hp.steps s (List.mem_of_getElem? hs)).2 ?_
      (hp.references hstrict)
    intro r hr
    obtain ⟨d, hd⟩ := Option.isSome_iff_exists.1 (hp.steps r (List.mem_of_mem_eraseIdx hr)).2
    exact ⟨d, hd, hsteps r hr d hd⟩

/-! ## Runs -/

/-- Steps that have another name and do not read a name run alike without its binding. -/
lemma runSteps_without {name : String} {index index' : Nat} {scope final : Scope} {ss : List Step}
    {rs : List StepRecord} (hss : ∀ r ∈ ss, r.name ≠ name ∧ ¬ r.Reads settings name)
    (h : runSteps settings index scope ss = .ok (rs, final)) :
    runSteps settings index' (scope.without name) ss = .ok (rs, final.without name) := by
  induction ss generalizing index index' scope rs with
  | nil =>
    obtain ⟨rfl, rfl⟩ := Prod.mk.inj (Except.ok.inj h)
    rfl
  | cons r ss ih =>
    obtain ⟨value, rest, hvalue, hrest, rfl⟩ := runSteps_cons_eq_ok_iff.1 h
    obtain ⟨hname, hreads⟩ := hss r List.mem_cons_self
    have hvalue' : r.evaluate settings (scope.without name) = .ok value := by
      refine Step.evaluate_eq_ok_of_reads (fun v hv => (Scope.get?_without ?_).symm) hvalue
      rintro rfl
      exact hreads hv
    have hextend : r.extend (scope.without name) value = (r.extend scope value).without name := by
      cases value with
      | none => rfl
      | some x => exact (Scope.without_insert hname).symm
    refine runSteps_cons_eq_ok_iff.2 ⟨value, rest, hvalue', ?_, rfl⟩
    rw [hextend]
    exact ih (fun q hq => hss q (List.mem_cons_of_mem r hq)) hrest

/-- The steps of a run without one whose name the others do not read: up to it the two runs are the
same, and after it their scopes differ by its binding. -/
theorem runSteps_eraseIdx {i index index' : Nat} {s : Step} {scope final : Scope} {ss : List Step}
    {rs : List StepRecord} (hs : ss[i]? = some s) (hnew : s.name ∉ scope.names)
    (hss : ∀ r ∈ ss.eraseIdx i, r.name ≠ s.name ∧ ¬ r.Reads settings s.name)
    (h : runSteps settings index scope ss = .ok (rs, final)) :
    runSteps settings index' scope (ss.eraseIdx i) = .ok (rs.eraseIdx i, final.without s.name) := by
  induction ss generalizing i index index' scope rs with
  | nil => exact absurd hs (by simp)
  | cons r ss ih =>
    obtain ⟨value, rest, hvalue, hrest, rfl⟩ := runSteps_cons_eq_ok_iff.1 h
    cases i with
    | zero =>
      obtain rfl : r = s := by simpa using hs
      have hscope : (r.extend scope value).without r.name = scope := by
        cases value with
        | none => exact Scope.without_of_not_mem hnew
        | some x => exact Scope.without_insert_self hnew
      have hwithout : runSteps settings index' ((r.extend scope value).without r.name) ss =
          .ok (rest, final.without r.name) := runSteps_without hss hrest
      rw [hscope] at hwithout
      exact hwithout
    | succ i =>
      rw [List.eraseIdx_cons_succ] at hss ⊢
      refine runSteps_cons_eq_ok_iff.2 ⟨value, rest.eraseIdx i, hvalue, ?_, rfl⟩
      refine ih (by simpa using hs) ?_ (fun q hq => hss q (List.mem_cons_of_mem r hq)) hrest
      -- the step binds its own name at most
      have hname := (hss r List.mem_cons_self).1
      cases value with
      | none => exact hnew
      | some x =>
        rw [Step.extend, Scope.names_insert]
        split
        · exact hnew
        · simpa [hnew] using fun e => hname e.symm

/-- The names of the other steps are other names. -/
lemma Valid.name_ne_of_mem_eraseIdx {p : Program} {i : Nat} {s r : Step} (hp : p.Valid settings)
    (hs : p.steps[i]? = some s) (hr : r ∈ p.steps.eraseIdx i) : r.name ≠ s.name := by
  obtain ⟨j, hj, hr⟩ := List.mem_eraseIdx_iff_getElem?.1 hr
  intro hname
  have hnodup : p.stepNames.Nodup := (List.nodup_append.1 hp.distinct).2.1
  have hi : p.stepNames[i]? = some s.name := by simp [stepNames, hs]
  have hj' : p.stepNames[j]? = some s.name := by simp [stepNames, hr, hname]
  have hlt : j < p.stepNames.length := (List.getElem?_eq_some_iff.1 hj').1
  exact hj ((List.getElem?_inj hlt hnodup).1 (hj'.trans hi.symm))

/-- **Removing a dead step changes nothing else.** If no other step and no output reads the name of a
step, the program without it is valid and runs, with the same outputs, the same records of the other
steps, and the same scope but for the binding of the step. -/
theorem run_withoutStep {p : Program} {t : Trace} {i : Nat} {s : Step}
    (h : p.run settings = .ok t) (hs : p.steps[i]? = some s) (hne : (p.withoutStep i).steps ≠ [])
    (hsteps : ∀ r ∈ (p.withoutStep i).steps, ¬ r.Reads settings s.name)
    (houtputs : ∀ o ∈ p.outputs, ¬ o.Reads settings s.name) :
    (p.withoutStep i).violation? settings = none ∧
      (p.withoutStep i).run settings =
        .ok ⟨t.steps.eraseIdx i, t.scope.without s.name, t.outputs⟩ := by
  obtain ⟨hvalid, hrun, hrecords⟩ := run_eq_ok_iff.1 h
  obtain ⟨-, hrecorded, -⟩ := run_spec h
  have hvalid' : (p.withoutStep i).Valid settings := by
    refine hvalid.withoutStep hs hne (fun r hr d hd hv => ?_) fun o ho d hd hplain => ?_
    · -- a reference of a step that has been run is read by it
      obtain ⟨_, hrecord⟩ := exists_recorded_of_mem hrecorded (List.mem_of_mem_eraseIdx hr)
      exact hsteps r hr (Step.reads_of_mem_variableNames hrecord.value hd hv)
    · exact houtputs o ho ⟨d, hd, .inl hplain⟩
  refine ⟨violation?_eq_none_iff.2 hvalid', run_eq_ok_iff.2 ⟨hvalid', ?_, ?_⟩⟩
  · refine runSteps_eraseIdx hs ?_ (fun r hr => ?_) hrun
    · -- the scope of the inputs has no name of a step
      have hstart : (startScope p.inputs).names = p.inputNames := (startScope_spec hvalid).1
      intro hmem
      have hmem : s.name ∈ p.inputNames := hstart ▸ hmem
      have hname : s.name ∈ p.stepNames := List.mem_map.2 ⟨s, List.mem_of_getElem? hs, rfl⟩
      exact (List.nodup_append.1 hvalid.distinct).2.2 _ hmem _ hname rfl
    · exact ⟨hvalid.name_ne_of_mem_eraseIdx hs hr, hsteps r hr⟩
  · rw [hrecords]
    refine List.map_congr_left fun o ho => Output.record_eq_of_reads fun v hv => ?_
    refine (Scope.get?_without ?_).symm
    rintro rfl
    exact houtputs o ho hv

/-- A program in which nothing comes of the first of two steps. -/
def idle : Program where
  inputs := [.of "a" .float (.number 2.0)]
  steps := [.of "b" (.tree (.array [.string "Add", .string "a", .string "a"])),
    .of "c" (.tree (.string "a"))]
  outputs := [.of "d" .float "c"]

theorem run_idle_withoutStep : ∃ t, idle.run .standard = .ok t ∧
    (idle.withoutStep 0).violation? .standard = none ∧
    (idle.withoutStep 0).run .standard =
      .ok ⟨t.steps.eraseIdx 0, t.scope.without "b", t.outputs⟩ := by
  have hvalid : idle.Valid .standard := violation?_eq_none_iff.1 (by decide +kernel)
  have hsteps : runSteps .standard 0 (startScope idle.inputs) idle.steps =
      .ok ([⟨"b", some (2.0 + 2.0)⟩, ⟨"c", some 2.0⟩],
        .ofList [("a", 2.0), ("b", 2.0 + 2.0), ("c", 2.0)]) := rfl
  have hrun := run_of_steps hvalid hsteps
  refine ⟨_, hrun, run_withoutStep hrun (s := .of "b" _) rfl (by simp [withoutStep, idle]) ?_ ?_⟩
  · intro r hr hreads
    obtain rfl : r = .of "c" (.tree (.string "a")) := List.mem_singleton.1 hr
    obtain ⟨d, hd, f, span, hf, hsymbol⟩ := hreads
    obtain rfl : .tree (.string "a") = d := Option.some.inj hd
    have hmentions := (Definition.mentions_iff hf).1 ⟨f, span, hf, hsymbol⟩
    exact absurd ((Formula.mentions_of_tree hf).1 hmentions) (by decide)
  · intro o ho hreads
    obtain rfl : o = .of "d" .float "c" := List.mem_singleton.1 ho
    obtain ⟨d, hd, hplain | ⟨f, span, hf, hsymbol⟩⟩ := hreads
    · obtain rfl : .source "c" = d := Option.some.inj hd
      exact absurd hplain (by decide)
    · obtain rfl : .source "c" = d := Option.some.inj hd
      have hmentions := (Definition.mentions_iff hf).1 ⟨f, span, hf, hsymbol⟩
      have hgaps : gaps "c" = [['c']] := by with_unfolding_all rfl
      have hvariables : variablesOf "c" = [] := by with_unfolding_all rfl
      rcases Formula.mentions_of_source hf hmentions with hbare | hv
      · obtain ⟨gap, hgap, hinfix⟩ := hbare.exists_infix
        rw [hgaps] at hgap
        obtain rfl := List.mem_singleton.1 hgap
        exact absurd hinfix.length_le (by decide)
      · rw [hvariables] at hv
        exact absurd hv List.not_mem_nil

end Program
end Formulary
