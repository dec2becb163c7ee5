import Formulary.Proofs.Formula.Name
/-!
# Scopes that bind the variables of a source

Analysis lists the references of a source. A scope that binds all of them need not be enough to evaluate
it: an identifier of a variable may also stand bare in the source, and no list tells of it. That is all
that can be missing (`evaluateSource_of_complete_scope`).
-/

namespace Formulary

/-- A result is a finite number, or that there is none because the number is not finite. -/
def IsNumeric (r : Except Fault Float) : Prop :=
  (∃ x, r = .ok x ∧ x.isFinite = true) ∨ ∃ fault, r = .error fault ∧ fault.kind = .nonFiniteResult

/-- A result is that a symbol is not known, or that a variable has no binding. -/
def LacksSymbol (r : Except Fault Float) : Prop :=
  ∃ fault, r = .error fault ∧ fault.kind = .unknownSymbol

lemma lacksSymbol_of_isUnbound {r : Except Fault Float} (h : IsUnbound r) : LacksSymbol r := by
  obtain ⟨name, s, suggestion, rfl⟩ := h
  exact ⟨_, rfl, rfl⟩

lemma not_isNumeric_of_lacksSymbol {r : Except Fault Float} (h : LacksSymbol r) : ¬ IsNumeric r := by
  obtain ⟨fault, rfl, hkind⟩ := h
  rintro (⟨x, hx, -⟩ | ⟨fault', hfault, hkind'⟩)
  · exact absurd hx (by simp)
  · obtain rfl := Except.error.inj hfault
    rw [hkind] at hkind'
    exact absurd hkind' (by decide)

lemma exists_formula_of_analyze {settings : Settings} {source : String}
    (hblank : isBlankText source = false) (h : (analyze settings source).error = none) :
    ∃ f, Formula.ofSource settings source = .ok f := by
  rw [analyze, hblank] at h
  rcases hf : Formula.ofSource settings source with fault | f
  · rw [hf] at h
    exact absurd h (by simp)
  · exact ⟨f, rfl⟩

lemma variableNames_analyze {settings : Settings} {source : String}
    (hblank : isBlankText source = false) :
    (analyze settings source).variableNames = variablesOf source := by
  rw [analyze, hblank]
  rfl

lemma analyze_eq_none {settings : Settings} {source : String} {f : Formula}
    (hf : Formula.ofSource settings source = .ok f) : (analyze settings source).error = none := by
  rw [analyze]
  split
  · rfl
  · rw [hf]

/-- A formula without the reserved word comes to a number, or it lacks a variable. -/
lemma Formula.isNumeric_or_isUnbound {f : Formula} (hresolved : f.expr.Resolved)
    (hend : ∀ s, .symbol s "end" ∉ f.expr.nodes) (scope : Scope) :
    IsNumeric (f.evaluate scope) ∨ IsUnbound (f.evaluate scope) := by
  have houtcome := Expr.evaluate_of_resolved hresolved scope
  rw [Formula.evaluate]
  generalize f.expr.evaluate scope = r at houtcome ⊢
  cases houtcome with
  | @finite x hfinite => exact .inl (.inl ⟨x, rfl, hfinite⟩)
  | @notFinite x _ => exact .inl (.inr ⟨.notFinite x, rfl, rfl⟩)
  | @reserved s hs => exact absurd hs (hend s)
  | @unbound v s _ _ => exact .inr ⟨v, _, _, rfl⟩

/-- The reserved word is the identifier of no variable. -/
lemma identifierOf_ne_end (v : String) : identifierOf v ≠ "end" := by
  intro h
  have hnone : variableOf? "end" = none := by decide
  rw [← h, variableOf?_identifierOf] at hnone
  exact absurd hnone (by simp)

/-- A source without the bare reserved word comes to a number, or it lacks a variable. -/
lemma isNumeric_or_isUnbound {settings : Settings} {source : String} {f : Formula}
    (hf : Formula.ofSource settings source = .ok f) (hend : ¬ StandsBare source "end")
    (scope : Scope) : IsNumeric (f.evaluate scope) ∨ IsUnbound (f.evaluate scope) := by
  obtain ⟨-, ls, e, -, -, -, hresolved, hfe⟩ := Formula.ofSource_eq_ok_iff.1 hf
  have hexpr : f.expr = e := by rw [hfe]
  rw [← hexpr] at hresolved
  refine Formula.isNumeric_or_isUnbound hresolved (fun s hs => ?_) scope
  rcases Formula.symbol_of_source hf hs with hbare | ⟨v, -, hv⟩
  · exact hend hbare
  · exact identifierOf_ne_end v hv.symm

/-- **A source that analysis finds right, in a scope that binds the variables that analysis lists,
comes to a number exactly if the scope also binds every variable that evaluation comes to and whose
identifier stands bare in the source.** If it does not bind one of these, evaluation ends with an
unknown symbol. -/
theorem evaluateSource_of_complete_scope {settings : Settings} {source : String} {scope : Scope}
    (hblank : isBlankText source = false) (hend : ¬ StandsBare source "end")
    (hanalysis : (analyze settings source).error = none)
    (hscope : ∀ v ∈ (analyze settings source).variableNames, scope.contains v = true) :
    ∃ f, Formula.ofSource settings source = .ok f ∧
      (IsNumeric (evaluateSource settings source scope) ↔
        ∀ v ∈ f.expr.reads scope, StandsBare source (identifierOf v) → scope.contains v = true) ∧
      (LacksSymbol (evaluateSource settings source scope) ↔
        ∃ v ∈ f.expr.reads scope, StandsBare source (identifierOf v) ∧ scope.contains v = false) := by
  obtain ⟨f, hf⟩ := exists_formula_of_analyze hblank hanalysis
  rw [variableNames_analyze hblank] at hscope
  have hsource : evaluateSource settings source scope = f.evaluate scope := by
    rw [evaluateSource, hf]
  -- a variable without a binding is no reference of the source, so its identifier stands bare
  have hunbound : IsUnbound (f.evaluate scope) ↔
      ∃ v ∈ f.expr.reads scope, StandsBare source (identifierOf v) ∧ scope.contains v = false := by
    rw [Formula.isUnbound_evaluate_iff]
    constructor
    · rintro ⟨v, hv, hget⟩
      have hfree := Scope.contains_eq_false_iff.2 hget
      rcases Formula.mentions_of_source hf (Expr.mem_mentions_of_mem_reads hv) with hbare | hmem
      · exact ⟨v, hv, hbare, hfree⟩
      · rw [hscope v hmem] at hfree
        exact absurd hfree (by simp)
    · rintro ⟨v, hv, -, hfree⟩
      exact ⟨v, hv, Scope.contains_eq_false_iff.1 hfree⟩
  refine ⟨f, hf, ?_, ?_⟩
  · rw [hsource]
    constructor
    · intro hnumeric v hv hbare
      by_contra hfree
      have hlacks := hunbound.2 ⟨v, hv, hbare, by simpa using hfree⟩
      exact not_isNumeric_of_lacksSymbol (lacksSymbol_of_isUnbound hlacks) hnumeric
    · intro hbound
      refine (isNumeric_or_isUnbound hf hend scope).resolve_right fun hlacks => ?_
      obtain ⟨v, hv, hbare, hfree⟩ := hunbound.1 hlacks
      rw [hbound v hv hbare] at hfree
      exact absurd hfree (by simp)
  · rw [hsource, ← hunbound]
    constructor
    · intro hlacks
      refine (isNumeric_or_isUnbound hf hend scope).resolve_left fun hnumeric => ?_
      exact not_isNumeric_of_lacksSymbol hlacks hnumeric
    · exact lacksSymbol_of_isUnbound

theorem isNumeric_reference_bound :
    IsNumeric (evaluateSource .standard (Fault.reference "a") (.ofList [("a", 1.0)])) := by
  have hname : isName "a" = true := rfl
  have hf : Formula.ofSource .standard (Fault.reference "a") = .ok _ :=
    Formula.ofSource_reference hname (by decide)
  have hblank := isBlankText_reference "a"
  have hbound : ∀ v ∈ (analyze .standard (Fault.reference "a")).variableNames,
      (Scope.ofList [("a", 1.0)]).contains v = true := by
    intro v hv
    rw [variableNames_analyze hblank, variablesOf_reference hname] at hv
    obtain rfl := List.mem_singleton.1 hv
    rfl
  obtain ⟨f, -, hnumeric, -⟩ := evaluateSource_of_complete_scope hblank
    (not_standsBare_reference hname "end") (analyze_eq_none hf) hbound
  exact hnumeric.2 fun v _ hbare => absurd hbare (not_standsBare_reference hname _)

/-- Analysis finds an identifier by itself right and lists no variable, but no scope without the
variable is enough to evaluate it. -/
lemma lacksSymbol_identifier {settings : Settings} {v : String} {scope : Scope}
    (hv : isName v = true) (hdepth : 0 < settings.maxDepth) (hfree : scope.get? v = none) :
    analyze settings (identifierOf v) = ⟨[], none⟩ ∧
      LacksSymbol (evaluateSource settings (identifierOf v) scope) := by
  constructor
  · rw [analyze, isBlankText_identifier, variablesOf_identifier hv,
      Formula.ofSource_identifier hv hdepth]
    rfl
  · exact ⟨_, evaluateSource_identifier hv hdepth hfree, rfl⟩

theorem lacksSymbol_bare :
    isBlankText "__v_x" = false ∧ ¬ StandsBare "__v_x" "end" ∧
      (analyze .standard "__v_x").error = none ∧
      (∀ v ∈ (analyze .standard "__v_x").variableNames, Scope.empty.contains v = true) ∧
      LacksSymbol (evaluateSource .standard "__v_x" .empty) ∧
      ¬ IsNumeric (evaluateSource .standard "__v_x" .empty) := by
  have hname : isName "x" = true := rfl
  have hx : "__v_x" = identifierOf "x" := by decide
  have hdepth : 0 < Settings.standard.maxDepth := by decide
  obtain ⟨hanalysis, hlacks⟩ := lacksSymbol_identifier hname hdepth (Scope.get?_empty "x")
  rw [hx, hanalysis]
  refine ⟨isBlankText_identifier "x", ?_, rfl, ?_, hlacks, not_isNumeric_of_lacksSymbol hlacks⟩
  · rw [standsBare_identifier_iff hname]
    decide
  · intro v hv
    exact absurd hv List.not_mem_nil

end Formulary
