import Formulary.Formula
import Formulary.Proofs.Expr.Atoms
import Formulary.Proofs.Expr.Faults
import Formulary.Proofs.Template.Gaps
import Formulary.Proofs.Tree.Mentions
/-!
# What formulas are made of

When a source or a tree has a formula, and which (`Formula.ofSource_eq_ok_iff`,
`Formula.ofTree_eq_ok_iff`). The names in the expression of a source are the identifiers of its
references and names that stand bare in it (`Formula.symbol_of_source`); a tree has no bare names
(`Formula.mentions_of_tree`). What is wrong with a source or a tree by itself is never that a variable
has no binding.
-/

namespace Formulary

open Result

/-! ## Texts that have a formula -/

lemma Expr.checked_eq_ok_iff {settings : Settings} {e e' : Expr} :
    e.checked settings = .ok e' ↔ e.exceeds settings.maxDepth = false ∧ e.Resolved ∧ e' = e := by
  rw [Expr.checked]
  split
  · rename_i h
    simp [h]
  · rename_i h
    rw [← resolutionFault?_eq_none_iff]
    rcases e.resolutionFault? with _ | fault
    · simp [h, eq_comm]
    · simp

lemma Expr.ofText_eq_ok_iff {text : List Char} {e : Expr} :
    Expr.ofText text = .ok e ↔ ∃ ls, tokenize text = .ok ls ∧ parse ls = .ok e := by
  rw [Expr.ofText, bind_eq_ok]
  simp only [mapError_eq_ok]

namespace Formula

theorem ofSource_eq_ok_iff {settings : Settings} {source : String} {f : Formula} :
    ofSource settings source = .ok f ↔ isBlankText source = false ∧
      ∃ ls e, tokenize (Template.ofSource source).text = .ok ls ∧ parse ls = .ok e ∧
        e.exceeds settings.maxDepth = false ∧ e.Resolved ∧
        f = ⟨e, Template.ofSource source, variablesOf source⟩ := by
  rw [ofSource]
  split
  · rename_i hblank
    simp [hblank]
  · rename_i hblank
    have hblank : isBlankText source = false := by simpa using hblank
    simp only [hblank, true_and]
    constructor
    · intro h
      split at h
      · exact absurd h (by simp)
      · rename_i e he
        obtain rfl := Except.ok.inj h
        obtain ⟨e', htext, hchecked⟩ := bind_eq_ok.1 he
        obtain ⟨ls, hls, hparse⟩ := Expr.ofText_eq_ok_iff.1 htext
        obtain ⟨hdepth, hresolved, rfl⟩ := Expr.checked_eq_ok_iff.1 hchecked
        exact ⟨ls, e, hls, hparse, hdepth, hresolved, rfl⟩
    · rintro ⟨ls, e, hls, hparse, hdepth, hresolved, rfl⟩
      have htext : Expr.ofText (Template.ofSource source).text = .ok e :=
        Expr.ofText_eq_ok_iff.2 ⟨ls, hls, hparse⟩
      rw [htext, ok_bind, Expr.checked_eq_ok_iff.2 ⟨hdepth, hresolved, rfl⟩]

/-- The fault of a source is that it is blank, or what is wrong with its text, moved to the source. -/
theorem ofSource_eq_error_iff {settings : Settings} {source : String} {fault : Fault} :
    ofSource settings source = .error fault ↔ isBlankText source = true ∧ fault = .blank ∨
      isBlankText source = false ∧ ∃ cause,
        (Expr.ofText (Template.ofSource source).text >>= Expr.checked settings) = .error cause ∧
        fault = cause.mapSpan (Template.ofSource source).toSource := by
  rw [ofSource]
  rcases hblank : isBlankText source with _ | _
  · dsimp only
    rcases Expr.ofText (Template.ofSource source).text >>= Expr.checked settings with cause | e
    · simp [eq_comm]
    · simp
  · simp [eq_comm]

theorem ofTree_eq_ok_iff {settings : Settings} {tree : Json} {f : Formula} :
    ofTree settings tree = .ok f ↔
      ∃ e, Tree.toExpr tree = .ok e ∧ e.exceeds settings.maxDepth = false ∧ e.Resolved ∧
        f = ⟨e, .ofSource "", Tree.variableNames tree⟩ := by
  rw [ofTree]
  constructor
  · intro h
    obtain ⟨e, he, hrest⟩ := bind_eq_ok.1 h
    obtain ⟨e', hchecked, hpure⟩ := bind_eq_ok.1 hrest
    obtain ⟨hdepth, hresolved, rfl⟩ := Expr.checked_eq_ok_iff.1 hchecked
    exact ⟨_, mapError_eq_ok.1 he, hdepth, hresolved, (Except.ok.inj hpure).symm⟩
  · rintro ⟨e, he, hdepth, hresolved, rfl⟩
    rw [mapError_eq_ok.2 he, ok_bind, Expr.checked_eq_ok_iff.2 ⟨hdepth, hresolved, rfl⟩]
    rfl

/-! ## The names in a formula -/

/-- No token of a text whose expression is resolved is a quoted text. -/
lemma text_not_mem_of_resolved {ls : List Lexeme} {e : Expr} (hparse : parse ls = .ok e)
    (hresolved : e.Resolved) (t : String) : Token.text t ∉ ls.map Lexeme.token := by
  intro ht
  obtain ⟨⟨token, sp⟩, hl, rfl : token = .text t⟩ := List.mem_map.1 ht
  have hatom : (⟨.text t, sp⟩ : Lexeme) ∈ e.atoms := by
    rw [atoms_of_parse hparse]
    exact List.mem_filter.2 ⟨hl, rfl⟩
  exact absurd (hresolved.unquoted _ (Expr.text_mem_nodes_of_atoms hatom)) (by simp [Expr.quotedText?])

/-- A symbol in the formula of a source stands for one of its references, or it stands bare. -/
theorem symbol_of_source {settings : Settings} {source name : String} {f : Formula} {s : Span}
    (h : ofSource settings source = .ok f) (hname : .symbol s name ∈ f.expr.nodes) :
    StandsBare source name ∨ ∃ v ∈ variablesOf source, name = identifierOf v := by
  obtain ⟨-, ls, e, hls, hparse, -, hresolved, rfl⟩ := ofSource_eq_ok_iff.1 h
  refine standsBare_or_reference (tokensOf_of_tokenize hls)
    (text_not_mem_of_resolved hparse hresolved) ?_
  have hatom := Expr.mem_atoms_of_symbol hname
  rw [atoms_of_parse hparse] at hatom
  exact List.mem_map.2 ⟨_, (List.mem_filter.1 hatom).1, rfl⟩

/-- A variable in the formula of a source is one of its references, or its identifier stands bare. -/
lemma mentions_of_source {settings : Settings} {source v : String} {f : Formula}
    (h : ofSource settings source = .ok f) (hv : v ∈ f.expr.mentions) :
    StandsBare source (identifierOf v) ∨ v ∈ variablesOf source := by
  obtain ⟨s, name, hname, hvar⟩ := Expr.mem_mentions.1 hv
  obtain rfl := identifierOf_of_variableOf? hvar
  rcases symbol_of_source h hname with hbare | ⟨w, hw, heq⟩
  · exact .inl hbare
  · obtain rfl := identifierOf_inj heq
    exact .inr hw

/-- Each reference of a source is a variable in its formula. -/
theorem mem_mentions_of_source {settings : Settings} {source v : String} {f : Formula}
    (h : ofSource settings source = .ok f) (hv : v ∈ variablesOf source) : v ∈ f.expr.mentions := by
  obtain ⟨-, ls, e, hls, hparse, -, hresolved, rfl⟩ := ofSource_eq_ok_iff.1 h
  have htoken := identifier_mem_tokensOf (tokensOf_of_tokenize hls)
    (text_not_mem_of_resolved hparse hresolved) hv
  obtain ⟨⟨token, sp⟩, hl, rfl : token = .name (identifierOf v)⟩ := List.mem_map.1 htoken
  have hatom : (⟨.name (identifierOf v), sp⟩ : Lexeme) ∈ e.atoms := by
    rw [atoms_of_parse hparse]
    exact List.mem_filter.2 ⟨hl, rfl⟩
  rcases Expr.symbol_or_call_of_mem_atoms hatom with hsymbol | ⟨s, args, hcall⟩
  · exact Expr.mem_mentions.2 ⟨sp, _, hsymbol, variableOf?_identifierOf v⟩
  · -- no variable is a function
    have hcallable := hresolved.callable _ hcall
    exact absurd hcallable (by simp [Expr.callFault?, Expr.callee, builtin?_identifierOf])

/-- The variables in the formula of a tree are those that are listed for the tree. -/
lemma mentions_of_tree {settings : Settings} {tree : Json} {v : String} {f : Formula}
    (h : ofTree settings tree = .ok f) : v ∈ f.expr.mentions ↔ v ∈ Tree.variableNames tree := by
  obtain ⟨e, he, -, -, rfl⟩ := ofTree_eq_ok_iff.1 h
  rw [Tree.variableNames, mem_sortedNames, Tree.mentions_of_toExpr tree he]

end Formula

/-! ## Faults without a scope -/

lemma isUnbound_error_congr {α β : Type} {fault : Fault} :
    IsUnbound (.error fault : Except Fault α) ↔ IsUnbound (.error fault : Except Fault β) := by
  simp [IsUnbound]

lemma isUnbound_mapError_mapSpan {α : Type} {r : Except Fault α} {g : Span → Span} :
    IsUnbound (r.mapError (Fault.mapSpan g)) ↔ IsUnbound r := by
  cases r with
  | error fault => cases fault <;> simp [IsUnbound, Fault.mapSpan]
  | ok a => simp [IsUnbound]

/-- Reading tokens meets no variable. -/
lemma not_isUnbound_run {s : ParserState} {position : Nat} {ls : List Lexeme} :
    ¬ IsUnbound (s.run position ls) := by
  induction ls generalizing s position with
  | nil =>
    rw [ParserState.run]
    split
    · exact not_isUnbound_ok _
    · simp [IsUnbound]
  | cons l ls ih =>
    rw [ParserState.run]
    split
    · exact ih
    · simp [IsUnbound]

lemma Expr.not_isUnbound_checked {settings : Settings} {e : Expr} :
    ¬ IsUnbound (e.checked settings) := by
  rw [Expr.checked]
  split
  · simp [IsUnbound]
  · split
    · rename_i fault hfault
      rw [resolutionFault?] at hfault
      split at hfault
      · obtain rfl := Option.some.inj hfault
        simp [IsUnbound, unknownFault]
      · split at hfault
        · obtain rfl := Option.some.inj hfault
          simp [IsUnbound]
        · -- what is wrong with a call
          rw [first?_eq] at hfault
          obtain ⟨n, -, hn⟩ := List.exists_of_findSome?_eq_some hfault
          unfold callFault? at hn
          split at hn
          · split at hn
            · rename_i hcallee
              obtain rfl := Option.some.inj hn
              exact fun h => not_isUnbound_callee hcallee (isUnbound_error_congr.1 h)
            · exact absurd hn (by simp)
          · exact absurd hn (by simp)
    · exact not_isUnbound_ok e

namespace Formula

lemma not_isUnbound_ofSource {settings : Settings} {source : String} :
    ¬ IsUnbound (ofSource settings source) := by
  have htext : ¬ IsUnbound (Expr.ofText (Template.ofSource source).text >>= Expr.checked settings) := by
    rw [Expr.isUnbound_bind, Expr.ofText, Expr.isUnbound_bind]
    rintro ((h | ⟨ls, -, h⟩) | ⟨e, -, h⟩)
    · obtain ⟨name, s, suggestion, h⟩ := h
      obtain ⟨r, -, h⟩ := mapError_eq_error.1 h
      exact absurd h (by simp [Rejection.fault])
    · exact not_isUnbound_run h
    · exact Expr.not_isUnbound_checked h
  rw [ofSource]
  split
  · simp [IsUnbound]
  · dsimp only
    split
    · rename_i fault hfault
      rw [hfault] at htext
      intro h
      rw [← mapError_error, isUnbound_mapError_mapSpan] at h
      exact htext (isUnbound_error_congr.1 h)
    · exact not_isUnbound_ok _

lemma not_isUnbound_ofTree {settings : Settings} {tree : Json} :
    ¬ IsUnbound (ofTree settings tree) := by
  rw [ofTree, Expr.isUnbound_bind]
  rintro (⟨name, s, suggestion, h⟩ | ⟨e, -, h⟩)
  · obtain ⟨cause, -, h⟩ := mapError_eq_error.1 h
    exact absurd h (by simp)
  · rw [Expr.isUnbound_bind_ok] at h
    exact Expr.not_isUnbound_checked h

lemma isUnbound_evaluate_iff {f : Formula} {scope : Scope} :
    IsUnbound (f.evaluate scope) ↔ ∃ v ∈ f.expr.reads scope, scope.get? v = none := by
  rw [evaluate, isUnbound_mapError_mapSpan, Expr.isUnbound_evaluate_iff]
  rfl

end Formula

/-! ## Reports -/

@[simp] lemma Fault.message_suggestFrom (scope : Scope) (fault : Fault) :
    (fault.suggestFrom scope).message = fault.message := by
  unfold suggestFrom
  split
  · split <;> rfl
  · rfl

/-- The message that analysis reports is that of the fault of the source. -/
lemma exists_fault_of_analyze {settings : Settings} {source message : String}
    (h : (analyze settings source).error = some message) :
    ∃ fault, Formula.ofSource settings source = .error fault ∧ fault.message = message := by
  rw [analyze] at h
  split at h
  · exact absurd h (by simp)
  · rcases hf : Formula.ofSource settings source with fault | f
    · rw [hf] at h
      exact ⟨fault, rfl, Option.some.inj h⟩
    · rw [hf] at h
      exact absurd h (by simp)

end Formulary
