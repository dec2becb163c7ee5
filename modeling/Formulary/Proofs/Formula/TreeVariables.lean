import Formulary.Proofs.Formula.CompleteScope
import Formulary.Proofs.Text.Names
/-!
# The variables that are listed for trees

A tree has no bare names, so the variables that are listed for it are all that a scope has to bind
(`Tree.variableNames_exact`): evaluation of its formula ends in a number or in one that is not finite.
-/

namespace Formulary

/-- The reserved word is in no tree. -/
lemma Tree.end_not_mem_nodes {t : Json} {e : Expr} (he : toExpr t = .ok e) (s : Span) :
    .symbol s "end" ∉ e.nodes := by
  intro hs
  rcases symbol_of_toExpr t he hs with ⟨entry, hentry, hword⟩ | ⟨v, hv⟩
  · have hconstants : ∀ c ∈ constants, c.2 ≠ "end" := by decide
    exact hconstants entry hentry hword.symm
  · exact identifierOf_ne_end v hv.symm

namespace Formula

/-- The formula of a tree, in a scope that binds the variables that are listed for the tree, comes to a
number. -/
lemma isNumeric_of_tree {settings : Settings} {tree : Json} {f : Formula} {scope : Scope}
    (hf : ofTree settings tree = .ok f)
    (hscope : ∀ v ∈ Tree.variableNames tree, scope.contains v = true) :
    IsNumeric (f.evaluate scope) := by
  obtain ⟨e, he, -, hresolved, hfe⟩ := ofTree_eq_ok_iff.1 hf
  have hexpr : f.expr = e := by rw [hfe]
  rw [← hexpr] at he hresolved
  refine (isNumeric_or_isUnbound hresolved (Tree.end_not_mem_nodes he) scope).resolve_right ?_
  intro hunbound
  obtain ⟨v, hv, hfree⟩ := isUnbound_evaluate_iff.1 hunbound
  have hbound := hscope v ((mentions_of_tree hf).1 (Expr.mem_mentions_of_mem_reads hv))
  rw [Scope.contains_eq_false_iff.2 hfree] at hbound
  exact absurd hbound (by simp)

end Formula

namespace Tree

lemma ascending_variableNames (t : Json) : Ascending (variableNames t) :=
  ascending_sortedNames fun _ => isName_of_mem_names t

lemma mem_variableNames_iff {t : Json} {e : Expr} (he : toExpr t = .ok e) {v : String} :
    v ∈ variableNames t ↔ ∃ s, .symbol s (identifierOf v) ∈ e.nodes := by
  rw [variableNames, mem_sortedNames, ← mentions_of_toExpr t he, Expr.mem_mentions]
  constructor
  · rintro ⟨s, name, hs, hv⟩
    obtain rfl := identifierOf_of_variableOf? hv
    exact ⟨s, hs⟩
  · rintro ⟨s, hs⟩
    exact ⟨s, _, hs, variableOf?_identifierOf v⟩

/-- **The names that are listed for a tree that has an expression ascend, and they are exactly the
variables whose identifiers are symbols of the expression.** A scope that binds them is enough for the
formula of the tree under any settings: it comes to a number, or to one that is not finite, and it lacks
no symbol. -/
theorem variableNames_exact {t : Json} {e : Expr} (he : toExpr t = .ok e) :
    Ascending (variableNames t) ∧
      (∀ v, v ∈ variableNames t ↔ ∃ s, .symbol s (identifierOf v) ∈ e.nodes) ∧
      ∀ settings f scope, Formula.ofTree settings t = .ok f →
        (∀ v ∈ variableNames t, scope.contains v = true) →
        IsNumeric (f.evaluate scope) ∧ ¬ LacksSymbol (f.evaluate scope) := by
  refine ⟨ascending_variableNames t, fun v => mem_variableNames_iff he, ?_⟩
  intro settings f scope hf hscope
  have hnumeric := Formula.isNumeric_of_tree hf hscope
  exact ⟨hnumeric, fun hlacks => not_isNumeric_of_lacksSymbol hlacks hnumeric⟩

theorem variableNames_sum :
    let t : Json := .array [.string "Add", .string "b",
      .array [.string "Multiply", .string "a", .string "Pi"]]
    ∃ e f, toExpr t = .ok e ∧ Formula.ofTree .standard t = .ok f ∧ variableNames t = ["a", "b"] ∧
      Ascending ["a", "b"] ∧ (∃ s, .symbol s (identifierOf "a") ∈ e.nodes) ∧
      IsNumeric (f.evaluate (.ofList [("a", 1.0), ("b", 2.0)])) := by
  intro t
  have he : toExpr t = .ok _ := rfl
  have hf : Formula.ofTree .standard t = .ok _ := Formula.ofTree_eq_ok_iff.2
    ⟨_, he, by decide, Expr.resolutionFault?_eq_none_iff.1 rfl, rfl⟩
  have hnames : variableNames t = ["a", "b"] := by decide
  obtain ⟨hascending, hexact, hnumeric⟩ := variableNames_exact he
  rw [hnames] at hascending hexact hnumeric
  refine ⟨_, _, he, hf, hnames, hascending, (hexact "a").1 (by decide), ?_⟩
  exact (hnumeric .standard _ _ hf (List.forall_mem_cons.2 ⟨rfl, List.forall_mem_singleton.2 rfl⟩)).1

end Tree
end Formulary
