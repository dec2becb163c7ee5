import Formulary.Proofs.Expr.Parsing
import Formulary.Proofs.Formula.Compilation
import Formulary.Proofs.Tree.Printing
/-!
# Trees and their sources

The two written forms of an expression agree: a tree that can be read and its source have formulas under
the same settings, with the same expression but for spans, and in every scope these come to the same
number or to the same fault but for its span (`formula_of_source_iff_of_tree`).
-/

namespace Formulary

open Result

/-- The source of a tree is read as the expression of the tree, but for spans. -/
lemma Tree.exists_parse_of_toExpr {literal : Json.Number → List Char} {t : Json} {e : Expr}
    (hliteral : ∀ n ∈ numbers t, Numeral.StandsFor (literal n) n.toFloat) (he : toExpr t = .ok e) :
    isBlankText (source literal t) = false ∧
      ∃ ls e', tokenize (Template.ofSource (source literal t)).text = .ok ls ∧
        parse ls = .ok e' ∧ e'.bare = e := by
  obtain ⟨⟨c, hc, hvisible⟩, ts, hspells, hwrites⟩ := prints_of_toExpr t hliteral he
  have hblank : isBlankText (source literal t) = false := by
    rw [isBlankText, source, String.toList_ofList, List.all_eq_false]
    exact ⟨c, hc, by simp [hvisible]⟩
  have hpieces := hspells.tokens [] ends_nil
  have htokens : tokensOf (Template.ofSource (source literal t)).text = some ts := by
    rw [source, tokensOf_text_of_plain hspells.plain]
    simpa [tokensOfPieces_nil] using hpieces
  obtain ⟨ls, hls, hmap⟩ := exists_tokenize_of_tokensOf htokens
  obtain ⟨e', he', hbare⟩ := hwrites ls hmap
  have hwritten : Writes ls e' := he'.loosen (by decide)
  exact ⟨hblank, ls, e', hls, parse_eq_ok_iff_writes.2 hwritten, hbare⟩

/-- But for spans, a formula comes to what its expression without spans comes to. -/
lemma Formula.evaluate_bare (f : Formula) (scope : Scope) :
    (f.evaluate scope).mapError Fault.bare = (f.expr.bare.evaluate scope).mapError Fault.bare := by
  rw [Expr.evaluate_bare, evaluate]
  cases f.expr.evaluate scope <;> simp

/-- **Trees and sources agree.** Let a tree have an expression, and let its numbers be written by numerals
that stand for them. Then under any settings its source has a formula if and only if the tree has one.
The expressions of the two are the same but for spans, and so is what they come to in every scope. -/
theorem formula_of_source_iff_of_tree {settings : Settings} {literal : Json.Number → List Char}
    {t : Json} {e : Expr} (he : Tree.toExpr t = .ok e)
    (hliteral : ∀ n ∈ Tree.numbers t, Numeral.StandsFor (literal n) n.toFloat) :
    ((∃ f, Formula.ofSource settings (Tree.source literal t) = .ok f) ↔
      ∃ g, Formula.ofTree settings t = .ok g) ∧
    ∀ f g, Formula.ofSource settings (Tree.source literal t) = .ok f →
      Formula.ofTree settings t = .ok g →
      f.expr.bare = g.expr.bare ∧
      ∀ scope, (f.evaluate scope).mapError Fault.bare = (g.evaluate scope).mapError Fault.bare := by
  obtain ⟨hblank, ls, e', hls, hparse, rfl⟩ := Tree.exists_parse_of_toExpr hliteral he
  constructor
  · simp only [Formula.ofSource_eq_ok_iff, Formula.ofTree_eq_ok_iff]
    constructor
    · rintro ⟨f, -, ls', e, hls', hparse', hdepth, hresolved, rfl⟩
      obtain rfl := Except.ok.inj (hls.symm.trans hls')
      obtain rfl := Except.ok.inj (hparse.symm.trans hparse')
      rw [← Expr.exceeds_bare] at hdepth
      exact ⟨_, _, he, hdepth, Expr.resolved_bare.2 hresolved, rfl⟩
    · rintro ⟨g, e, he', hdepth, hresolved, rfl⟩
      obtain rfl := Except.ok.inj (he.symm.trans he')
      rw [Expr.exceeds_bare] at hdepth
      exact ⟨_, hblank, ls, e', hls, hparse, hdepth, Expr.resolved_bare.1 hresolved, rfl⟩
  · intro f g hf hg
    obtain ⟨-, ls', e, hls', hparse', -, -, rfl⟩ := Formula.ofSource_eq_ok_iff.1 hf
    obtain ⟨e'', he'', -, -, rfl⟩ := Formula.ofTree_eq_ok_iff.1 hg
    obtain rfl := Except.ok.inj (hls.symm.trans hls')
    obtain rfl := Except.ok.inj (hparse.symm.trans hparse')
    obtain rfl := Except.ok.inj (he.symm.trans he'')
    have hbare : e'.bare.bare = e'.bare := Expr.bare_bare e'
    refine ⟨hbare.symm, fun scope => ?_⟩
    rw [Formula.evaluate_bare, Formula.evaluate_bare, hbare]

/-- The greater of a variable and two, as a tree and as a source. -/
theorem formulas_of_max :
    let t : Json := .array [.string "Max", .string "x", .number (.integer 2)]
    ∃ f g, Formula.ofSource .standard (Tree.source (fun _ => ['2']) t) = .ok f ∧
      Formula.ofTree .standard t = .ok g ∧ f.expr.bare = g.expr.bare ∧
      ∀ scope, (f.evaluate scope).mapError Fault.bare = (g.evaluate scope).mapError Fault.bare := by
  intro t
  have he : Tree.toExpr t = .ok _ := rfl
  have hliteral : ∀ n ∈ Tree.numbers t, Numeral.StandsFor ['2'] n.toFloat := by
    intro n hn
    obtain rfl : n = .integer 2 := List.mem_singleton.1 hn
    exact ⟨⟨['2'], none, none⟩, rfl, rfl⟩
  have htree : ∃ g, Formula.ofTree .standard t = .ok g :=
    ⟨_, Formula.ofTree_eq_ok_iff.2
      ⟨_, he, by decide, Expr.resolutionFault?_eq_none_iff.1 rfl, rfl⟩⟩
  obtain ⟨hiff, hagree⟩ := formula_of_source_iff_of_tree he hliteral
  obtain ⟨f, hf⟩ := hiff.2 htree
  obtain ⟨g, hg⟩ := htree
  exact ⟨f, g, hf, hg, hagree f g hf hg⟩

example : Tree.source (fun _ => ['2']) (.array [.string "Max", .string "x", .number (.integer 2)]) =
    "max(\x7b\x7bx\x7d\x7d, 2)" := by
  decide

end Formulary
