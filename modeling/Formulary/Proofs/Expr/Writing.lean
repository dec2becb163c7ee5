import Formulary.Proofs.Expr.Grammar
import Formulary.Proofs.Expr.Spans
/-!
# Tokens that write an expression wherever they stand

What expression tokens write does not depend on where they stand, but for its spans. `WritesAs` says of
tokens without spans that they are a phrase of a category, and what expression without spans they write;
there is one lemma for each way to put operands together.
-/

namespace Formulary

/-- Tokens are a phrase of a category wherever they stand, and write an expression without spans. -/
def WritesAs (c : Category) (ts : List Token) (e : Expr) : Prop :=
  ∀ ls : List Lexeme, ls.map Lexeme.token = ts → ∃ e', Derives c ls e' ∧ e'.bare = e

/-- Tokens are arguments of a call wherever they stand, and write expressions without spans. -/
def WritesArguments (ts : List Token) (es : List Expr) : Prop :=
  ∀ ls : List Lexeme, ls.map Lexeme.token = ts →
    ∃ es', DerivesArguments ls es' ∧ es'.map Expr.bare = es

namespace WritesAs

variable {c d : Category} {ts us vs : List Token} {e l r y n : Expr}

lemma loosen (h : WritesAs d ts e) (hcd : c.rank ≤ d.rank) : WritesAs c ts e := by
  intro ls hls
  obtain ⟨e', he', hbare⟩ := h ls hls
  exact ⟨e', he'.loosen hcd, hbare⟩

lemma number (x : Float) : WritesAs .atom [.number x] (.number (.point 0) x) := by
  intro ls hls
  obtain ⟨⟨token, s⟩, rfl, rfl⟩ := List.map_eq_singleton_iff.1 hls
  exact ⟨_, .number s x, rfl⟩

lemma text (s : String) : WritesAs .atom [.text s] (.text (.point 0) s) := by
  intro ls hls
  obtain ⟨⟨token, span⟩, rfl, rfl⟩ := List.map_eq_singleton_iff.1 hls
  exact ⟨_, .text span s, rfl⟩

lemma symbol (name : String) : WritesAs .atom [.name name] (.symbol (.point 0) name) := by
  intro ls hls
  obtain ⟨⟨token, s⟩, rfl, rfl⟩ := List.map_eq_singleton_iff.1 hls
  exact ⟨_, .symbol s name, rfl⟩

lemma group (h : WritesAs .conditional ts e) :
    WritesAs .atom (.mark .leftParen :: (ts ++ [.mark .rightParen])) e := by
  intro ls hls
  obtain ⟨opening, rest, rfl, hopening, hrest⟩ := List.map_eq_cons_iff.1 hls
  obtain ⟨ms, last, rfl, hms, hlast⟩ := List.map_eq_append_iff.1 hrest
  obtain ⟨closing, rfl, hclosing⟩ := List.map_eq_singleton_iff.1 hlast
  obtain ⟨e', he', hbare⟩ := h ms hms
  exact ⟨e', .group hopening he' hclosing, hbare⟩

lemma binary {op : BinaryOp} (hl : WritesAs op.leftCategory ts l)
    (hr : WritesAs op.rightCategory us r) :
    WritesAs op.category (ts ++ .mark op.mark :: us) (.binary (.point 0) op l r) := by
  intro ls hls
  obtain ⟨ms, rest, rfl, hms, hrest⟩ := List.map_eq_append_iff.1 hls
  obtain ⟨sign, ns, rfl, hsign, hns⟩ := List.map_eq_cons_iff.1 hrest
  obtain ⟨l', hl', rfl⟩ := hl ms hms
  obtain ⟨r', hr', rfl⟩ := hr ns hns
  exact ⟨_, .binary hl' hsign hr', rfl⟩

lemma unary {op : UnaryOp} (hop : op ≠ .factorial) (h : WritesAs .signed ts e) :
    WritesAs .signed (.mark op.mark :: ts) (.unary (.point 0) op e) := by
  intro ls hls
  obtain ⟨sign, ms, rfl, hsign, hms⟩ := List.map_eq_cons_iff.1 hls
  obtain ⟨e', he', rfl⟩ := h ms hms
  exact ⟨_, .unary hop hsign he', rfl⟩

lemma factorial (h : WritesAs .suffixed ts e) :
    WritesAs .suffixed (ts ++ [.mark .bang]) (.unary (.point 0) .factorial e) := by
  intro ls hls
  obtain ⟨ms, last, rfl, hms, hlast⟩ := List.map_eq_append_iff.1 hls
  obtain ⟨sign, rfl, hsign⟩ := List.map_eq_singleton_iff.1 hlast
  obtain ⟨e', he', rfl⟩ := h ms hms
  exact ⟨_, .factorial he' hsign, rfl⟩

lemma conditional (hc : WritesAs .disjunction ts e) (hy : WritesAs .conditional us y)
    (hn : WritesAs .conditional vs n) :
    WritesAs .conditional (ts ++ .mark .question :: (us ++ .mark .colon :: vs))
      (.conditional (.point 0) e y n) := by
  intro ls hls
  obtain ⟨cs, rest, rfl, hcs, hrest⟩ := List.map_eq_append_iff.1 hls
  obtain ⟨question, rest, rfl, hquestion, hrest⟩ := List.map_eq_cons_iff.1 hrest
  obtain ⟨ys, rest, rfl, hys, hrest⟩ := List.map_eq_append_iff.1 hrest
  obtain ⟨colon, ns, rfl, hcolon, hns⟩ := List.map_eq_cons_iff.1 hrest
  obtain ⟨e', he', rfl⟩ := hc cs hcs
  obtain ⟨y', hy', rfl⟩ := hy ys hys
  obtain ⟨n', hn', rfl⟩ := hn ns hns
  exact ⟨_, .conditional he' hquestion hy' hcolon hn', rfl⟩

lemma call {f : String} {es : List Expr} (h : WritesArguments ts es) :
    WritesAs .atom (.name f :: .mark .leftParen :: (ts ++ [.mark .rightParen]))
      (.call (.point 0) f (.point 0) es) := by
  intro ls hls
  obtain ⟨⟨token, s⟩, rest, rfl, rfl, hrest⟩ := List.map_eq_cons_iff.1 hls
  obtain ⟨opening, rest, rfl, hopening, hrest⟩ := List.map_eq_cons_iff.1 hrest
  obtain ⟨ms, last, rfl, hms, hlast⟩ := List.map_eq_append_iff.1 hrest
  obtain ⟨closing, rfl, hclosing⟩ := List.map_eq_singleton_iff.1 hlast
  obtain ⟨es', hes', rfl⟩ := h ms hms
  refine ⟨_, .call hopening hes' hclosing, ?_⟩
  rw [Expr.bare, Expr.bareAll_eq_map]

end WritesAs

namespace WritesArguments

variable {ts us : List Token} {e : Expr} {es : List Expr}

lemma nil : WritesArguments [] [] := by
  intro ls hls
  obtain rfl := List.map_eq_nil_iff.1 hls
  exact ⟨[], .nil, rfl⟩

lemma last (h : WritesAs .conditional ts e) : WritesArguments ts [e] := by
  intro ls hls
  obtain ⟨e', he', rfl⟩ := h ls hls
  exact ⟨[e'], .last he', rfl⟩

lemma cons (h : WritesAs .conditional ts e) (hes : WritesArguments us es) :
    WritesArguments (ts ++ .mark .comma :: us) (e :: es) := by
  intro ls hls
  obtain ⟨ms, rest, rfl, hms, hrest⟩ := List.map_eq_append_iff.1 hls
  obtain ⟨comma, ns, rfl, hcomma, hns⟩ := List.map_eq_cons_iff.1 hrest
  obtain ⟨e', he', rfl⟩ := h ms hms
  obtain ⟨es', hes', rfl⟩ := hes ns hns
  exact ⟨e' :: es', .cons he' hcomma hes', rfl⟩

end WritesArguments

end Formulary
