import Formulary.Proofs.Expr.Parsing
import Formulary.Proofs.Expr.Writing
/-!
# Printing with no more parentheses than are needed

An expression is printed as tokens with parentheses around an operand only where the operand is of a
looser category than its place asks for (`Category.fit`). Before and after an operator the places are
those of the grammar: an operator that groups to the left takes its own category before it and the next
tighter one after it, the power a postfix before it and a prefix after it. A prefix or a postfix takes
its own category, a condition a disjunction. The branches of a conditional and the arguments of a call
can be anything.

What is printed is a phrase of the category of the expression (`Expr.writesAs_tokens`), so the parser
reads back the expression that was printed (`parse_tokens`). No fewer tokens write the expression
(`Writes.length_tokens_le`).
-/

namespace Formulary

/-! ## Printing -/

/-- Tokens of a category in a place that asks for a category: in parentheses if theirs is looser. -/
def Category.fit (asked own : Category) (ts : List Token) : List Token :=
  if own.rank < asked.rank then .mark .leftParen :: (ts ++ [.mark .rightParen]) else ts

/-- The category of a prefix or a postfix with its operand, and of the operand. -/
def UnaryOp.category : UnaryOp → Category
  | .neg | .plus | .not => .signed
  | .factorial => .suffixed

/-- An operator on the side of its operand where it is written. -/
def UnaryOp.around (op : UnaryOp) (operand : List Token) : List Token :=
  match op with
  | .factorial => operand ++ [.mark op.mark]
  | _ => .mark op.mark :: operand

namespace Expr

/-- The tightest category that an expression is of with no parentheses around it. -/
def category : Expr → Category
  | number .. | text .. | symbol .. | call .. => .atom
  | binary _ op _ _ => op.category
  | unary _ op _ => op.category
  | conditional .. => .conditional

mutual

/-- The tokens that an expression is printed as. -/
def tokens : Expr → List Token
  | number _ x => [.number x]
  | text _ s => [.text s]
  | symbol _ name => [.name name]
  | binary _ op l r =>
    op.leftCategory.fit l.category l.tokens ++
      .mark op.mark :: op.rightCategory.fit r.category r.tokens
  | unary _ op e => op.around (op.category.fit e.category e.tokens)
  | conditional _ c y n =>
    Category.disjunction.fit c.category c.tokens ++
      .mark .question :: (y.tokens ++ .mark .colon :: n.tokens)
  | call _ f _ args => .name f :: .mark .leftParen :: (argumentTokens args ++ [.mark .rightParen])

/-- The tokens of arguments with commas between them. -/
def argumentTokens : List Expr → List Token
  | [] => []
  | [e] => e.tokens
  | e :: es => e.tokens ++ .mark .comma :: argumentTokens es

end

end Expr

/-! ## What is printed is a phrase -/

namespace WritesAs

variable {c d : Category} {ts : List Token} {e : Expr}

lemma around {op : UnaryOp} (h : WritesAs op.category ts e) :
    WritesAs op.category (op.around ts) (.unary (.point 0) op e) := by
  cases op with
  | factorial => exact h.factorial
  | neg | plus | not => exact h.unary (by decide)

/-- Anything is a conditional. -/
lemma anywhere (h : WritesAs d ts e) : WritesAs .conditional ts e :=
  h.loosen (Nat.zero_le _)

/-- Tokens are of the category that a place asks for, once they fit there. -/
lemma fit (h : WritesAs d ts e) : WritesAs c (c.fit d ts) e := by
  unfold Category.fit
  split
  · -- in parentheses anything is an atom, which every place takes
    have hatom : c.rank ≤ Category.atom.rank := by cases c <;> decide
    exact h.anywhere.group.loosen hatom
  · rename_i hrank
    exact h.loosen (Nat.le_of_not_lt hrank)

end WritesAs

mutual

/-- The tokens of an expression are a phrase of its category that writes it. -/
theorem Expr.writesAs_tokens : (e : Expr) → WritesAs e.category e.tokens e.bare
  | .number _ x => .number x
  | .text _ s => .text s
  | .symbol _ name => .symbol name
  | .binary _ _ l r => .binary l.writesAs_tokens.fit r.writesAs_tokens.fit
  | .unary _ _ e => .around e.writesAs_tokens.fit
  | .conditional _ c y n =>
    .conditional c.writesAs_tokens.fit y.writesAs_tokens.anywhere n.writesAs_tokens.anywhere
  | .call _ _ _ args => .call (Expr.writesArguments_argumentTokens args)

theorem Expr.writesArguments_argumentTokens :
    (es : List Expr) → WritesArguments (Expr.argumentTokens es) (Expr.bareAll es)
  | [] => .nil
  | [e] => .last e.writesAs_tokens.anywhere
  | e :: e' :: es =>
    .cons e.writesAs_tokens.anywhere (Expr.writesArguments_argumentTokens (e' :: es))

end

/-- **Parsing undoes printing.** Wherever the tokens stand that an expression is printed as, the parser
accepts them and reads the same expression, but for its spans. -/
theorem parse_tokens (e : Expr) (ls : List Lexeme) (hls : ls.map Lexeme.token = e.tokens) :
    ∃ e', parse ls = .ok e' ∧ e'.bare = e.bare := by
  have hwrites : WritesAs .conditional e.tokens e.bare := e.writesAs_tokens.anywhere
  obtain ⟨e', he', hbare⟩ := hwrites ls hls
  exact ⟨e', parse_eq_ok_iff_writes.2 he', hbare⟩

/-- A power of which the base and the exponent are negated, `(-x)^-n!` when printed. -/
def negatedPower : Expr :=
  .binary (.point 0) .pow (.unary (.point 0) .neg (.symbol (.point 0) "x"))
    (.unary (.point 0) .neg (.unary (.point 0) .factorial (.symbol (.point 0) "n")))

/-- The base needs its parentheses, the exponent does not. -/
theorem parse_tokens_negatedPower :
    ∃ e', parse [⟨.mark .leftParen, ⟨0, 1⟩⟩, ⟨.mark .minus, ⟨1, 2⟩⟩, ⟨.name "x", ⟨2, 3⟩⟩,
      ⟨.mark .rightParen, ⟨3, 4⟩⟩, ⟨.mark .caret, ⟨4, 5⟩⟩, ⟨.mark .minus, ⟨5, 6⟩⟩,
      ⟨.name "n", ⟨6, 7⟩⟩, ⟨.mark .bang, ⟨7, 8⟩⟩] = .ok e' ∧ e'.bare = negatedPower.bare :=
  parse_tokens negatedPower _ rfl

/-! ## Nothing shorter is read as the expression -/

section
variable {c d own : Category} {ts : List Token}

namespace Category

lemma fit_of_le (h : c.rank ≤ own.rank) : c.fit own ts = ts := by
  rw [fit, if_neg (Nat.not_lt.2 h)]

@[simp] lemma fit_self : own.fit own ts = ts :=
  fit_of_le (Nat.le_refl _)

@[simp] lemma fit_conditional : conditional.fit own ts = ts :=
  fit_of_le (Nat.zero_le _)

lemma length_fit_le : (c.fit own ts).length ≤ ts.length + 2 := by
  unfold fit
  split
  · simp
  · exact Nat.le_add_right _ 2

lemma length_le_fit : ts.length ≤ (c.fit own ts).length := by
  unfold fit
  split
  · rw [List.length_cons, List.length_append]
    omega
  · exact Nat.le_refl _

/-- A tighter place asks for parentheses where a looser one does. -/
lemma length_fit_mono (h : c.rank ≤ d.rank) :
    (c.fit own ts).length ≤ (d.fit own ts).length := by
  by_cases hc : own.rank < c.rank
  · have hd : own.rank < d.rank := Nat.lt_of_lt_of_le hc h
    have hboth : c.fit own ts = d.fit own ts := by rw [fit, fit, if_pos hc, if_pos hd]
    exact Nat.le_of_eq (congrArg List.length hboth)
  · rw [fit_of_le (Nat.le_of_not_lt hc)]
    exact length_le_fit

end Category

@[simp] lemma UnaryOp.length_around (op : UnaryOp) : (op.around ts).length = ts.length + 1 := by
  cases op <;> simp [around]

lemma Expr.length_argumentTokens_le (e : Expr) (es : List Expr) :
    (argumentTokens (e :: es)).length ≤ e.tokens.length + 1 + (argumentTokens es).length := by
  cases es with
  | nil => simp [argumentTokens]
  | cons e' es =>
    rw [argumentTokens, List.length_append, List.length_cons]
    · omega
    · simp

end

mutual

/-- A phrase is no shorter than what is printed in a place that asks for its category. -/
theorem Derives.length_fit_tokens_le : {c : Category} → {ls : List Lexeme} → {e : Expr} →
    Derives c ls e → (c.fit e.category e.tokens).length ≤ ls.length
  | _, _, _, .conditional hc _ hy _ hn => by
    have hcond := hc.length_fit_tokens_le
    have hyes := hy.length_fit_tokens_le
    have hno := hn.length_fit_tokens_le
    rw [Category.fit_conditional] at hyes hno ⊢
    simp only [Expr.tokens, List.length_append, List.length_cons]
    omega
  | _, _, _, .binary hl _ hr => by
    have hleft := hl.length_fit_tokens_le
    have hright := hr.length_fit_tokens_le
    rw [Expr.category, Category.fit_self]
    simp only [Expr.tokens, List.length_append, List.length_cons]
    omega
  | _, _, _, @Derives.unary op _ _ _ hop _ h => by
    have hoperand := h.length_fit_tokens_le
    cases op with
    | factorial => exact absurd rfl hop
    | neg | plus | not =>
      rw [Expr.category, UnaryOp.category, Category.fit_self]
      simpa [Expr.tokens, UnaryOp.category] using hoperand
  | _, _, _, .factorial h _ => by
    have hoperand := h.length_fit_tokens_le
    rw [Expr.category, UnaryOp.category, Category.fit_self]
    simpa [Expr.tokens, UnaryOp.category] using hoperand
  | _, _, _, .number _ _ => Nat.le_refl _
  | _, _, _, .text _ _ => Nat.le_refl _
  | _, _, _, .symbol _ _ => Nat.le_refl _
  | _, _, _, .call _ h _ => by
    have hargs := h.length_argumentTokens_le
    rw [Expr.category, Category.fit_self]
    simpa [Expr.tokens] using hargs
  | _, _, _, .group _ h _ => by
    -- the parentheses that are there make up for those that may be printed
    have hinside := h.length_fit_tokens_le
    rw [Category.fit_conditional] at hinside
    refine Nat.le_trans Category.length_fit_le ?_
    simpa using hinside
  | _, _, _, @Derives.tighter c d _ _ hcd h => by
    have hrank : c.rank ≤ d.rank := Category.rank_le_of_tighter hcd
    exact Nat.le_trans (Category.length_fit_mono hrank) h.length_fit_tokens_le

/-- A comma after the last argument is the only thing that the arguments of a call may have too many. -/
theorem DerivesArguments.length_argumentTokens_le : {ls : List Lexeme} → {es : List Expr} →
    DerivesArguments ls es → (Expr.argumentTokens es).length ≤ ls.length
  | _, _, .nil => Nat.le_refl _
  | _, _, .last h => by
    have hlast := h.length_fit_tokens_le
    rwa [Category.fit_conditional] at hlast
  | _, _, @DerivesArguments.cons _ _ _ e es h _ hrest => by
    have hfirst := h.length_fit_tokens_le
    have hothers := hrest.length_argumentTokens_le
    have hsplit := Expr.length_argumentTokens_le e es
    rw [Category.fit_conditional] at hfirst
    simp only [List.length_append, List.length_cons]
    omega

end

/-- **No parentheses are printed in vain.** Tokens that write an expression are at least as many as those
that the expression is printed as. -/
theorem Writes.length_tokens_le {ls : List Lexeme} {e : Expr} (h : Writes ls e) :
    e.tokens.length ≤ ls.length := by
  have hlength := Derives.length_fit_tokens_le h
  rwa [Category.fit_conditional] at hlength

end Formulary
