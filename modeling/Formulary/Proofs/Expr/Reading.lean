import Formulary.Proofs.Expr.Atoms
import Formulary.Proofs.Expr.Grammar
/-!
# The parser reads the phrases of the grammar

A stack waits for a phrase of the category that its frame on top demands (`demand`). On any stack that
waits for a phrase of a category, or for a looser one, the machine of the parser reads a phrase of the
category, and what it holds then closes as if the phrase were one operand (`Derives.reads`).
-/

namespace Formulary

/-! ## What a stack waits for -/

/-- The category of which a phrase must be to complete the frame on top of a stack. -/
def demand : List Frame → Category
  | .left _ op :: _ => op.rightCategory
  | .before .. :: _ => .signed
  | _ => .conditional

namespace BinaryOp

lemma rank_category (op : BinaryOp) : op.category.rank = op.level := by
  cases op <;> rfl

lemma rank_leftCategory (op : BinaryOp) : op.leftCategory.rank = op.closes := by
  cases op <;> rfl

lemma rank_rightCategory (op : BinaryOp) :
    op.rightCategory.rank = min (op.level + 1) Category.signed.rank := by
  cases op <;> rfl

lemma level_pos (op : BinaryOp) : 0 < op.level := by
  cases op <;> decide

section
variable {op : BinaryOp}

lemma closes_of_ne_pow (h : op ≠ .pow) : op.closes = op.level := by
  simp [closes, h]

lemma level_lt_of_ne_pow (h : op ≠ .pow) : op.level < prefixLevel := by
  cases op <;> first | decide | exact absurd rfl h

end

end BinaryOp

lemma rank_demand_le_signed (stack : List Frame) : (demand stack).rank ≤ Category.signed.rank := by
  unfold demand
  split
  · rw [BinaryOp.rank_rightCategory]
    exact Nat.min_le_right _ _
  · exact Nat.le_refl _
  · decide

/-! ## Closing -/

/-- The level up to which the frames that hold a phrase of a category are closed as one. An exponent may
be open at the right end of a power, so that the two categories around it have the level of prefixes. -/
def Category.closing : Category → Nat
  | .signed | .power => prefixLevel
  | .suffixed | .atom => Category.suffixed.rank
  | c => c.rank

section
variable {level : Nat} {stack : List Frame} {p : Phrase}

@[simp] lemma close_nil : close level [] p = ([], p) := by
  rw [close]
  all_goals simp

/-- No frame binds as tightly as a factorial. -/
lemma close_suffixed : close Category.suffixed.rank stack p = (stack, p) := by
  have hlevel : ∀ op : BinaryOp, ¬ Category.suffixed.rank ≤ op.level := by
    intro op
    cases op <;> decide
  unfold close
  split
  · rw [if_neg (hlevel _)]
  · rfl
  · rfl
  · rfl

lemma close_left {l : Phrase} {op : BinaryOp} (h : level ≤ op.level) :
    close level (.left l op :: stack) p = close level stack (l.binary op p) := by
  rw [close, if_pos h]

lemma close_before {start : Nat} {op : UnaryOp} (h : level ≤ prefixLevel) :
    close level (.before start op :: stack) p = close level stack (p.before start op) := by
  rw [close, if_pos h]

lemma close_no {c : Phrase} {y : Expr} :
    close 0 (.no c y :: stack) p = close 0 stack (c.conditional y p) := by
  rw [close, if_pos rfl]

/-- A frame that demands a phrase of a looser category than an operator makes stays open before the
operator. -/
lemma close_of_demand {op : BinaryOp} (h : (demand stack).rank ≤ op.category.rank) :
    close op.closes stack p = (stack, p) := by
  rw [BinaryOp.rank_category] at h
  by_cases hpow : op = .pow
  · subst hpow
    exact close_suffixed
  · have hlevel : op.level < Category.signed.rank := BinaryOp.level_lt_of_ne_pow hpow
    have hpos := op.level_pos
    rw [BinaryOp.closes_of_ne_pow hpow]
    unfold close
    split
    · rename_i l op' stack'
      rw [demand, BinaryOp.rank_rightCategory] at h
      rw [if_neg (by omega)]
    · rw [demand] at h
      omega
    · rw [if_neg (by omega)]
    · rfl

end

/-! ## Phrases of tokens -/

/-- An expression as a phrase that was read from tokens. -/
def phraseOf (ls : List Lexeme) (e : Expr) : Phrase :=
  ⟨e, extentOf ls⟩

section
variable {ls rs ys : List Lexeme} {l r y e : Expr} {sign colon opening closing : Lexeme}

lemma binary_phraseOf {op : BinaryOp} (hl : ls ≠ []) (hr : rs ≠ []) :
    (phraseOf ls l).binary op (phraseOf rs r) =
      phraseOf (ls ++ sign :: rs) (.binary (extentOf (ls ++ sign :: rs)) op l r) := by
  have hextent : extentOf (ls ++ sign :: rs) = (extentOf ls).through (extentOf rs) :=
    extentOf_eq_through ⟨_, rfl⟩ ⟨ls ++ [sign], by simp⟩ hl hr
  rw [phraseOf, phraseOf, phraseOf, hextent]
  rfl

lemma before_phraseOf {op : UnaryOp} (hr : rs ≠ []) :
    (phraseOf rs r).before sign.span.start op =
      phraseOf (sign :: rs) (.unary (extentOf (sign :: rs)) op r) := by
  have hextent : extentOf (sign :: rs) = (extentOf [sign]).through (extentOf rs) :=
    extentOf_eq_through ⟨rs, rfl⟩ ⟨[sign], rfl⟩ (by simp) hr
  rw [phraseOf, phraseOf, hextent]
  rfl

lemma factorial_phraseOf (hl : ls ≠ []) :
    (phraseOf ls l).factorial sign.span =
      phraseOf (ls ++ [sign]) (.unary (extentOf (ls ++ [sign])) .factorial l) := by
  have hextent : extentOf (ls ++ [sign]) = (extentOf ls).through (extentOf [sign]) :=
    extentOf_eq_through ⟨[sign], rfl⟩ ⟨ls, rfl⟩ hl (by simp)
  rw [phraseOf, phraseOf, hextent]
  rfl

lemma conditional_phraseOf (hl : ls ≠ []) (hr : rs ≠ []) :
    (phraseOf ls l).conditional y (phraseOf rs r) =
      phraseOf (ls ++ sign :: (ys ++ colon :: rs))
        (.conditional (extentOf (ls ++ sign :: (ys ++ colon :: rs))) l y r) := by
  have hextent : extentOf (ls ++ sign :: (ys ++ colon :: rs)) =
      (extentOf ls).through (extentOf rs) :=
    extentOf_eq_through ⟨_, rfl⟩ ⟨ls ++ sign :: (ys ++ [colon]), by simp⟩ hl hr
  rw [phraseOf, phraseOf, phraseOf, hextent]
  rfl

lemma group_phraseOf :
    ⟨e, opening.span.start, closing.span.stop⟩ = phraseOf (opening :: (ls ++ [closing])) e := by
  have hextent : extentOf (opening :: (ls ++ [closing])) =
      (extentOf [opening]).through (extentOf [closing]) :=
    extentOf_eq_through ⟨_, rfl⟩ ⟨opening :: ls, rfl⟩ (by simp) (by simp)
  rw [phraseOf, hextent]
  rfl

lemma call_phraseOf {f : String} {s : Span} {args : List Expr} :
    Phrase.call f s args closing.span = phraseOf (⟨.name f, s⟩ :: opening :: (ls ++ [closing]))
      (.call (extentOf (⟨.name f, s⟩ :: opening :: (ls ++ [closing]))) f s args.reverse) := by
  have hextent : extentOf (⟨.name f, s⟩ :: opening :: (ls ++ [closing])) =
      (extentOf [⟨.name f, s⟩]).through (extentOf [closing]) :=
    extentOf_eq_through ⟨_, rfl⟩ ⟨⟨.name f, s⟩ :: opening :: ls, rfl⟩ (by simp) (by simp)
  rw [phraseOf, hextent]
  rfl

end

/-! ## Steps -/

lemma Mark.prefix?_eq_some_iff {m : Mark} {op : UnaryOp} :
    m.prefix? = some op ↔ op ≠ .factorial ∧ op.mark = m := by
  cases m <;> cases op <;> decide

/-- Where the last of some tokens stops, or else the position given. -/
def stopAfter (position : Nat) : List Lexeme → Nat
  | [] => position
  | l :: ls => stopAfter l.span.stop ls

namespace ParserState

/-- The state after tokens, if each can come. -/
def steps (s : ParserState) (ls : List Lexeme) : Option ParserState :=
  ls.foldlM step s

section
variable {s t : ParserState} {l : Lexeme} {ls ms : List Lexeme}

lemma steps_cons (h : s.step l = some t) : s.steps (l :: ls) = t.steps ls := by
  rw [steps, List.foldlM_cons, h]
  rfl

lemma steps_append (h : s.steps ls = some t) : s.steps (ls ++ ms) = t.steps ms := by
  rw [steps] at h
  rw [steps, List.foldlM_append, h]
  rfl

lemma run_eq_ok_iff {position : Nat} {e : Expr} :
    s.run position ls = .ok e ↔ ∃ t, s.steps ls = some t ∧ t.result? = some e := by
  induction ls generalizing s position with
  | nil =>
    rw [run]
    rcases hresult : s.result? with _ | e'
    · simp [steps, hresult]
    · simp [steps, hresult]
  | cons l ls ih =>
    rw [run]
    rcases hstep : s.step l with _ | t
    · simp [steps, hstep]
    · rw [steps_cons hstep]
      exact ih

/-- A run fails at the first token that cannot come, or after the last one if something is open. -/
lemma run_eq_error {position : Nat} {fault : Fault} (h : s.run position ls = .error fault) :
    (∃ before l after t, ls = before ++ l :: after ∧ s.steps before = some t ∧ t.step l = none ∧
      fault = .unexpected l.token (t.expected (some l.token.terminal)) l.span) ∨
    ∃ t, s.steps ls = some t ∧ t.result? = none ∧
      fault = .unexpectedEnd (t.expected none) (.point (stopAfter position ls)) := by
  induction ls generalizing s position with
  | nil =>
    rw [run] at h
    split at h
    · exact absurd h (by simp)
    · rename_i hresult
      exact .inr ⟨s, rfl, hresult, (Except.error.inj h).symm⟩
  | cons l ls ih =>
    rw [run] at h
    split at h
    · rename_i t hstep
      rcases ih h with ⟨before, m, after, u, rfl, hu, hm, hfault⟩ | ⟨u, hu, hresult, hfault⟩
      · exact .inl ⟨l :: before, m, after, u, rfl, (steps_cons hstep).trans hu, hm, hfault⟩
      · exact .inr ⟨u, (steps_cons hstep).trans hu, hresult, hfault⟩
    · rename_i hstep
      exact .inl ⟨[], l, ls, s, rfl, rfl, hstep, (Except.error.inj h).symm⟩

/-- After an operand a name by itself is one too, unless it is called. -/
lemma step_mark {p : Phrase} {m : Mark} (hp : s.reached.phrase? = some p)
    (hl : l.token = .mark m) (hm : m ≠ .leftParen) :
    s.step l = stepOperand s.stack p l.span m := by
  obtain ⟨stack, reached⟩ := s
  obtain ⟨token, span⟩ := l
  obtain rfl : token = .mark m := hl
  cases reached with
  | gap => exact absurd hp (by simp [Reached.phrase?])
  | name f nameSpan =>
    obtain rfl := Option.some.inj hp
    cases m with
    | leftParen => exact absurd rfl hm
    | _ => rfl
  | operand q =>
    obtain rfl := Option.some.inj hp
    rfl

end

end ParserState

lemma stepOperand_binary {stack : List Frame} {p : Phrase} {span : Span} (op : BinaryOp) :
    ParserState.stepOperand stack p span op.mark =
      some ⟨.left (close op.closes stack p).2 op :: (close op.closes stack p).1, .gap⟩ := by
  cases op <;> rfl

/-! ## Phrases are read -/

/-- Tokens are read as a phrase: on a stack that waits for the category, or for a looser one, the machine
comes to hold what closes as the expression on that stack does. -/
def Reads (c : Category) (ls : List Lexeme) (e : Expr) : Prop :=
  ∀ stack, (demand stack).rank ≤ c.rank → ∃ s p, ParserState.steps ⟨stack, .gap⟩ ls = some s ∧
    s.reached.phrase? = some p ∧
    ∀ level ≤ c.closing, close level s.stack p = close level stack (phraseOf ls e)

/-- Tokens are read as arguments: before a closing parenthesis they complete any call. -/
def ReadsArguments (ls : List Lexeme) (es : List Expr) : Prop :=
  ∀ stack f nameSpan args closing, closing.token = .mark .rightParen →
    ParserState.steps ⟨.call f nameSpan args :: stack, .gap⟩ (ls ++ [closing]) =
      some ⟨stack, .operand (.call f nameSpan (es.reverse ++ args) closing.span)⟩

namespace Reads

open ParserState

variable {c d : Category} {ls rs : List Lexeme} {e : Expr}

/-- What is read as one operand at once is read as an atom. -/
lemma of_steps (h : ∀ stack, ∃ r, steps ⟨stack, .gap⟩ ls = some ⟨stack, r⟩ ∧
    r.phrase? = some (phraseOf ls e)) : Reads .atom ls e := by
  intro stack _
  obtain ⟨r, hr, hphrase⟩ := h stack
  exact ⟨_, _, hr, hphrase, fun level _ => rfl⟩

lemma tighter (hcd : c.tighter = some d) (h : Reads d ls e) : Reads c ls e := by
  have hrank : c.rank ≤ d.rank := Category.rank_le_of_tighter hcd
  have hclosing : c.closing ≤ d.closing := by
    cases c <;> cases d <;> first | decide | exact absurd hcd (by simp [Category.tighter])
  intro stack hstack
  obtain ⟨s, p, hs, hp, hclose⟩ := h stack (Nat.le_trans hstack hrank)
  exact ⟨s, p, hs, hp, fun level hlevel => hclose level (Nat.le_trans hlevel hclosing)⟩

lemma binary {op : BinaryOp} {sign : Lexeme} {l r : Expr} (hl : Reads op.leftCategory ls l)
    (hsign : sign.token = .mark op.mark) (hr : Reads op.rightCategory rs r) (hls : ls ≠ [])
    (hrs : rs ≠ []) :
    Reads op.category (ls ++ sign :: rs) (.binary (extentOf (ls ++ sign :: rs)) op l r) := by
  -- the categories around an operator and the levels at which they are closed
  have hleft : op.category.rank ≤ op.leftCategory.rank := by cases op <;> decide
  have hcloses : op.closes ≤ op.leftCategory.closing := by cases op <;> decide
  have hright : op.category.closing ≤ op.rightCategory.closing := by cases op <;> decide
  have hlevel : op.category.closing ≤ op.level := by cases op <;> decide
  have hmark : op.mark ≠ .leftParen := by cases op <;> decide
  intro stack hstack
  obtain ⟨s, p, hs, hp, hclose⟩ := hl stack (Nat.le_trans hstack hleft)
  have hopen : close op.closes s.stack p = (stack, phraseOf ls l) := by
    rw [hclose _ hcloses, close_of_demand hstack]
  have hstep : s.step sign = some ⟨.left (phraseOf ls l) op :: stack, .gap⟩ := by
    rw [step_mark hp hsign hmark, stepOperand_binary, hopen]
  obtain ⟨t, q, ht, hq, hclose'⟩ := hr (.left (phraseOf ls l) op :: stack) (Nat.le_refl _)
  refine ⟨t, q, ?_, hq, fun level h => ?_⟩
  · rw [steps_append hs, steps_cons hstep, ht]
  · rw [hclose' level (Nat.le_trans h hright), close_left (Nat.le_trans h hlevel),
      binary_phraseOf hls hrs]

lemma unary {op : UnaryOp} {sign : Lexeme} (hop : op ≠ .factorial)
    (hsign : sign.token = .mark op.mark) (h : Reads .signed ls e) (hls : ls ≠ []) :
    Reads .signed (sign :: ls) (.unary (extentOf (sign :: ls)) op e) := by
  intro stack _
  have hstep : ParserState.step ⟨stack, .gap⟩ sign =
      some ⟨.before sign.span.start op :: stack, .gap⟩ := by
    obtain ⟨token, span⟩ := sign
    obtain rfl : token = .mark op.mark := hsign
    cases op with
    | factorial => exact absurd rfl hop
    | _ => rfl
  obtain ⟨t, q, ht, hq, hclose⟩ := h (.before sign.span.start op :: stack) (Nat.le_refl _)
  refine ⟨t, q, ?_, hq, fun level hlevel => ?_⟩
  · rw [steps_cons hstep, ht]
  · rw [hclose level hlevel, close_before hlevel, before_phraseOf hls]

lemma factorial {sign : Lexeme} (h : Reads .suffixed ls e) (hsign : sign.token = .mark .bang)
    (hls : ls ≠ []) :
    Reads .suffixed (ls ++ [sign]) (.unary (extentOf (ls ++ [sign])) .factorial e) := by
  intro stack hstack
  obtain ⟨s, p, hs, hp, hclose⟩ := h stack hstack
  -- at the level of factorials nothing closes, so the operand stands on the stack itself
  have heq := hclose Category.suffixed.rank (Nat.le_refl _)
  rw [close_suffixed, close_suffixed] at heq
  obtain ⟨hbelow, rfl⟩ := Prod.mk.inj heq
  have hstep : s.step sign = some ⟨stack, .operand ((phraseOf ls e).factorial sign.span)⟩ := by
    rw [step_mark hp hsign (by decide), hbelow]
    rfl
  refine ⟨_, _, (steps_append hs).trans (steps_cons hstep), rfl, fun level _ => ?_⟩
  rw [factorial_phraseOf hls]

lemma conditional {cs ys ns : List Lexeme} {question colon : Lexeme} {c y n : Expr}
    (hc : Reads .disjunction cs c) (hquestion : question.token = .mark .question)
    (hy : Reads .conditional ys y) (hcolon : colon.token = .mark .colon)
    (hn : Reads .conditional ns n) (hcs : cs ≠ []) (hns : ns ≠ []) :
    Reads .conditional (cs ++ question :: (ys ++ colon :: ns))
      (.conditional (extentOf (cs ++ question :: (ys ++ colon :: ns))) c y n) := by
  intro stack hstack
  obtain ⟨s, p, hs, hp, hclose⟩ := hc stack (Nat.le_trans hstack (by decide))
  have hopen : close 1 s.stack p = (stack, phraseOf cs c) := by
    rw [hclose 1 (by decide)]
    exact close_of_demand (Nat.le_trans hstack (by decide : 0 ≤ BinaryOp.or.category.rank))
  have hstep : s.step question = some ⟨.yes (phraseOf cs c) :: stack, .gap⟩ := by
    rw [step_mark hp hquestion (by decide), stepOperand, hopen]
  obtain ⟨t, q, ht, hq, hclose'⟩ := hy (.yes (phraseOf cs c) :: stack) (Nat.le_refl _)
  have hopen' : close 0 t.stack q = (.yes (phraseOf cs c) :: stack, phraseOf ys y) :=
    hclose' 0 (Nat.le_refl 0)
  have hstep' : t.step colon = some ⟨.no (phraseOf cs c) y :: stack, .gap⟩ := by
    rw [step_mark hq hcolon (by decide), stepOperand, hopen']
    rfl
  obtain ⟨u, r, hu, hr, hclose''⟩ := hn (.no (phraseOf cs c) y :: stack) (Nat.le_refl _)
  refine ⟨u, r, ?_, hr, fun level hlevel => ?_⟩
  · rw [steps_append hs, steps_cons hstep, steps_append ht, steps_cons hstep', hu]
  · obtain rfl : level = 0 := Nat.le_zero.1 hlevel
    rw [hclose'' 0 (Nat.le_refl 0), close_no, conditional_phraseOf hcs hns]

lemma group {opening closing : Lexeme} (hopening : opening.token = .mark .leftParen)
    (h : Reads .conditional ls e) (hclosing : closing.token = .mark .rightParen) :
    Reads .atom (opening :: (ls ++ [closing])) e := by
  refine of_steps fun stack => ?_
  have hstep : ParserState.step ⟨stack, .gap⟩ opening =
      some ⟨.group opening.span.start :: stack, .gap⟩ := by
    obtain ⟨token, span⟩ := opening
    obtain rfl : token = .mark .leftParen := hopening
    rfl
  obtain ⟨s, p, hs, hp, hclose⟩ := h (.group opening.span.start :: stack) (Nat.le_refl _)
  have hopen : close 0 s.stack p = (.group opening.span.start :: stack, phraseOf ls e) :=
    hclose 0 (Nat.le_refl 0)
  have hstep' : s.step closing =
      some ⟨stack, .operand (phraseOf (opening :: (ls ++ [closing])) e)⟩ := by
    rw [step_mark hp hclosing (by decide), stepOperand, hopen, ← group_phraseOf]
    rfl
  refine ⟨.operand (phraseOf (opening :: (ls ++ [closing])) e), ?_, rfl⟩
  rw [steps_cons hstep, steps_append hs, steps_cons hstep']
  rfl

lemma call {f : String} {s : Span} {opening closing : Lexeme} {args : List Expr}
    (hopening : opening.token = .mark .leftParen) (h : ReadsArguments ls args)
    (hclosing : closing.token = .mark .rightParen) :
    Reads .atom (⟨.name f, s⟩ :: opening :: (ls ++ [closing]))
      (.call (extentOf (⟨.name f, s⟩ :: opening :: (ls ++ [closing]))) f s args) := by
  refine of_steps fun stack => ?_
  have hstep : ParserState.step ⟨stack, .name f s⟩ opening = some ⟨.call f s [] :: stack, .gap⟩ := by
    rw [step, hopening]
  have hname : ParserState.step ⟨stack, .gap⟩ ⟨.name f, s⟩ = some ⟨stack, .name f s⟩ := rfl
  have hargs := h stack f s [] closing hclosing
  rw [List.append_nil] at hargs
  refine ⟨.operand (.call f s args.reverse closing.span), ?_, ?_⟩
  · rw [steps_cons hname, steps_cons hstep, hargs]
  · rw [Reached.phrase?, call_phraseOf, List.reverse_reverse]

end Reads

namespace ReadsArguments

open ParserState

variable {ls rest : List Lexeme} {e : Expr} {es : List Expr}

lemma nil : ReadsArguments [] [] := by
  intro stack f nameSpan args closing hclosing
  have hstep : ParserState.step ⟨.call f nameSpan args :: stack, .gap⟩ closing =
      some ⟨stack, .operand (.call f nameSpan args closing.span)⟩ := by
    rw [step, stepGap, hclosing]
  exact steps_cons hstep

/-- A call waits for an argument as a stack waits for an expression. -/
lemma close_of_reads (h : Reads .conditional ls e) (stack : List Frame) (f : String)
    (nameSpan : Span) (args : List Expr) :
    ∃ s p, steps ⟨.call f nameSpan args :: stack, .gap⟩ ls = some s ∧
      s.reached.phrase? = some p ∧
      close 0 s.stack p = (.call f nameSpan args :: stack, phraseOf ls e) := by
  obtain ⟨s, p, hs, hp, hclose⟩ := h (.call f nameSpan args :: stack) (Nat.le_refl _)
  exact ⟨s, p, hs, hp, hclose 0 (Nat.le_refl 0)⟩

lemma last (h : Reads .conditional ls e) : ReadsArguments ls [e] := by
  intro stack f nameSpan args closing hclosing
  obtain ⟨s, p, hs, hp, hclose⟩ := close_of_reads h stack f nameSpan args
  have hstep : s.step closing =
      some ⟨stack, .operand (.call f nameSpan (e :: args) closing.span)⟩ := by
    rw [step_mark hp hclosing (by decide), stepOperand, hclose]
    rfl
  exact (steps_append hs).trans (steps_cons hstep)

lemma cons {comma : Lexeme} (h : Reads .conditional ls e) (hcomma : comma.token = .mark .comma)
    (hrest : ReadsArguments rest es) : ReadsArguments (ls ++ comma :: rest) (e :: es) := by
  intro stack f nameSpan args closing hclosing
  obtain ⟨s, p, hs, hp, hclose⟩ := close_of_reads h stack f nameSpan args
  have hstep : s.step comma = some ⟨.call f nameSpan (e :: args) :: stack, .gap⟩ := by
    rw [step_mark hp hcomma (by decide), stepOperand, hclose]
    rfl
  have hlast := hrest stack f nameSpan (e :: args) closing hclosing
  rw [List.append_assoc, steps_append hs, List.cons_append, steps_cons hstep, hlast]
  simp

end ReadsArguments

mutual

/-- The machine reads the phrases of the grammar. -/
theorem Derives.reads : {c : Category} → {ls : List Lexeme} → {e : Expr} → Derives c ls e →
    Reads c ls e
  | _, _, _, .conditional hc hquestion hy hcolon hn =>
    .conditional hc.reads hquestion hy.reads hcolon hn.reads hc.ne_nil hn.ne_nil
  | _, _, _, .binary hl hsign hr => .binary hl.reads hsign hr.reads hl.ne_nil hr.ne_nil
  | _, _, _, .unary hop hsign h => .unary hop hsign h.reads h.ne_nil
  | _, _, _, .factorial h hsign => .factorial h.reads hsign h.ne_nil
  | _, _, _, .number _ _ => .of_steps fun _ => ⟨_, rfl, rfl⟩
  | _, _, _, .text _ _ => .of_steps fun _ => ⟨_, rfl, rfl⟩
  | _, _, _, .symbol _ _ => .of_steps fun _ => ⟨_, rfl, rfl⟩
  | _, _, _, .call hopening h hclosing => .call hopening h.reads hclosing
  | _, _, _, .group hopening h hclosing => .group hopening h.reads hclosing
  | _, _, _, .tighter hcd h => .tighter hcd h.reads

/-- The machine reads the arguments of the grammar. -/
theorem DerivesArguments.reads : {ls : List Lexeme} → {es : List Expr} → DerivesArguments ls es →
    ReadsArguments ls es
  | _, _, .nil => .nil
  | _, _, .last h => .last h.reads
  | _, _, .cons h hcomma hrest => .cons h.reads hcomma hrest.reads

end

end Formulary
