import Formulary.Proofs.Expr.Reading
/-!
# The parser and the grammar

The machine of the parser reads exactly the phrases of the grammar (`parse_eq_ok_iff_writes`). That it
reads them all is `Derives.reads`. That it reads no other tokens is an invariant of its steps
(`ParserState.HasRead`): the tokens read so far are those that the frames of the stack were made of
(`Explains`), and after them those of the operand that has just been reached, if one has. Closing frames
keeps this, and leaves a phrase of the category that belongs to the level (`Held.close`).
-/

namespace Formulary

/-! ## What has been read -/

/-- Tokens write arguments and end with a comma, if there are any: other arguments can follow. -/
def ArgumentsBefore (ls : List Lexeme) (es : List Expr) : Prop :=
  ∀ rest es', DerivesArguments rest es' → DerivesArguments (ls ++ rest) (es ++ es')

lemma ArgumentsBefore.concat {ls ms : List Lexeme} {args : List Expr} {e : Expr} {comma : Lexeme}
    (h : ArgumentsBefore ls args.reverse) (he : Derives .conditional ms e)
    (hcomma : comma.token = .mark .comma) :
    ArgumentsBefore (ls ++ (ms ++ [comma])) (e :: args).reverse := by
  intro rest es hrest
  have hargs := h _ _ (.cons he hcomma hrest)
  simpa using hargs

/-- The frames of a stack were made of tokens, and each is one that the frame below can wait for. -/
inductive Explains : List Frame → List Lexeme → Prop
  | nil : Explains [] []
  | left {stack : List Frame} {ls ms : List Lexeme} {l : Expr} {op : BinaryOp} {sign : Lexeme} :
    Explains stack ls → (demand stack).rank ≤ op.category.rank → Derives op.leftCategory ms l →
    sign.token = .mark op.mark →
    Explains (.left (phraseOf ms l) op :: stack) (ls ++ (ms ++ [sign]))
  | before {stack : List Frame} {ls : List Lexeme} {op : UnaryOp} {sign : Lexeme} :
    Explains stack ls → op ≠ .factorial → sign.token = .mark op.mark →
    Explains (.before sign.span.start op :: stack) (ls ++ [sign])
  | group {stack : List Frame} {ls : List Lexeme} {opening : Lexeme} :
    Explains stack ls → opening.token = .mark .leftParen →
    Explains (.group opening.span.start :: stack) (ls ++ [opening])
  | call {stack : List Frame} {ls ms : List Lexeme} {f : String} {s : Span} {opening : Lexeme}
      {args : List Expr} :
    Explains stack ls → opening.token = .mark .leftParen → ArgumentsBefore ms args.reverse →
    Explains (.call f s args :: stack) (ls ++ ⟨.name f, s⟩ :: opening :: ms)
  | yes {stack : List Frame} {ls cs : List Lexeme} {c : Expr} {question : Lexeme} :
    Explains stack ls → demand stack = .conditional → Derives .disjunction cs c →
    question.token = .mark .question →
    Explains (.yes (phraseOf cs c) :: stack) (ls ++ (cs ++ [question]))
  | no {stack : List Frame} {ls cs ys : List Lexeme} {c y : Expr} {question colon : Lexeme} :
    Explains stack ls → demand stack = .conditional → Derives .disjunction cs c →
    question.token = .mark .question → Derives .conditional ys y →
    colon.token = .mark .colon →
    Explains (.no (phraseOf cs c) y :: stack) (ls ++ (cs ++ question :: (ys ++ [colon])))

/-- Tokens are those of a stack and after them those of a phrase, which is of a category as tight as the
stack demands and as the level does. -/
def Held (level : Nat) (stack : List Frame) (p : Phrase) (ls : List Lexeme) : Prop :=
  ∃ before ms c e, Explains stack before ∧ Derives c ms e ∧ p = phraseOf ms e ∧ before ++ ms = ls ∧
    (demand stack).rank ≤ c.rank ∧ level ≤ c.rank

section
variable {level : Nat} {stack : List Frame} {p : Phrase} {c : Category} {ls ms : List Lexeme}

lemma Held.of_suffixed {e : Expr} (h : Explains stack ls) (he : Derives .suffixed ms e) :
    Held Category.suffixed.rank stack (phraseOf ms e) (ls ++ ms) := by
  have hdemand : (demand stack).rank ≤ Category.suffixed.rank :=
    Nat.le_trans (rank_demand_le_signed stack) (by decide)
  exact ⟨ls, ms, .suffixed, e, h, he, rfl, rfl, hdemand, Nat.le_refl _⟩

lemma Held.mono {level' : Nat} (h : Held level stack p ls) (hle : level' ≤ level) :
    Held level' stack p ls := by
  obtain ⟨before, ms, c, e, hstack, he, hp, hls, hdemand, hlevel⟩ := h
  exact ⟨before, ms, c, e, hstack, he, hp, hls, hdemand, Nat.le_trans hle hlevel⟩

lemma Held.exists_derives (h : Held level stack p ls) (hc : c.rank ≤ level) :
    ∃ before ms e, Explains stack before ∧ Derives c ms e ∧ p = phraseOf ms e ∧
      before ++ ms = ls := by
  obtain ⟨before, ms, d, e, hstack, he, hp, hls, -, hlevel⟩ := h
  exact ⟨before, ms, e, hstack, he.loosen (Nat.le_trans hc hlevel), hp, hls⟩

/-- Closing frames makes phrases of them. -/
theorem Held.close (h : Held level stack p ls) :
    Held level (close level stack p).1 (close level stack p).2 ls := by
  fun_induction Formulary.close level stack p with
  | case1 l op stack p hlevel ih =>
    obtain ⟨before, ms, c, e, hstack, he, rfl, rfl, hdemand, -⟩ := h
    cases hstack with
    | @left _ ls ms' l _ sign hstack hop hl hsign =>
      have hr := he.loosen hdemand
      rw [← BinaryOp.rank_category] at hlevel
      refine ih ⟨ls, ms' ++ sign :: ms, op.category, _, hstack, hl.binary hsign hr, ?_, by simp, hop,
        hlevel⟩
      exact binary_phraseOf hl.ne_nil hr.ne_nil
  | case2 => exact h
  | case3 start op stack p hlevel ih =>
    obtain ⟨before, ms, c, e, hstack, he, rfl, rfl, hdemand, -⟩ := h
    cases hstack with
    | @before _ ls _ sign hstack hop hsign =>
      have hr := he.loosen hdemand
      refine ih ⟨ls, sign :: ms, .signed, _, hstack, .unary hop hsign hr, ?_, by simp,
        rank_demand_le_signed stack, hlevel⟩
      exact before_phraseOf hr.ne_nil
  | case4 => exact h
  | case5 c y stack p hlevel ih =>
    obtain ⟨before, ms, d, e, hstack, he, rfl, rfl, hdemand, -⟩ := h
    cases hstack with
    | @no _ ls cs ys c _ question colon hstack hwaits hc hquestion hy hcolon =>
      have hn := he.loosen hdemand
      refine ih ⟨ls, _, .conditional, _, hstack, .conditional hc hquestion hy hcolon hn, ?_, by simp,
        ?_, Nat.le_of_eq hlevel⟩
      · exact conditional_phraseOf hc.ne_nil hn.ne_nil
      · exact Nat.le_of_eq (congrArg Category.rank hwaits)
  | case6 => exact h
  | case7 => exact h

/-- What stays open at a level waits for nothing tighter than the level. -/
lemma rank_demand_close (h : level ≤ prefixLevel) : (demand (close level stack p).1).rank ≤ level := by
  fun_induction Formulary.close level stack p with
  | case1 l op stack p hlevel ih => exact ih
  | case2 l op stack p hlevel =>
    rw [demand, BinaryOp.rank_rightCategory]
    omega
  | case3 start op stack p hlevel ih => exact ih
  | case4 start op stack p hlevel => exact absurd h hlevel
  | case5 c y stack p hlevel ih => exact ih
  | case6 c y stack p hlevel => exact Nat.zero_le level
  | case7 stack p hleft hbefore hno =>
    cases stack with
    | nil => exact Nat.zero_le level
    | cons frame stack =>
      cases frame with
      | left l op => exact (hleft l op stack rfl).elim
      | before start op => exact (hbefore start op stack rfl).elim
      | _ => exact Nat.zero_le level

/-- What stays open before an operator can wait for what the operator makes. -/
lemma rank_demand_close_closes (op : BinaryOp) :
    (demand (close op.closes stack p).1).rank ≤ op.category.rank := by
  by_cases hpow : op = .pow
  · subst hpow
    exact Nat.le_trans (rank_demand_le_signed _) (by decide)
  · rw [BinaryOp.rank_category, BinaryOp.closes_of_ne_pow hpow]
    exact rank_demand_close (Nat.le_of_lt (BinaryOp.level_lt_of_ne_pow hpow))

/-- What stays open before a question mark can wait for a conditional: nothing waits for a
disjunction. -/
lemma demand_close_one : demand (close 1 stack p).1 = .conditional := by
  have h : (demand (close 1 stack p).1).rank ≤ 1 := rank_demand_close (by decide)
  generalize (close 1 stack p).1 = rest at h
  unfold demand at h ⊢
  split at h
  · rename_i op _
    cases op <;> exact absurd h (by decide)
  · exact absurd h (by decide)
  · rfl

end

namespace ParserState

/-- The tokens read so far are those of the stack and those of the operand that has just been reached. -/
inductive HasRead : ParserState → List Lexeme → Prop
  | gap {stack : List Frame} {ls : List Lexeme} : Explains stack ls → HasRead ⟨stack, .gap⟩ ls
  | name {stack : List Frame} {ls : List Lexeme} {f : String} {s : Span} :
    Explains stack ls → HasRead ⟨stack, .name f s⟩ (ls ++ [⟨.name f, s⟩])
  | operand {stack : List Frame} {ls ms : List Lexeme} {e : Expr} :
    Explains stack ls → Derives .suffixed ms e →
    HasRead ⟨stack, .operand (phraseOf ms e)⟩ (ls ++ ms)

namespace HasRead

variable {s t : ParserState} {stack : List Frame} {p : Phrase} {ls ms : List Lexeme} {sign : Lexeme}
  {e : Expr}

lemma of_atom (h : Explains stack ls) (he : Derives .atom ms e) :
    HasRead ⟨stack, .operand (phraseOf ms e)⟩ (ls ++ ms) :=
  .operand h (he.loosen (by decide))

/-- An operand that has just been reached is held at the level of factorials. -/
lemma held (h : HasRead s ls) (hp : s.reached.phrase? = some p) :
    Held Category.suffixed.rank s.stack p ls := by
  cases h with
  | gap _ => exact absurd hp (by simp [Reached.phrase?])
  | @name _ ls f span hstack =>
    obtain rfl := Option.some.inj hp
    have hsymbol : Derives .suffixed [⟨.name f, span⟩] (.symbol span f) :=
      (Derives.symbol span f).loosen (by decide)
    exact .of_suffixed hstack hsymbol
  | operand hstack he =>
    obtain rfl := Option.some.inj hp
    exact .of_suffixed hstack he

/-- A closing parenthesis completes a call. -/
lemma of_call {f : String} {nameSpan : Span} {args es : List Expr} {closing : Lexeme}
    (h : Explains (.call f nameSpan args :: stack) ls) (hes : DerivesArguments ms es)
    (hclosing : closing.token = .mark .rightParen) :
    HasRead ⟨stack, .operand (.call f nameSpan (es.reverse ++ args) closing.span)⟩
      (ls ++ ms ++ [closing]) := by
  cases h with
  | @call _ before ls _ _ opening _ hstack hopening hargs =>
    have hassoc : before ++ ⟨.name f, nameSpan⟩ :: opening :: ls ++ ms ++ [closing] =
        before ++ (⟨.name f, nameSpan⟩ :: opening :: (ls ++ ms ++ [closing])) := by simp
    rw [hassoc, call_phraseOf, List.reverse_append, List.reverse_reverse]
    exact of_atom hstack (.call hopening (hargs ms es hes) hclosing)

/-! ### Where an operand must come -/

lemma stepGap (h : Explains stack ls) (ht : ParserState.stepGap stack sign = some t) :
    HasRead t (ls ++ [sign]) := by
  obtain ⟨token, span⟩ := sign
  cases token with
  | number x =>
    obtain rfl := Option.some.inj ht
    exact of_atom h (.number span x)
  | text x =>
    obtain rfl := Option.some.inj ht
    exact of_atom h (.text span x)
  | name f =>
    obtain rfl := Option.some.inj ht
    exact .name h
  | mark m =>
    cases hm : m.prefix? with
    | some op =>
      obtain ⟨hop, hmark⟩ := Mark.prefix?_eq_some_iff.1 hm
      have hstep : ParserState.stepGap stack ⟨.mark m, span⟩ =
          some ⟨.before span.start op :: stack, .gap⟩ := by
        cases m <;> cases hm <;> rfl
      obtain rfl := Option.some.inj (hstep.symm.trans ht)
      have hsign : (⟨.mark m, span⟩ : Lexeme).token = .mark op.mark := by rw [hmark]
      exact .gap (.before h hop hsign)
    | none =>
      cases m with
      | leftParen =>
        obtain rfl := Option.some.inj ht
        exact .gap (.group h rfl)
      | rightParen =>
        cases stack with
        | nil => cases ht
        | cons frame stack =>
          cases frame with
          | call f s args =>
            obtain rfl := Option.some.inj ht
            have hclosing : (⟨.mark .rightParen, span⟩ : Lexeme).token = .mark .rightParen := rfl
            simpa using of_call h .nil hclosing
          | _ => cases ht
      | _ => cases hm <;> cases ht

/-! ### After an operand -/

/-- Before an operator the frames that bind as tightly are closed. -/
lemma stepBinary {op : BinaryOp} (h : Held Category.suffixed.rank stack p ls)
    (hsign : sign.token = .mark op.mark) :
    HasRead ⟨.left (close op.closes stack p).2 op :: (close op.closes stack p).1, .gap⟩
      (ls ++ [sign]) := by
  have hcloses : op.closes ≤ Category.suffixed.rank := by cases op <;> decide
  have hdemand : (demand (close op.closes stack p).1).rank ≤ op.category.rank :=
    rank_demand_close_closes op
  obtain ⟨before, ms, l, hstack, hl, hp, rfl⟩ :=
    (h.mono hcloses).close.exists_derives (Nat.le_of_eq op.rank_leftCategory)
  rw [hp, List.append_assoc]
  exact .gap (.left hstack hdemand hl hsign)

/-- Before a mark that closes something all frames up to the one that it belongs to are closed. -/
lemma exists_open (h : Held Category.suffixed.rank stack p ls) {rest : List Frame} {q : Phrase}
    (hclose : close 0 stack p = (rest, q)) :
    ∃ before ms e, Explains rest before ∧ Derives .conditional ms e ∧ q = phraseOf ms e ∧
      before ++ ms = ls := by
  have hheld := (h.mono (Nat.zero_le _)).close
  rw [hclose] at hheld
  exact hheld.exists_derives (Nat.le_refl _)

lemma stepBang (h : Held Category.suffixed.rank stack p ls) (hsign : sign.token = .mark .bang)
    (ht : ParserState.stepOperand stack p sign.span .bang = some t) : HasRead t (ls ++ [sign]) := by
  obtain rfl := Option.some.inj ht
  obtain ⟨before, ms, e, hstack, he, rfl, rfl⟩ := h.exists_derives (Nat.le_refl _)
  rw [factorial_phraseOf he.ne_nil, List.append_assoc]
  exact .operand hstack (.factorial he hsign)

lemma stepQuestion (h : Held Category.suffixed.rank stack p ls)
    (hsign : sign.token = .mark .question)
    (ht : ParserState.stepOperand stack p sign.span .question = some t) :
    HasRead t (ls ++ [sign]) := by
  obtain rfl := Option.some.inj ht
  have hdemand : demand (close 1 stack p).1 = .conditional := demand_close_one
  obtain ⟨before, ms, c, hstack, hc, hp, rfl⟩ :=
    (h.mono (by decide : 1 ≤ _)).close.exists_derives (c := .disjunction) (Nat.le_refl _)
  rw [hp, List.append_assoc]
  exact .gap (.yes hstack hdemand hc hsign)

lemma stepColon (h : Held Category.suffixed.rank stack p ls) (hsign : sign.token = .mark .colon)
    (ht : ParserState.stepOperand stack p sign.span .colon = some t) : HasRead t (ls ++ [sign]) := by
  simp only [ParserState.stepOperand] at ht
  split at ht
  · rename_i c rest q hclose
    obtain rfl := Option.some.inj ht
    obtain ⟨before, ys, y, hstack, hy, rfl, rfl⟩ := exists_open h hclose
    cases hstack with
    | @yes _ ls cs _ question hstack hdemand hc hquestion =>
      have hassoc : ls ++ (cs ++ [question]) ++ ys ++ [sign] =
          ls ++ (cs ++ question :: (ys ++ [sign])) := by simp
      rw [hassoc]
      exact .gap (.no hstack hdemand hc hquestion hy hsign)
  · cases ht

lemma stepComma (h : Held Category.suffixed.rank stack p ls) (hsign : sign.token = .mark .comma)
    (ht : ParserState.stepOperand stack p sign.span .comma = some t) : HasRead t (ls ++ [sign]) := by
  simp only [ParserState.stepOperand] at ht
  split at ht
  · rename_i f nameSpan args rest q hclose
    obtain rfl := Option.some.inj ht
    obtain ⟨before, ms, e, hstack, he, rfl, rfl⟩ := exists_open h hclose
    cases hstack with
    | @call _ ls as _ _ opening _ hstack hopening hargs =>
      have hassoc : ls ++ ⟨.name f, nameSpan⟩ :: opening :: as ++ ms ++ [sign] =
          ls ++ ⟨.name f, nameSpan⟩ :: opening :: (as ++ (ms ++ [sign])) := by simp
      rw [hassoc]
      exact .gap (.call hstack hopening (hargs.concat he hsign))
  · cases ht

lemma stepRightParen (h : Held Category.suffixed.rank stack p ls)
    (hsign : sign.token = .mark .rightParen)
    (ht : ParserState.stepOperand stack p sign.span .rightParen = some t) :
    HasRead t (ls ++ [sign]) := by
  simp only [ParserState.stepOperand] at ht
  split at ht
  · rename_i start rest q hclose
    obtain rfl := Option.some.inj ht
    obtain ⟨before, ms, e, hstack, he, rfl, rfl⟩ := exists_open h hclose
    cases hstack with
    | @group _ ls opening hstack hopening =>
      have hassoc : ls ++ [opening] ++ ms ++ [sign] = ls ++ opening :: (ms ++ [sign]) := by simp
      have hphrase : (⟨e, opening.span.start, sign.span.stop⟩ : Phrase) =
          phraseOf (opening :: (ms ++ [sign])) e := group_phraseOf
      rw [hassoc, phraseOf, hphrase]
      exact of_atom hstack (.group hopening he hsign)
  · rename_i f nameSpan args rest q hclose
    obtain rfl := Option.some.inj ht
    obtain ⟨before, ms, e, hstack, he, rfl, rfl⟩ := exists_open h hclose
    exact of_call hstack (.last he) hsign
  · cases ht

lemma stepOperand {m : Mark} (h : Held Category.suffixed.rank stack p ls)
    (hsign : sign.token = .mark m) (ht : ParserState.stepOperand stack p sign.span m = some t) :
    HasRead t (ls ++ [sign]) := by
  cases hm : m.binary? with
  | some op =>
    obtain rfl := Mark.binary?_eq_some_iff.1 hm
    rw [stepOperand_binary] at ht
    obtain rfl := Option.some.inj ht
    exact stepBinary h hsign
  | none =>
    cases m with
    | bang => exact stepBang h hsign ht
    | question => exact stepQuestion h hsign ht
    | colon => exact stepColon h hsign ht
    | comma => exact stepComma h hsign ht
    | rightParen => exact stepRightParen h hsign ht
    | _ => cases hm <;> cases ht

/-! ### The run -/

/-- A step reads one more token. -/
theorem step (h : HasRead s ls) (ht : s.step sign = some t) : HasRead t (ls ++ [sign]) := by
  obtain ⟨stack, reached⟩ := s
  cases reached with
  | gap =>
    cases h with
    | gap hstack => exact stepGap hstack ht
  | name f nameSpan =>
    cases hsign : sign.token with
    | mark m =>
      -- only an opening parenthesis makes a call of a name; any other mark finds an operand in it
      by_cases hm : m = .leftParen
      · subst hm
        rw [ParserState.step, hsign] at ht
        obtain rfl := Option.some.inj ht
        cases h with
        | @name _ ls _ _ hstack =>
          have hnone : ArgumentsBefore [] ([] : List Expr).reverse := fun rest es hrest => hrest
          rw [List.append_assoc]
          exact .gap (.call hstack hsign hnone)
      · rw [step_mark rfl hsign hm] at ht
        exact stepOperand (h.held rfl) hsign ht
    | _ =>
      rw [ParserState.step, hsign] at ht
      cases ht
  | operand p =>
    cases hsign : sign.token with
    | mark m =>
      rw [ParserState.step, hsign] at ht
      exact stepOperand (h.held rfl) hsign ht
    | _ =>
      rw [ParserState.step, hsign] at ht
      cases ht

theorem steps (h : HasRead s ls) (ht : s.steps ms = some t) : HasRead t (ls ++ ms) := by
  -- the tokens already read grow as the state moves on, so both are general
  induction ms generalizing s ls with
  | nil =>
    obtain rfl := Option.some.inj ht
    rwa [List.append_nil]
  | cons l ms ih =>
    cases hstep : s.step l with
    | none => simp [ParserState.steps, hstep] at ht
    | some u =>
      rw [steps_cons hstep] at ht
      have hread := ih (h.step hstep) ht
      rwa [List.append_assoc] at hread

/-- What is left when nothing is open is an expression that the tokens write. -/
theorem writes (h : HasRead s ls) (he : s.result? = some e) : Writes ls e := by
  unfold result? at he
  split at he
  · cases he
  · rename_i p hp
    split at he
    · rename_i q hclose
      obtain rfl := Option.some.inj he
      obtain ⟨before, ms, e, hstack, hwrites, rfl, rfl⟩ := exists_open (h.held hp) hclose
      cases hstack
      exact hwrites
    · cases he

end HasRead

end ParserState

/-! ## The parser -/

/-- The parser accepts what the grammar writes. -/
theorem parse_eq_ok_iff_writes {ls : List Lexeme} {e : Expr} : parse ls = .ok e ↔ Writes ls e := by
  rw [parse, ParserState.run_eq_ok_iff]
  constructor
  · rintro ⟨t, ht, he⟩
    exact ((ParserState.HasRead.gap .nil).steps ht).writes he
  · intro h
    obtain ⟨s, p, hs, hp, hclose⟩ := h.reads [] (Nat.le_refl _)
    have hclose' : close 0 s.stack p = ([], phraseOf ls e) := by
      rw [hclose 0 (Nat.le_refl _), close_nil]
    refine ⟨s, hs, ?_⟩
    rw [ParserState.result?, hp]
    simp only [hclose', phraseOf]

/-- **The parser accepts exactly the grammar, which is unambiguous.** A list of tokens is parsed to an
expression if and only if the tokens write that expression, spans included. They write at most one, and
the parser fails if and only if they write none. -/
theorem parse_iff_writes_unambiguously (ls : List Lexeme) :
    (∀ e, parse ls = .ok e ↔ Writes ls e) ∧
      (∀ e e', Writes ls e → Writes ls e' → e = e') ∧
      ((∃ fault, parse ls = .error fault) ↔ ¬ ∃ e, Writes ls e) := by
  refine ⟨fun e => parse_eq_ok_iff_writes, fun e e' he he' => ?_, ?_⟩
  · rw [← parse_eq_ok_iff_writes] at he he'
    exact Except.ok.inj (he.symm.trans he')
  · simp only [← parse_eq_ok_iff_writes]
    cases parse ls with
    | ok e => simp
    | error fault => simp

end Formulary
