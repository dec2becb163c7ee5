import Formulary.Proofs.Expr.Reading
/-!
# Tokens that can be extended to an expression

Tokens are viable if others can come after them so that the parser accepts them all (`Viable`). From
every state of the parser there is a way to a state in which nothing is open
(`ParserState.completable`): where an operand must come one can come, and after an operand the open
constructs can be closed one by one, the innermost first. So tokens are viable exactly if the parser can
read them (`viable_iff`), and the token that it rejects is the first that makes them hopeless
(`parse_fails_at_hopeless_token`).
-/

namespace Formulary

/-- Tokens can be extended to tokens that the parser accepts. -/
def Viable (ls : List Lexeme) : Prop :=
  ∃ rest e, parse (ls ++ rest) = .ok e

/-! ## Completing what is open -/

namespace ParserState

/-- There are tokens that lead from a state to an expression. -/
def Completable (s : ParserState) : Prop :=
  ∃ rest t e, s.steps rest = some t ∧ t.result? = some e

section
variable {s t : ParserState} {l : Lexeme} {p q : Phrase} {stack : List Frame}

lemma Completable.of_step (h : t.Completable) (hstep : s.step l = some t) : s.Completable := by
  obtain ⟨rest, u, e, hu, he⟩ := h
  exact ⟨l :: rest, u, e, (steps_cons hstep).trans hu, he⟩

/-- A number can come where an operand must. -/
lemma step_number : step ⟨stack, .gap⟩ ⟨.number 0, .point 0⟩ =
    some ⟨stack, .operand ⟨.number (.point 0) 0, .point 0⟩⟩ :=
  rfl

/-- After an operand what is open can be closed. The stack is known only by what is left of it once the
frames up to the innermost opening mark are closed, since that is all that closing marks see. -/
lemma completable_of_close (hp : s.reached.phrase? = some p)
    (hclose : close 0 s.stack p = close 0 stack q) : s.Completable := by
  -- by induction on the frames: one that waits for an operand closes with it, and one that an opening
  -- mark has left takes a closing mark
  induction stack generalizing s p q with
  | nil =>
    rw [close_nil] at hclose
    refine ⟨[], s, q.expr, rfl, ?_⟩
    rw [result?, hp]
    simp only [hclose]
  | cons frame stack ih =>
    cases frame with
    | left l op =>
      rw [close_left (Nat.zero_le _)] at hclose
      exact ih hp hclose
    | before start op =>
      rw [close_before (Nat.zero_le _)] at hclose
      exact ih hp hclose
    | no c y =>
      rw [close_no] at hclose
      exact ih hp hclose
    | group start =>
      have hstep : s.step ⟨.mark .rightParen, .point 0⟩ =
          some ⟨stack, .operand ⟨q.expr, start, 0⟩⟩ := by
        rw [step_mark hp rfl (by decide), stepOperand, hclose]
        rfl
      exact (ih rfl rfl).of_step hstep
    | call f nameSpan args =>
      have hstep : s.step ⟨.mark .rightParen, .point 0⟩ =
          some ⟨stack, .operand (.call f nameSpan (q.expr :: args) (.point 0))⟩ := by
        rw [step_mark hp rfl (by decide), stepOperand, hclose]
        rfl
      exact (ih rfl rfl).of_step hstep
    | yes c =>
      -- a colon asks for another branch, which closes with the conditional
      have hstep : s.step ⟨.mark .colon, .point 0⟩ = some ⟨.no c q.expr :: stack, .gap⟩ := by
        rw [step_mark hp rfl (by decide), stepOperand, hclose]
        rfl
      exact ((ih rfl close_no).of_step step_number).of_step hstep

/-- Every state can be led to an expression. -/
theorem completable (s : ParserState) : s.Completable := by
  obtain ⟨stack, reached⟩ := s
  cases reached with
  | gap => exact (completable_of_close rfl rfl).of_step step_number
  | name f span => exact completable_of_close rfl rfl
  | operand p => exact completable_of_close rfl rfl

end

end ParserState

/-! ## Viable tokens -/

open ParserState

section
variable {ls : List Lexeme} {s : ParserState} {l : Lexeme}

/-- Tokens are viable if and only if the parser can read them. -/
theorem viable_iff : Viable ls ↔ ∃ s, initial.steps ls = some s := by
  constructor
  · rintro ⟨rest, e, h⟩
    obtain ⟨t, ht, -⟩ := run_eq_ok_iff.1 h
    rw [steps, List.foldlM_append] at ht
    obtain ⟨s, hs, -⟩ := Option.bind_eq_some_iff.1 ht
    exact ⟨s, hs⟩
  · rintro ⟨s, hs⟩
    obtain ⟨rest, t, e, ht, he⟩ := s.completable
    exact ⟨rest, e, run_eq_ok_iff.2 ⟨t, (steps_append hs).trans ht, he⟩⟩

/-- Once they are read, tokens stay viable with another one exactly if it can come. -/
lemma viable_concat_iff (hs : initial.steps ls = some s) :
    Viable (ls ++ [l]) ↔ ∃ t, s.step l = some t := by
  rw [viable_iff, steps_append hs]
  cases hstep : s.step l with
  | none => simp [steps, hstep]
  | some t => simp [steps, hstep]

lemma stopAfter_eq (position : Nat) (ls : List Lexeme) :
    stopAfter position ls = (ls.getLast?.map fun l => l.span.stop).getD position := by
  induction ls generalizing position with
  | nil => rfl
  | cons l ls ih =>
    rw [stopAfter, ih, List.getLast?_cons]
    cases ls.getLast? <;> rfl

end

/-- **Syntax errors are reported at the earliest token.** If the parser fails, then the tokens before
some token can be extended to an expression, with that token they cannot, and the fault is at that token;
or else all of the tokens can be extended, and the fault is the point where the last one stops. -/
theorem parse_fails_at_hopeless_token {ls : List Lexeme} {fault : Fault}
    (h : parse ls = .error fault) :
    (∃ k l, ls[k]? = some l ∧ fault.span? = some l.span ∧ Viable (ls.take k) ∧
      ¬ Viable (ls.take (k + 1))) ∨
    (Viable ls ∧
      fault.span? = some (.point ((ls.getLast?.map fun l => l.span.stop).getD 0))) := by
  rcases run_eq_error h with ⟨before, l, after, s, rfl, hs, hl, rfl⟩ | ⟨s, hs, -, rfl⟩
  · have hbefore : (before ++ l :: after).take before.length = before := List.take_left
    have hthrough : (before ++ l :: after).take (before.length + 1) = before ++ [l] := by
      rw [List.take_length_add_append]
      rfl
    refine .inl ⟨before.length, l, by simp, rfl, ?_, ?_⟩
    · rw [hbefore]
      exact viable_iff.2 ⟨s, hs⟩
    · rw [hthrough, viable_concat_iff hs]
      rintro ⟨t, ht⟩
      rw [hl] at ht
      cases ht
  · rw [stopAfter_eq]
    exact .inr ⟨viable_iff.2 ⟨s, hs⟩, rfl⟩

/-- The tokens of `x + )`. -/
def strayParenthesis : List Lexeme :=
  [⟨.name "x", ⟨0, 1⟩⟩, ⟨.mark .plus, ⟨2, 3⟩⟩, ⟨.mark .rightParen, ⟨4, 5⟩⟩]

/-- The parenthesis is to blame, not the end. -/
theorem parse_strayParenthesis_fails : ∃ fault k l, parse strayParenthesis = .error fault ∧
    strayParenthesis[k]? = some l ∧ fault.span? = some l.span ∧
    Viable (strayParenthesis.take k) ∧ ¬ Viable (strayParenthesis.take (k + 1)) := by
  have hfails : parse strayParenthesis = .error (.unexpected (.mark .rightParen)
      [.mark .not, .number, .text, .name, .mark .leftParen, .mark .plus, .mark .minus] ⟨4, 5⟩) := rfl
  rcases parse_fails_at_hopeless_token hfails with ⟨k, l, hplace⟩ | ⟨-, hspan⟩
  · exact ⟨_, k, l, hfails, hplace⟩
  · exact absurd hspan (by decide)

end Formulary
