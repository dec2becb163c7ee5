import Formulary.Proofs.Expr.Parsing
import Formulary.Proofs.Expr.Viability
/-!
# What syntax errors expect

A syntax error lists kinds of token that could stand where something else does. Each that it lists can
come there (`ParserState.admits_iff`), and the list is complete, unless an operand has just ended and
what comes after it is the end or a mark that only closes something: then it lists what closes the
innermost open construct (`parse_expects`).

What is open is told from the tokens alone, by counting parentheses and the marks of conditionals
(`openAfter`). The stack of the parser agrees with that (`ParserState.openAfter_of_steps`).
-/

namespace Formulary

/-! ## What tokens leave open -/

/-- What is open until a mark closes it. -/
inductive Construct where
  /-- A parenthesis. -/
  | group
  /-- The arguments of a call. -/
  | call
  /-- The first branch of a conditional. -/
  | branch
deriving DecidableEq

/-- The kinds of token that close a construct or one of its parts. -/
def Construct.closers : Construct → List Terminal
  | group => [.mark .rightParen]
  | call => [.mark .rightParen, .mark .comma]
  | branch => [.mark .colon]

namespace Token

/-- What is open after a token, if `outer` is before it and a name stands right before it or not. -/
def openAfter (named : Bool) (outer : List Construct) : Token → List Construct
  | .mark .leftParen => (if named then .call else .group) :: outer
  | .mark .question => .branch :: outer
  | .mark .rightParen | .mark .colon => outer.tail
  | _ => outer

/-- Whether a token is a name. -/
def isName : Token → Bool
  | .name _ => true
  | _ => false

/-- Whether a token can be the last one of an operand. -/
def isLast : Token → Bool
  | .number _ | .text _ | .name _ | .mark .rightParen | .mark .bang => true
  | .mark _ => false

end Token

/-- The constructs that tokens leave open, the innermost first. -/
def openAfter (named : Bool) (outer : List Construct) : List Token → List Construct
  | [] => outer
  | t :: ts => openAfter t.isName (t.openAfter named outer) ts

/-- The innermost construct that tokens leave open. -/
def innermostOpen (ls : List Lexeme) : Option Construct :=
  (openAfter false [] (ls.map Lexeme.token)).head?

/-! ## What a stack leaves open -/

/-- The construct that a frame keeps open. -/
def Frame.construct? : Frame → Option Construct
  | .group _ => some .group
  | .call .. => some .call
  | .yes _ => some .branch
  | .left .. | .before .. | .no .. => none

/-- The constructs that a stack keeps open. -/
def constructs (stack : List Frame) : List Construct :=
  stack.filterMap Frame.construct?

section
variable {level : Nat} {stack : List Frame} {p : Phrase}

lemma closers_eq (stack : List Frame) :
    closers stack = ((constructs stack).head?.map Construct.closers).getD [] := by
  induction stack with
  | nil => rfl
  | cons frame stack ih =>
    cases frame with
    | left l op => exact ih
    | before start op => exact ih
    | no c y => exact ih
    | _ => rfl

/-- Only frames that keep no construct open are closed with an operand. -/
lemma constructs_close : constructs (close level stack p).1 = constructs stack := by
  fun_induction close level stack p with
  | case1 l op stack p hlevel ih => exact ih
  | case3 start op stack p hlevel ih => exact ih
  | case5 c y stack p hlevel ih => exact ih
  | _ => rfl

/-- Once all frames that can be closed are, the one on top keeps a construct open. -/
lemma construct?_head?_close {frame : Frame} {rest : List Frame}
    (h : (close 0 stack p).1 = frame :: rest) : ∃ c, frame.construct? = some c := by
  fun_induction close 0 stack p with
  | case1 l op stack p hlevel ih => exact ih h
  | case2 l op stack p hlevel => exact absurd (Nat.zero_le _) hlevel
  | case3 start op stack p hlevel ih => exact ih h
  | case4 start op stack p hlevel => exact absurd (Nat.zero_le _) hlevel
  | case5 c y stack p hlevel ih => exact ih h
  | case6 c y stack p hlevel => exact absurd rfl hlevel
  | case7 stack p hleft hbefore hno =>
    obtain rfl : stack = frame :: rest := h
    cases frame with
    | left l op => exact (hleft l op rest rfl).elim
    | before start op => exact (hbefore start op rest rfl).elim
    | no c y => exact (hno c y rest rfl).elim
    | _ => exact ⟨_, rfl⟩

end

namespace ParserState

/-! ## Steps -/

section
variable {s t : ParserState} {stack : List Frame} {p : Phrase} {span : Span} {m : Mark} {l : Lexeme}

/-- Whether the last token read is a name that can be called. -/
def named (s : ParserState) : Bool :=
  match s.reached with
  | .name .. => true
  | _ => false

/-- A mark that only closes something comes after an operand exactly if it closes the innermost open
construct. -/
lemma exists_stepOperand_closer (hm : m = .rightParen ∨ m = .comma ∨ m = .colon) :
    (∃ t, stepOperand stack p span m = some t) ↔ .mark m ∈ closers stack := by
  have hopen : ∀ frame rest, (close 0 stack p).1 = frame :: rest → ∃ c, frame.construct? = some c :=
    fun frame rest h => construct?_head?_close h
  rw [closers_eq, ← @constructs_close 0 stack p, ← closers_eq]
  rcases hclose : close 0 stack p with ⟨rest, q⟩
  rw [hclose] at hopen
  cases rest with
  | nil => rcases hm with rfl | rfl | rfl <;> simp [stepOperand, hclose, closers]
  | cons frame rest =>
    obtain ⟨c, hc⟩ := hopen frame rest rfl
    cases frame with
    | left | before | no => exact absurd hc (by simp [Frame.construct?])
    | _ => rcases hm with rfl | rfl | rfl <;> simp [stepOperand, hclose, closers]

/-- What can come after an operand. -/
lemma exists_stepOperand (q : Phrase) :
    (∃ t, stepOperand stack p span m = some t) ↔ admits ⟨stack, .operand q⟩ (.mark m) = true := by
  by_cases hcloser : m = .rightParen ∨ m = .comma ∨ m = .colon
  · rw [exists_stepOperand_closer hcloser]
    rcases hcloser with rfl | rfl | rfl <;> simp [admits]
  · cases hbinary : m.binary? with
    | some op =>
      obtain rfl := Mark.binary?_eq_some_iff.1 hbinary
      rw [stepOperand_binary]
      cases op <;> simp [admits, BinaryOp.mark, Mark.binary?]
    | none =>
      cases m with
      | rightParen | comma | colon => exact absurd (by simp) hcloser
      | question | bang | leftParen | not => simp [stepOperand, admits, Mark.binary?]
      | _ => cases hbinary

/-- What can come where an operand must. -/
lemma exists_stepGap :
    (∃ t, stepGap stack l = some t) ↔ admits ⟨stack, .gap⟩ l.token.terminal = true := by
  obtain ⟨token, span⟩ := l
  cases token with
  | mark m =>
    cases m with
    | rightParen =>
      cases stack with
      | nil => simp [stepGap, admits, Token.terminal, atArgument]
      | cons frame stack => cases frame <;> simp [stepGap, admits, Token.terminal, atArgument]
    | _ => simp [stepGap, admits, Token.terminal, Mark.prefix?]
  | _ => simp [stepGap, admits, Token.terminal]

/-- The kinds of token that a state admits are those that can come next. -/
theorem admits_iff : s.admits l.token.terminal = true ↔ ∃ t, s.step l = some t := by
  obtain ⟨stack, reached⟩ := s
  cases reached with
  | gap => exact exists_stepGap.symm
  | operand p =>
    obtain ⟨token, span⟩ := l
    cases token with
    | mark m => exact (exists_stepOperand p).symm
    | _ => simp [admits, Token.terminal, step]
  | name f nameSpan =>
    obtain ⟨token, span⟩ := l
    cases token with
    | mark m =>
      by_cases hm : m = .leftParen
      · subst hm
        simp [admits, Token.terminal, step]
      · rw [step_mark rfl rfl hm, exists_stepOperand ⟨.symbol nameSpan f, nameSpan⟩]
        cases m with
        | leftParen => exact absurd rfl hm
        | _ => rfl
    | _ => simp [admits, Token.terminal, step]

/-! ### The state after a token -/

/-- What is open in a state and what has been reached is told by the last token and by what was open
before it. -/
structure ToldBy (t : ParserState) (token : Token) (named : Bool) (outer : List Construct) : Prop where
  opened : constructs t.stack = token.openAfter named outer
  named : t.named = token.isName
  ended : t.reached.phrase?.isSome = token.isLast

lemma toldBy_of_stepGap (h : stepGap stack l = some t) : t.ToldBy l.token false (constructs stack) := by
  obtain ⟨token, span⟩ := l
  cases token with
  | mark m =>
    cases m with
    | rightParen =>
      cases stack with
      | nil => cases h
      | cons frame stack =>
        cases frame with
        | call f s args =>
          obtain rfl := Option.some.inj h
          exact ⟨rfl, rfl, rfl⟩
        | _ => cases h
    | minus | plus | not | leftParen =>
      obtain rfl := Option.some.inj h
      exact ⟨rfl, rfl, rfl⟩
    | _ => cases h
  | _ =>
    obtain rfl := Option.some.inj h
    exact ⟨rfl, rfl, rfl⟩

lemma toldBy_of_stepOperand (h : stepOperand stack p span m = some t) :
    t.ToldBy (.mark m) false (constructs stack) := by
  have hopen : ∀ {rest q}, close 0 stack p = (rest, q) → constructs rest = constructs stack := by
    intro rest q hclose
    rw [← @constructs_close 0 stack p, hclose]
  cases hbinary : m.binary? with
  | some op =>
    obtain rfl := Mark.binary?_eq_some_iff.1 hbinary
    rw [stepOperand_binary] at h
    obtain rfl := Option.some.inj h
    have hclosed : constructs (close op.closes stack p).1 = constructs stack := constructs_close
    cases op <;> exact ⟨hclosed, rfl, rfl⟩
  | none =>
    cases m with
    | bang =>
      obtain rfl := Option.some.inj h
      exact ⟨rfl, rfl, rfl⟩
    | question =>
      obtain rfl := Option.some.inj h
      exact ⟨congrArg (Construct.branch :: ·) constructs_close, rfl, rfl⟩
    | colon =>
      simp only [stepOperand] at h
      split at h
      · rename_i hclose
        obtain rfl := Option.some.inj h
        rw [← hopen hclose]
        exact ⟨rfl, rfl, rfl⟩
      · cases h
    | comma =>
      simp only [stepOperand] at h
      split at h
      · rename_i hclose
        obtain rfl := Option.some.inj h
        rw [← hopen hclose]
        exact ⟨rfl, rfl, rfl⟩
      · cases h
    | rightParen =>
      simp only [stepOperand] at h
      split at h
      · rename_i hclose
        obtain rfl := Option.some.inj h
        rw [← hopen hclose]
        exact ⟨rfl, rfl, rfl⟩
      · rename_i hclose
        obtain rfl := Option.some.inj h
        rw [← hopen hclose]
        exact ⟨rfl, rfl, rfl⟩
      · cases h
    | _ => cases hbinary <;> cases h

theorem toldBy_of_step (h : s.step l = some t) : t.ToldBy l.token s.named (constructs s.stack) := by
  obtain ⟨stack, reached⟩ := s
  obtain ⟨token, span⟩ := l
  cases reached with
  | gap => exact toldBy_of_stepGap h
  | operand p =>
    cases token with
    | mark m => exact toldBy_of_stepOperand h
    | _ => cases h
  | name f nameSpan =>
    cases token with
    | mark m =>
      by_cases hm : m = .leftParen
      · subst hm
        obtain rfl := Option.some.inj h
        exact ⟨rfl, rfl, rfl⟩
      · -- only an opening parenthesis can tell that a name stands before it
        rw [step_mark rfl rfl hm] at h
        obtain ⟨hopened, hnamed, hended⟩ := toldBy_of_stepOperand h
        refine ⟨hopened.trans ?_, hnamed, hended⟩
        cases m with
        | leftParen => exact absurd rfl hm
        | _ => rfl
    | _ => cases h

theorem openAfter_of_steps {ls : List Lexeme} (h : s.steps ls = some t) :
    openAfter s.named (constructs s.stack) (ls.map Lexeme.token) = constructs t.stack := by
  induction ls generalizing s with
  | nil =>
    obtain rfl := Option.some.inj h
    rfl
  | cons l ls ih =>
    cases hstep : s.step l with
    | none => simp [steps, hstep] at h
    | some u =>
      obtain ⟨hopened, hnamed, -⟩ := toldBy_of_step hstep
      rw [steps_cons hstep] at h
      rw [List.map_cons, openAfter, ← hopened, ← hnamed, ih h]

end

end ParserState

/-! ## Operands -/

/-- The last of some tokens are an operand. -/
def EndsOperand (ls : List Lexeme) : Prop :=
  ∃ ms e, ms <:+ ls ∧ Derives .suffixed ms e

/-- What ends a phrase can end an operand. -/
theorem Derives.exists_last : {c : Category} → {ls : List Lexeme} → {e : Expr} → Derives c ls e →
    ∃ before last, ls = before ++ [last] ∧ last.token.isLast = true
  | _, _, _, .number s x => ⟨[], ⟨.number x, s⟩, rfl, rfl⟩
  | _, _, _, .text s t => ⟨[], ⟨.text t, s⟩, rfl, rfl⟩
  | _, _, _, .symbol s name => ⟨[], ⟨.name name, s⟩, rfl, rfl⟩
  | _, _, _, @Derives.call f s opening closing ls _ _ _ hclosing =>
    ⟨⟨.name f, s⟩ :: opening :: ls, closing, rfl, by rw [hclosing]; rfl⟩
  | _, _, _, @Derives.group opening closing ls _ _ _ hclosing =>
    ⟨opening :: ls, closing, rfl, by rw [hclosing]; rfl⟩
  | _, _, _, @Derives.factorial ls sign _ _ hsign => ⟨ls, sign, rfl, by rw [hsign]; rfl⟩
  | _, _, _, @Derives.unary _ _ sign _ _ _ he => by
    obtain ⟨before, last, rfl, hlast⟩ := he.exists_last
    exact ⟨sign :: before, last, by simp, hlast⟩
  | _, _, _, @Derives.binary _ ls _ sign _ _ _ _ hr => by
    obtain ⟨before, last, rfl, hlast⟩ := hr.exists_last
    exact ⟨ls ++ sign :: before, last, by simp, hlast⟩
  | _, _, _, @Derives.conditional cs ys _ question colon _ _ _ _ _ _ _ hn => by
    obtain ⟨before, last, rfl, hlast⟩ := hn.exists_last
    exact ⟨cs ++ question :: (ys ++ colon :: before), last, by simp, hlast⟩
  | _, _, _, .tighter _ h => h.exists_last

namespace ParserState

/-- Tokens that have been read end with an operand exactly if one has been reached. -/
theorem endsOperand_iff {s : ParserState} {ls : List Lexeme} (hs : initial.steps ls = some s) :
    EndsOperand ls ↔ s.reached.phrase?.isSome = true := by
  constructor
  · rintro ⟨ms, e, ⟨front, rfl⟩, he⟩
    obtain ⟨before, last, rfl, hlast⟩ := he.exists_last
    rw [← List.append_assoc, steps, List.foldlM_append] at hs
    obtain ⟨u, -, hstep⟩ := Option.bind_eq_some_iff.1 hs
    have hstep : u.step last = some s := by simpa using hstep
    rw [(toldBy_of_step hstep).ended, hlast]
  · intro h
    cases (HasRead.gap .nil).steps hs with
    | gap _ => cases h
    | @name _ _ f span _ =>
      have hname : Derives .suffixed [⟨.name f, span⟩] (.symbol span f) :=
        (Derives.symbol span f).loosen (by decide)
      exact ⟨[⟨.name f, span⟩], .symbol span f, List.suffix_append .., hname⟩
    | @operand _ _ ms e _ he => exact ⟨ms, e, List.suffix_append .., he⟩

end ParserState

/-! ## Expectations -/

/-- The kinds of token that only close something. -/
def closingMarks : List Terminal :=
  [.mark .rightParen, .mark .comma, .mark .colon]

/-- A list of kinds of token tells how tokens go on where `next`, or else the end, cannot come. Each
kind in it can come there. It is complete, unless an operand has just ended and `next` is the end or a
mark that only closes something: then it lists what closes the innermost open construct. -/
structure Expects (ls : List Lexeme) (next : Option Terminal) (expected : List Terminal) : Prop where
  sound : ∀ l : Lexeme, l.token.terminal ∈ expected → Viable (ls ++ [l])
  complete : ¬ (EndsOperand ls ∧ ∀ t ∈ next, t ∈ closingMarks) →
    ∀ l : Lexeme, Viable (ls ++ [l]) → l.token.terminal ∈ expected
  closing : EndsOperand ls → (∀ t ∈ next, t ∈ closingMarks) →
    expected = ((innermostOpen ls).map Construct.closers).getD []

namespace ParserState

lemma isCloser_iff {t : Terminal} : isCloser t = true ↔ t ∈ closingMarks := by
  cases t with
  | mark m => cases m <;> decide
  | _ => decide

lemma expected_of_closing {s : ParserState} {next : Option Terminal}
    (hs : s.reached.phrase?.isSome = true) (h : next.all isCloser = true) :
    s.expected next = closers s.stack := by
  obtain ⟨stack, reached⟩ := s
  cases reached with
  | gap => cases hs
  | _ => simp [expected, h]

lemma expected_of_not_closing {s : ParserState} {next : Option Terminal}
    (h : ¬ (s.reached.phrase?.isSome = true ∧ next.all isCloser = true)) :
    s.expected next = Terminal.all.filter s.admits := by
  obtain ⟨stack, reached⟩ := s
  cases reached with
  | gap => rfl
  | _ =>
    have hnext : ¬ next.all isCloser = true := fun hnext => h ⟨rfl, hnext⟩
    simp only [expected, hnext, Bool.false_eq_true, if_false]

/-- What closes the innermost open construct can come after an operand. -/
lemma admits_of_mem_closers {s : ParserState} {t : Terminal} (hs : s.reached.phrase?.isSome = true)
    (h : t ∈ closers s.stack) : s.admits t = true := by
  have hcloser : t ∈ closingMarks := by
    have hclosers : ∀ c : Construct, ∀ t ∈ c.closers, t ∈ closingMarks := by
      intro c
      cases c <;> decide
    rw [closers_eq] at h
    cases htop : (constructs s.stack).head? with
    | none => simp [htop] at h
    | some c =>
      rw [htop] at h
      exact hclosers c t h
  obtain ⟨stack, reached⟩ := s
  cases reached with
  | gap => cases hs
  | _ =>
    simp only [closingMarks, List.mem_cons, List.not_mem_nil, or_false] at hcloser
    rcases hcloser with rfl | rfl | rfl <;> simpa [admits] using h

lemma admits_of_mem_expected {s : ParserState} {next : Option Terminal} {t : Terminal}
    (h : t ∈ s.expected next) : s.admits t = true := by
  by_cases hclosing : s.reached.phrase?.isSome = true ∧ next.all isCloser = true
  · rw [expected_of_closing hclosing.1 hclosing.2] at h
    exact admits_of_mem_closers hclosing.1 h
  · rw [expected_of_not_closing hclosing] at h
    exact (List.mem_filter.1 h).2

/-- What a state expects tells how the tokens go on that led to it. -/
theorem expects_expected {s : ParserState} {ls : List Lexeme} (hs : initial.steps ls = some s)
    (next : Option Terminal) : Expects ls next (s.expected next) := by
  have hnext : (∀ t ∈ next, t ∈ closingMarks) ↔
      next.all isCloser = true := by
    rw [Option.all_eq_true]
    exact forall₂_congr fun t _ => isCloser_iff.symm
  have hviable : ∀ l : Lexeme, Viable (ls ++ [l]) ↔ s.admits l.token.terminal = true := by
    intro l
    rw [viable_concat_iff hs, admits_iff]
  constructor
  · intro l hl
    exact (hviable l).2 (admits_of_mem_expected hl)
  · intro hclosing l hl
    rw [endsOperand_iff hs, hnext] at hclosing
    rw [expected_of_not_closing hclosing]
    exact List.mem_filter.2 ⟨Terminal.mem_all _, (hviable l).1 hl⟩
  · intro hends hcloser
    have hopen : openAfter false [] (ls.map Lexeme.token) = constructs s.stack := openAfter_of_steps hs
    rw [expected_of_closing ((endsOperand_iff hs).1 hends) (hnext.1 hcloser), closers_eq,
      innermostOpen, hopen]

end ParserState

/-- **Syntax errors list what can stand where something else does.** If the parser fails, it fails at a
token, or at the end, after tokens that can be extended to an expression; the message ends with a list
of kinds of token, and the list tells how these tokens go on. -/
theorem parse_expects {ls : List Lexeme} {fault : Fault} (h : parse ls = .error fault) :
    ∃ before expected, Viable before ∧
      (∃ start, fault.message = start ++ Fault.expectedText expected) ∧
      ((∃ l after, ls = before ++ l :: after ∧ ¬ Viable (before ++ [l]) ∧
          fault = .unexpected l.token expected l.span ∧
          Expects before (some l.token.terminal) expected) ∨
        (ls = before ∧ (∃ s, fault = .unexpectedEnd expected s) ∧ Expects before none expected)) := by
  rcases ParserState.run_eq_error h with ⟨before, l, after, s, rfl, hs, hl, rfl⟩ | ⟨s, hs, -, rfl⟩
  · have hhopeless : ¬ Viable (before ++ [l]) := by
      rw [viable_concat_iff hs, hl]
      simp
    exact ⟨before, _, viable_iff.2 ⟨s, hs⟩, ⟨_, rfl⟩,
      .inl ⟨l, after, rfl, hhopeless, rfl, s.expects_expected hs _⟩⟩
  · exact ⟨ls, _, viable_iff.2 ⟨s, hs⟩, ⟨_, rfl⟩, .inr ⟨rfl, ⟨_, rfl⟩, s.expects_expected hs none⟩⟩

/-- The tokens of `f ( x :`. -/
def strayColon : List Lexeme :=
  [⟨.name "f", ⟨0, 1⟩⟩, ⟨.mark .leftParen, ⟨1, 2⟩⟩, ⟨.name "x", ⟨2, 3⟩⟩, ⟨.mark .colon, ⟨4, 5⟩⟩]

/-- In place of the colon the argument can end, or the call can. -/
theorem parse_strayColon_expects : ∃ fault before, parse strayColon = .error fault ∧ Viable before ∧
    (∃ start, fault.message = start ++ ", expected `)` or `,`") ∧
    Expects before (some (.mark .colon)) [.mark .rightParen, .mark .comma] := by
  have hfails : parse strayColon = .error (.unexpected (.mark .colon)
      [.mark .rightParen, .mark .comma] ⟨4, 5⟩) := rfl
  have htext : Fault.expectedText [.mark .rightParen, .mark .comma] = ", expected `)` or `,`" := by
    decide
  obtain ⟨before, expected, hviable, hmessage, hplace⟩ := parse_expects hfails
  rcases hplace with ⟨l, after, -, -, hfault, hexpects⟩ | ⟨-, ⟨s, hfault⟩, -⟩
  · obtain ⟨htoken, rfl, -⟩ := Fault.unexpected.inj hfault
    rw [← htoken] at hexpects
    rw [htext] at hmessage
    exact ⟨_, before, hfails, hviable, hmessage, hexpects⟩
  · cases hfault

end Formulary
