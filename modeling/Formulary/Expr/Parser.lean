import Formulary.Expr
import Formulary.Fault
/-!
# Reading expressions from tokens

The operators in order of how tightly they bind, the loosest first:

* `c ? x : y`, to the right;
* `or`, `and`, the comparisons, `+ -`, `* / %`, each level to the left;
* the prefixes `-`, `+` and `not`;
* `^`, to the right, with an exponent that may carry a prefix;
* the postfix `!`.

A machine reads the tokens one by one. What has been read is an operand, if one has just ended, on top
of a stack of frames, each an operator or opening mark that waits for what comes next. An operator that
binds no tighter than those before it closes them (`close`), a closing mark closes all up to the one it
belongs to. A token that cannot follow is reported with those that can: after an operand the end, and
the marks that close something, name only what would close the innermost open construct.
-/

namespace Formulary

/-- An expression and the extent of the tokens it was read from, parentheses around it included. -/
structure Phrase where
  expr : Expr
  extent : Span

/-! ## Levels -/

/-- How tightly an operator binds. -/
def BinaryOp.level : BinaryOp → Nat
  | .or => 1
  | .and => 2
  | .eq | .ne | .lt | .gt | .le | .ge => 3
  | .add | .sub => 4
  | .mul | .div | .mod => 5
  | .pow => 7

/-- How tightly the prefixes bind. -/
def prefixLevel : Nat := 6

/-- The level from which an operator closes what stands before it: its own if it groups to the left,
and above all others if it groups to the right. -/
def BinaryOp.closes (op : BinaryOp) : Nat :=
  if op = .pow then 8 else op.level

/-- The operator between operands that a mark writes. -/
def Mark.binary? : Mark → Option BinaryOp
  | .plus => some .add
  | .minus => some .sub
  | .star => some .mul
  | .slash => some .div
  | .percent => some .mod
  | .caret => some .pow
  | .equal => some .eq
  | .notEqual => some .ne
  | .less => some .lt
  | .greater => some .gt
  | .lessEqual => some .le
  | .greaterEqual => some .ge
  | .and => some .and
  | .or => some .or
  | _ => none

/-- The prefix that a mark writes. -/
def Mark.prefix? : Mark → Option UnaryOp
  | .minus => some .neg
  | .plus => some .plus
  | .not => some .not
  | _ => none

theorem Mark.binary?_eq_some_iff {m : Mark} {op : BinaryOp} :
    m.binary? = some op ↔ op.mark = m := by
  cases m <;> cases op <;> decide

/-! ## Frames -/

/-- What waits for its next part. -/
inductive Frame where
  /-- An operator with its left operand. -/
  | left (operand : Phrase) (op : BinaryOp)
  /-- A prefix, and where it starts. -/
  | before (start : Nat) (op : UnaryOp)
  /-- An opening parenthesis, and where it starts. -/
  | group (start : Nat)
  /-- A function with the arguments read so far, last first. -/
  | call (function : String) (nameSpan : Span) (arguments : List Expr)
  /-- A condition, before its first branch. -/
  | yes (condition : Phrase)
  /-- A condition and its first branch, before the second. -/
  | no (condition : Phrase) (yes : Expr)

/-- The phrase of an operator between two phrases. -/
def Phrase.binary (left : Phrase) (op : BinaryOp) (right : Phrase) : Phrase :=
  let extent := left.extent.through right.extent
  ⟨.binary extent op left.expr right.expr, extent⟩

/-- The phrase of a prefix and its operand. -/
def Phrase.before (start : Nat) (op : UnaryOp) (operand : Phrase) : Phrase :=
  let extent : Span := ⟨start, operand.extent.stop⟩
  ⟨.unary extent op operand.expr, extent⟩

/-- The phrase of a factorial whose mark has the span given. -/
def Phrase.factorial (operand : Phrase) (mark : Span) : Phrase :=
  let extent := operand.extent.through mark
  ⟨.unary extent .factorial operand.expr, extent⟩

/-- The phrase of a conditional. -/
def Phrase.conditional (condition : Phrase) (yes : Expr) (no : Phrase) : Phrase :=
  let extent := condition.extent.through no.extent
  ⟨.conditional extent condition.expr yes no.expr, extent⟩

/-- The phrase of a call whose closing parenthesis has the span given; the arguments are last first. -/
def Phrase.call (function : String) (nameSpan : Span) (arguments : List Expr) (closing : Span) :
    Phrase :=
  let extent := nameSpan.through closing
  ⟨.call extent function nameSpan arguments.reverse, extent⟩

/-- Closes the frames on top that bind at least as tightly as a level, with the operand given. -/
def close (level : Nat) : List Frame → Phrase → List Frame × Phrase
  | .left l op :: stack, p =>
    if level ≤ op.level then close level stack (l.binary op p) else (.left l op :: stack, p)
  | .before start op :: stack, p =>
    if level ≤ prefixLevel then close level stack (p.before start op)
    else (.before start op :: stack, p)
  | .no c y :: stack, p =>
    if level = 0 then close level stack (c.conditional y p) else (.no c y :: stack, p)
  | stack, p => (stack, p)

/-- The kinds of token that close the innermost open construct. -/
def closers : List Frame → List Terminal
  | .left .. :: stack | .before .. :: stack | .no .. :: stack => closers stack
  | .group _ :: _ => [.mark .rightParen]
  | .call .. :: _ => [.mark .rightParen, .mark .comma]
  | .yes _ :: _ => [.mark .colon]
  | [] => []

/-! ## The machine -/

/-- What has just been read. -/
inductive Reached where
  /-- Nothing that an operator can follow: an operand must come. -/
  | gap
  /-- A name, which may be called. -/
  | name (name : String) (span : Span)
  /-- An operand. -/
  | operand (phrase : Phrase)

/-- The operand that has just been read. -/
def Reached.phrase? : Reached → Option Phrase
  | gap => none
  | name s span => some ⟨.symbol span s, span⟩
  | operand p => some p

/-- The state between two tokens. -/
structure ParserState where
  stack : List Frame
  reached : Reached

namespace ParserState

/-- Before the first token. -/
def initial : ParserState :=
  ⟨[], .gap⟩

/-- Whether the innermost frame is a call in which an argument may be missing. -/
def atArgument : List Frame → Bool
  | .call .. :: _ => true
  | _ => false

/-- Whether a kind of token may come next. -/
def admits (s : ParserState) (t : Terminal) : Bool :=
  match s.reached with
  | .gap =>
    match t with
    | .number | .text | .name | .mark .leftParen => true
    | .mark .rightParen => atArgument s.stack
    | .mark m => m.prefix?.isSome
  | reached =>
    match t with
    | .mark .question | .mark .bang => true
    | .mark .leftParen => match reached with
      | .name .. => true
      | _ => false
    | .mark .rightParen | .mark .comma | .mark .colon => (closers s.stack).contains t
    | .mark m => m.binary?.isSome
    | _ => false

/-- Whether a kind of token only ever closes something. -/
def isCloser : Terminal → Bool
  | .mark .rightParen | .mark .comma | .mark .colon => true
  | _ => false

/-- The kinds of token that a message lists when `t`, or the end, comes and cannot. -/
def expected (s : ParserState) (t : Option Terminal) : List Terminal :=
  match s.reached with
  | .gap => Terminal.all.filter s.admits
  | _ => if t.all isCloser then closers s.stack else Terminal.all.filter s.admits

/-- Reads a token where an operand must come. -/
def stepGap (stack : List Frame) (lexeme : Lexeme) : Option ParserState :=
  let span := lexeme.span
  match lexeme.token with
  | .number x => some ⟨stack, .operand ⟨.number span x, span⟩⟩
  | .text s => some ⟨stack, .operand ⟨.text span s, span⟩⟩
  | .name s => some ⟨stack, .name s span⟩
  | .mark .leftParen => some ⟨.group span.start :: stack, .gap⟩
  | .mark .rightParen => match stack with
    | .call f nameSpan args :: stack => some ⟨stack, .operand (.call f nameSpan args span)⟩
    | _ => none
  | .mark m => m.prefix?.map fun op => ⟨.before span.start op :: stack, .gap⟩

/-- Reads a mark after an operand. -/
def stepOperand (stack : List Frame) (p : Phrase) (span : Span) (m : Mark) : Option ParserState :=
  match m with
  | .bang => some ⟨stack, .operand (p.factorial span)⟩
  | .question =>
    let (stack, p) := close 1 stack p
    some ⟨.yes p :: stack, .gap⟩
  | .colon => match close 0 stack p with
    | (.yes c :: stack, p) => some ⟨.no c p.expr :: stack, .gap⟩
    | _ => none
  | .comma => match close 0 stack p with
    | (.call f nameSpan args :: stack, p) => some ⟨.call f nameSpan (p.expr :: args) :: stack, .gap⟩
    | _ => none
  | .rightParen => match close 0 stack p with
    | (.group start :: stack, p) => some ⟨stack, .operand ⟨p.expr, start, span.stop⟩⟩
    | (.call f nameSpan args :: stack, p) =>
      some ⟨stack, .operand (.call f nameSpan (p.expr :: args) span)⟩
    | _ => none
  | m => m.binary?.map fun op =>
    let (stack, p) := close op.closes stack p
    ⟨.left p op :: stack, .gap⟩

/-- Reads a token, if it can come next. -/
def step (s : ParserState) (lexeme : Lexeme) : Option ParserState :=
  match s.reached, lexeme.token with
  | .gap, _ => stepGap s.stack lexeme
  | .name f nameSpan, .mark .leftParen => some ⟨.call f nameSpan [] :: s.stack, .gap⟩
  | .name f nameSpan, .mark m => stepOperand s.stack ⟨.symbol nameSpan f, nameSpan⟩ lexeme.span m
  | .operand p, .mark m => stepOperand s.stack p lexeme.span m
  | _, _ => none

/-- The expression that has been read, if nothing is open. -/
def result? (s : ParserState) : Option Expr :=
  match s.reached.phrase? with
  | none => none
  | some p => match close 0 s.stack p with
    | ([], p) => some p.expr
    | _ => none

/-- Reads the tokens that are left, the last one before them having stopped at a position. -/
def run (s : ParserState) (position : Nat) : List Lexeme → Except Fault Expr
  | [] => match s.result? with
    | some e => .ok e
    | none => .error (.unexpectedEnd (s.expected none) (.point position))
  | lexeme :: rest => match s.step lexeme with
    | some s => s.run lexeme.span.stop rest
    | none =>
      .error (.unexpected lexeme.token (s.expected (some lexeme.token.terminal)) lexeme.span)

end ParserState

/-- The expression that tokens write. -/
def parse (lexemes : List Lexeme) : Except Fault Expr :=
  ParserState.initial.run 0 lexemes

end Formulary
