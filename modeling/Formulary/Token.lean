import Formulary.Text.Name
import Formulary.Text.Quoted
import Formulary.Text.Span
import Formulary.Number.Layout
/-!
# Tokens

The words of the expression language. Most have one spelling and are called marks; the others carry a
number, a quoted text or a name.
-/

namespace Formulary

/-- The tokens with one spelling. -/
inductive Mark where
  | and | or | not
  | leftParen | rightParen | comma | question | colon
  | plus | minus | star | slash | percent | caret | bang
  | equal | notEqual | less | greater | lessEqual | greaterEqual
deriving DecidableEq

namespace Mark

/-- How a mark is written. -/
def spelling : Mark → String
  | and => "and"
  | or => "or"
  | not => "not"
  | leftParen => "("
  | rightParen => ")"
  | comma => ","
  | question => "?"
  | colon => ":"
  | plus => "+"
  | minus => "-"
  | star => "*"
  | slash => "/"
  | percent => "%"
  | caret => "^"
  | bang => "!"
  | equal => "=="
  | notEqual => "!="
  | less => "<"
  | greater => ">"
  | lessEqual => "<="
  | greaterEqual => ">="

end Mark

/-- The words of an expression. -/
inductive Token where
  | number (value : Float)
  | text (value : String)
  | name (value : String)
  | mark (mark : Mark)

/-- A token and the part of the text that it was read from. -/
structure Lexeme where
  token : Token
  span : Span

/-- How a name is shown: the identifier of a variable as the reference that a user writes. -/
def shownName (identifier : String) : String :=
  match variableOf? identifier with
  | some name => "\x7b\x7b" ++ name ++ "\x7d\x7d"
  | none => identifier

namespace Token

/-- How a token is shown in messages. -/
def shown : Token → String
  | number x => numberText x
  | text s => quoted s
  | name s => shownName s
  | mark m => m.spelling

end Token

/-! ## Terminals -/

/-- The kinds of token that the grammar tells apart. -/
inductive Terminal where
  | number
  | text
  | name
  | mark (mark : Mark)
deriving DecidableEq

/-- The kind of a token. -/
def Token.terminal : Token → Terminal
  | number _ => .number
  | text _ => .text
  | name _ => .name
  | mark m => .mark m

namespace Terminal

/-- All kinds of token, in the order in which messages list them. -/
def all : List Terminal :=
  [.mark .and, .mark .or, .mark .not, .number, .text, .name, .mark .leftParen, .mark .rightParen,
    .mark .comma, .mark .question, .mark .colon, .mark .plus, .mark .minus, .mark .star,
    .mark .slash, .mark .percent, .mark .caret, .mark .bang, .mark .equal, .mark .notEqual,
    .mark .less, .mark .greater, .mark .lessEqual, .mark .greaterEqual]

theorem mem_all (t : Terminal) : t ∈ all := by
  cases t with
  | mark m => cases m <;> decide
  | _ => decide

/-- How a kind of token is named in messages. -/
def shown : Terminal → String
  | number => "a number"
  | text => "text"
  | name => "a name"
  | mark m => "`" ++ m.spelling ++ "`"

end Terminal

end Formulary
