import Formulary.Expr.Parser
import Mathlib.Tactic.Common
/-!
# The grammar of expressions

The language is given by ten categories, each of which takes in the next tighter one. `Derives` has one
rule for each production: a run of tokens is of a category and writes an expression. The operators
between operands share one rule, with the categories of their operands in the tables
`BinaryOp.leftCategory` and `BinaryOp.rightCategory`, so that all but the power group to the left.

A node has the span from the first to the last token that it was derived from (`extentOf`). Parentheses
leave no node, but they count for the nodes around them.
-/

namespace Formulary

/-! ## Categories -/

/-- The categories of the grammar, the loosest first. -/
inductive Category where
  | conditional | disjunction | conjunction | comparison | sum | product
  | signed | power | suffixed | atom

namespace Category

/-- The place of a category in the order; tighter ones come later. -/
def rank : Category → Nat
  | conditional => 0
  | disjunction => 1
  | conjunction => 2
  | comparison => 3
  | sum => 4
  | product => 5
  | signed => 6
  | power => 7
  | suffixed => 8
  | atom => 9

/-- The next tighter category, whose phrases are phrases of this one too. -/
def tighter : Category → Option Category
  | conditional => some disjunction
  | disjunction => some conjunction
  | conjunction => some comparison
  | comparison => some sum
  | sum => some product
  | product => some signed
  | signed => some power
  | power => some suffixed
  | suffixed => some atom
  | atom => none

lemma rank_injective {c d : Category} (h : c.rank = d.rank) : c = d := by
  cases c <;> cases d <;> first | rfl | exact absurd h (by decide)

lemma rank_le_of_tighter {c d : Category} (h : c.tighter = some d) : c.rank ≤ d.rank := by
  cases c <;> cases d <;> first | decide | exact absurd h (by simp [tighter])

/-- Where there is a tighter category, there is a next one. -/
lemma exists_tighter {c d : Category} (h : c.rank < d.rank) :
    ∃ b, c.tighter = some b ∧ b.rank = c.rank + 1 := by
  cases c with
  | atom => cases d <;> exact absurd h (by decide)
  | _ => exact ⟨_, rfl, rfl⟩

end Category

/-- The category of an operator with its operands. -/
def BinaryOp.category : BinaryOp → Category
  | .or => .disjunction
  | .and => .conjunction
  | .eq | .ne | .lt | .gt | .le | .ge => .comparison
  | .add | .sub => .sum
  | .mul | .div | .mod => .product
  | .pow => .power

/-- The category of the operand before an operator. -/
def BinaryOp.leftCategory : BinaryOp → Category
  | .pow => .suffixed
  | op => op.category

/-- The category of the operand after an operator. -/
def BinaryOp.rightCategory : BinaryOp → Category
  | .or => .conjunction
  | .and => .comparison
  | .eq | .ne | .lt | .gt | .le | .ge => .sum
  | .add | .sub => .product
  | .mul | .div | .mod | .pow => .signed

/-! ## Derivations -/

/-- From the start of the first to the stop of the last of some tokens. -/
def extentOf (ls : List Lexeme) : Span :=
  ⟨(ls.head?.map fun l => l.span.start).getD 0, (ls.getLast?.map fun l => l.span.stop).getD 0⟩

mutual

/-- Tokens are a phrase of a category and write an expression. -/
inductive Derives : Category → List Lexeme → Expr → Prop
  | conditional {cs ys ns : List Lexeme} {question colon : Lexeme} {c y n : Expr} :
    Derives .disjunction cs c → question.token = .mark .question → Derives .conditional ys y →
    colon.token = .mark .colon → Derives .conditional ns n →
    Derives .conditional (cs ++ question :: (ys ++ colon :: ns))
      (.conditional (extentOf (cs ++ question :: (ys ++ colon :: ns))) c y n)
  | binary {op : BinaryOp} {ls rs : List Lexeme} {sign : Lexeme} {l r : Expr} :
    Derives op.leftCategory ls l → sign.token = .mark op.mark → Derives op.rightCategory rs r →
    Derives op.category (ls ++ sign :: rs) (.binary (extentOf (ls ++ sign :: rs)) op l r)
  | unary {op : UnaryOp} {ls : List Lexeme} {sign : Lexeme} {e : Expr} :
    op ≠ .factorial → sign.token = .mark op.mark → Derives .signed ls e →
    Derives .signed (sign :: ls) (.unary (extentOf (sign :: ls)) op e)
  | factorial {ls : List Lexeme} {sign : Lexeme} {e : Expr} :
    Derives .suffixed ls e → sign.token = .mark .bang →
    Derives .suffixed (ls ++ [sign]) (.unary (extentOf (ls ++ [sign])) .factorial e)
  | number (s : Span) (x : Float) : Derives .atom [⟨.number x, s⟩] (.number s x)
  | text (s : Span) (t : String) : Derives .atom [⟨.text t, s⟩] (.text s t)
  | symbol (s : Span) (name : String) : Derives .atom [⟨.name name, s⟩] (.symbol s name)
  | call {f : String} {s : Span} {opening closing : Lexeme} {ls : List Lexeme}
      {args : List Expr} :
    opening.token = .mark .leftParen → DerivesArguments ls args →
    closing.token = .mark .rightParen →
    Derives .atom (⟨.name f, s⟩ :: opening :: (ls ++ [closing]))
      (.call (extentOf (⟨.name f, s⟩ :: opening :: (ls ++ [closing]))) f s args)
  | group {opening closing : Lexeme} {ls : List Lexeme} {e : Expr} :
    opening.token = .mark .leftParen → Derives .conditional ls e →
    closing.token = .mark .rightParen → Derives .atom (opening :: (ls ++ [closing])) e
  | tighter {c d : Category} {ls : List Lexeme} {e : Expr} :
    c.tighter = some d → Derives d ls e → Derives c ls e

/-- Tokens write the arguments of a call: expressions with commas between them, and perhaps one more
after the last. -/
inductive DerivesArguments : List Lexeme → List Expr → Prop
  | nil : DerivesArguments [] []
  | last {ls : List Lexeme} {e : Expr} : Derives .conditional ls e → DerivesArguments ls [e]
  | cons {ls rest : List Lexeme} {comma : Lexeme} {e : Expr} {es : List Expr} :
    Derives .conditional ls e → comma.token = .mark .comma → DerivesArguments rest es →
    DerivesArguments (ls ++ comma :: rest) (e :: es)

end

/-- **Tokens write an expression** by the grammar. -/
def Writes (ls : List Lexeme) (e : Expr) : Prop :=
  Derives .conditional ls e

/-! ## Phrases of looser categories -/

namespace Derives

variable {c d : Category} {ls : List Lexeme} {e : Expr}

theorem ne_nil : {c : Category} → {ls : List Lexeme} → {e : Expr} → Derives c ls e → ls ≠ []
  | _, _, _, conditional .. => by simp
  | _, _, _, binary .. => by simp
  | _, _, _, unary .. => by simp
  | _, _, _, factorial .. => by simp
  | _, _, _, number .. => by simp
  | _, _, _, text .. => by simp
  | _, _, _, symbol .. => by simp
  | _, _, _, call .. => by simp
  | _, _, _, group .. => by simp
  | _, _, _, tighter _ h => h.ne_nil

/-- A phrase is one of every looser category. -/
lemma loosen (h : Derives d ls e) (hcd : c.rank ≤ d.rank) : Derives c ls e := by
  obtain ⟨n, hn⟩ := Nat.exists_eq_add_of_le hcd
  induction n generalizing c with
  | zero =>
    obtain rfl := Category.rank_injective hn
    exact h
  | succ n ih =>
    obtain ⟨b, hc, hb⟩ := Category.exists_tighter (c := c) (d := d) (by omega)
    exact tighter hc (ih (by omega) (by omega))

end Derives

/-! ## Extents -/

/-- The extent of tokens goes from any first part of them to any last part. -/
lemma extentOf_eq_through {ls first last : List Lexeme} (hfirst : first <+: ls) (hlast : last <:+ ls)
    (hfirst' : first ≠ []) (hlast' : last ≠ []) :
    extentOf ls = (extentOf first).through (extentOf last) := by
  have hhead : ls.head? = first.head? := by
    obtain ⟨rest, rfl⟩ := hfirst
    rw [List.head?_append, List.head?_eq_some_head hfirst']
    rfl
  have hlast : ls.getLast? = last.getLast? := by
    obtain ⟨rest, rfl⟩ := hlast
    rw [List.getLast?_append, List.getLast?_eq_some_getLast hlast']
    rfl
  rw [extentOf, hhead, hlast]
  rfl

lemma extentOf_cons {l : Lexeme} {ls : List Lexeme} (h : ls ≠ []) :
    extentOf (l :: ls) = l.span.through (extentOf ls) := by
  have hthrough : extentOf (l :: ls) = (extentOf [l]).through (extentOf ls) :=
    extentOf_eq_through (List.prefix_append [l] ls) (List.suffix_cons l ls) (by simp) h
  rw [hthrough]
  rfl

end Formulary
