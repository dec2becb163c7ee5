import Formulary.Token
/-!
# Expressions

The trees that the two written forms of the language are read into. Each node has the span of the text
it was read from; parentheses leave no node.

`Expr.nodes` lists a tree in preorder, a call before its arguments, and `Expr.depth` is the number of
nodes on its longest branch. `Expr.exceeds` tells whether the depth is above a limit without going
below it (`exceeds_iff`), and `Expr.first?` searches the nodes in preorder without listing them
(`first?_eq`).
-/

namespace Formulary

/-- Operators between two operands. -/
inductive BinaryOp where
  | add | sub | mul | div | mod | pow
  | eq | ne | lt | gt | le | ge
  | and | or
deriving DecidableEq

/-- Operators with one operand; the factorial follows it, the others precede it. -/
inductive UnaryOp where
  | neg | plus | not | factorial
deriving DecidableEq

/-- The mark that writes an operator. -/
def BinaryOp.mark : BinaryOp → Mark
  | add => .plus
  | sub => .minus
  | mul => .star
  | div => .slash
  | mod => .percent
  | pow => .caret
  | eq => .equal
  | ne => .notEqual
  | lt => .less
  | gt => .greater
  | le => .lessEqual
  | ge => .greaterEqual
  | and => .and
  | or => .or

/-- The mark that writes an operator. -/
def UnaryOp.mark : UnaryOp → Mark
  | neg => .minus
  | plus => .plus
  | not => .not
  | factorial => .bang

/-- Expressions. -/
inductive Expr where
  | number (span : Span) (value : Float)
  | text (span : Span) (value : String)
  | symbol (span : Span) (name : String)
  | binary (span : Span) (op : BinaryOp) (left right : Expr)
  | unary (span : Span) (op : UnaryOp) (operand : Expr)
  | conditional (span : Span) (condition yes no : Expr)
  | call (span : Span) (function : String) (nameSpan : Span) (arguments : List Expr)

namespace Expr

/-- The span of the outermost node. -/
def span : Expr → Span
  | number s _ | text s _ | symbol s _ | binary s .. | unary s .. | conditional s .. | call s .. => s

/-! ## Depth -/

mutual

/-- The number of nodes on the longest branch. -/
def depth : Expr → Nat
  | number .. | text .. | symbol .. => 1
  | binary _ _ l r => max l.depth r.depth + 1
  | unary _ _ e => e.depth + 1
  | conditional _ c y n => max (max c.depth y.depth) n.depth + 1
  | call _ _ _ args => greatestDepth args + 1

/-- The greatest depth of a list, zero of the empty one. -/
def greatestDepth : List Expr → Nat
  | [] => 0
  | e :: es => max e.depth (greatestDepth es)

end

mutual

/-- Whether the depth is above a limit. -/
def exceeds (limit : Nat) : Expr → Bool
  | number .. | text .. | symbol .. => limit = 0
  | binary _ _ l r => limit = 0 || l.exceeds (limit - 1) || r.exceeds (limit - 1)
  | unary _ _ e => limit = 0 || e.exceeds (limit - 1)
  | conditional _ c y n =>
    limit = 0 || c.exceeds (limit - 1) || y.exceeds (limit - 1) || n.exceeds (limit - 1)
  | call _ _ _ args => limit = 0 || anyExceeds (limit - 1) args

/-- Whether the depth of a member of a list is above a limit. -/
def anyExceeds (limit : Nat) : List Expr → Bool
  | [] => false
  | e :: es => e.exceeds limit || anyExceeds limit es

end

mutual

theorem exceeds_iff (limit : Nat) : (e : Expr) → (e.exceeds limit = true ↔ limit < e.depth)
  | number .. | text .. | symbol .. => by simp [exceeds, depth]
  | binary _ _ l r => by
    have hl := exceeds_iff (limit - 1) l
    have hr := exceeds_iff (limit - 1) r
    simp only [exceeds, depth, Bool.or_eq_true, decide_eq_true_eq, hl, hr]
    omega
  | unary _ _ e => by
    have he := exceeds_iff (limit - 1) e
    simp only [exceeds, depth, Bool.or_eq_true, decide_eq_true_eq, he]
    omega
  | conditional _ c y n => by
    have hc := exceeds_iff (limit - 1) c
    have hy := exceeds_iff (limit - 1) y
    have hn := exceeds_iff (limit - 1) n
    simp only [exceeds, depth, Bool.or_eq_true, decide_eq_true_eq, hc, hy, hn]
    omega
  | call _ _ _ args => by
    have h := anyExceeds_iff (limit - 1) args
    simp only [exceeds, depth, Bool.or_eq_true, decide_eq_true_eq, h]
    omega

theorem anyExceeds_iff (limit : Nat) :
    (es : List Expr) → (anyExceeds limit es = true ↔ limit < greatestDepth es)
  | [] => by simp [anyExceeds, greatestDepth]
  | e :: es => by
    have he := exceeds_iff limit e
    have hes := anyExceeds_iff limit es
    simp only [anyExceeds, greatestDepth, Bool.or_eq_true, he, hes]
    omega

end

/-! ## Preorder -/

mutual

/-- The nodes in preorder, each with all that is below it. -/
def nodes : Expr → List Expr
  | e@(number ..) | e@(text ..) | e@(symbol ..) => [e]
  | e@(binary _ _ l r) => e :: (l.nodes ++ r.nodes)
  | e@(unary _ _ x) => e :: x.nodes
  | e@(conditional _ c y n) => e :: (c.nodes ++ y.nodes ++ n.nodes)
  | e@(call _ _ _ args) => e :: nodesOfAll args

/-- The nodes of the members of a list. -/
def nodesOfAll : List Expr → List Expr
  | [] => []
  | e :: es => e.nodes ++ nodesOfAll es

end

mutual

/-- The first answer that a question about nodes gets, in preorder. -/
def first? {α : Type} (ask : Expr → Option α) : Expr → Option α
  | e@(number ..) | e@(text ..) | e@(symbol ..) => ask e
  | e@(binary _ _ l r) => (ask e).or ((l.first? ask).or (r.first? ask))
  | e@(unary _ _ x) => (ask e).or (x.first? ask)
  | e@(conditional _ c y n) => (ask e).or ((c.first? ask).or ((y.first? ask).or (n.first? ask)))
  | e@(call _ _ _ args) => (ask e).or (firstOfAll? ask args)

/-- The first answer among the members of a list. -/
def firstOfAll? {α : Type} (ask : Expr → Option α) : List Expr → Option α
  | [] => none
  | e :: es => (e.first? ask).or (firstOfAll? ask es)

end

mutual

theorem first?_eq {α : Type} (ask : Expr → Option α) :
    (e : Expr) → e.first? ask = e.nodes.findSome? ask
  | number .. | text .. | symbol .. => by
    simp only [first?, nodes, List.findSome?_cons, List.findSome?_nil]
    cases ask _ <;> rfl
  | binary _ _ l r => by
    simp only [first?, nodes, List.findSome?_cons, List.findSome?_append, first?_eq ask l,
      first?_eq ask r]
    cases ask _ <;> rfl
  | unary _ _ x => by
    simp only [first?, nodes, List.findSome?_cons, first?_eq ask x]
    cases ask _ <;> rfl
  | conditional _ c y n => by
    simp only [first?, nodes, List.findSome?_cons, List.findSome?_append, first?_eq ask c,
      first?_eq ask y, first?_eq ask n]
    cases ask _ <;> simp [Option.or_assoc]
  | call _ _ _ args => by
    simp only [first?, nodes, List.findSome?_cons, firstOfAll?_eq ask args]
    cases ask _ <;> rfl

theorem firstOfAll?_eq {α : Type} (ask : Expr → Option α) :
    (es : List Expr) → firstOfAll? ask es = (nodesOfAll es).findSome? ask
  | [] => rfl
  | e :: es => by
    simp only [firstOfAll?, nodesOfAll, List.findSome?_append, first?_eq ask e,
      firstOfAll?_eq ask es]

end

/-! ## Without positions -/

mutual

/-- The same tree with all spans at the beginning of the text. -/
def bare : Expr → Expr
  | number _ x => number (.point 0) x
  | text _ s => text (.point 0) s
  | symbol _ s => symbol (.point 0) s
  | binary _ op l r => binary (.point 0) op l.bare r.bare
  | unary _ op e => unary (.point 0) op e.bare
  | conditional _ c y n => conditional (.point 0) c.bare y.bare n.bare
  | call _ f _ args => call (.point 0) f (.point 0) (bareAll args)

/-- The members of a list with all spans at the beginning of the text. -/
def bareAll : List Expr → List Expr
  | [] => []
  | e :: es => e.bare :: bareAll es

end

end Expr

end Formulary
