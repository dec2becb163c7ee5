import Formulary.Expr
import Formulary.Fault
/-!
# Expressions as trees

The second written form of an expression is a JSON value: a number stands for itself, a string names a
variable or a constant, and an array is an operation, its head first and its operands after it.
`Tree.toExpr` reads it, and `Tree.variableNames` lists the names of variables in a value, also in one that
cannot be read.
-/

namespace Formulary.Tree

/-! ## Names and heads -/

/-- The words of the vocabulary that stand for the constants of trees. -/
def constants : List (String × String) :=
  [("Pi", "pi"), ("ExponentialE", "e"), ("True", "true"), ("False", "false")]

/-- What an operation does with its operands. -/
inductive Head where
  /-- A prefix of one operand. -/
  | single (op : UnaryOp)
  /-- The difference of two operands, or the negative of one. -/
  | difference
  /-- An operator between two operands. -/
  | pair (op : BinaryOp)
  /-- An operator between two or more operands, grouped to the left. -/
  | chain (op : BinaryOp)
  | conditional
  /-- A call of a function. -/
  | function (name : String)
deriving DecidableEq

/-- The heads by name. -/
def heads : List (String × Head) := [
  ("Negate", .single .neg), ("Not", .single .not), ("Subtract", .difference),
  ("If", .conditional),
  ("Add", .chain .add), ("Multiply", .chain .mul), ("And", .chain .and), ("Or", .chain .or),
  ("Divide", .pair .div), ("Mod", .pair .mod), ("Power", .pair .pow),
  ("Equal", .pair .eq), ("NotEqual", .pair .ne), ("Less", .pair .lt), ("LessEqual", .pair .le),
  ("Greater", .pair .gt), ("GreaterEqual", .pair .ge),
  ("Abs", .function "abs"), ("Sqrt", .function "sqrt"), ("Exp", .function "exp"),
  ("Ln", .function "log"), ("Log", .function "log10"), ("Floor", .function "floor"),
  ("Ceil", .function "ceil"), ("Round", .function "round"), ("Min", .function "min"),
  ("Max", .function "max")]

/-- The span of all nodes of a tree. -/
def origin : Span :=
  .point 0

/-- The expression of operands to which a head is applied, if their number is right, or else the numbers
that are. -/
def Head.apply : Head → List Expr → Except Arity Expr
  | single op, [e] => .ok (.unary origin op e)
  | single _, _ => .error (.exactly 1)
  | difference, [e] => .ok (.unary origin .neg e)
  | difference, [l, r] => .ok (.binary origin .sub l r)
  | difference, _ => .error (.exactly 2)
  | pair op, [l, r] => .ok (.binary origin op l r)
  | pair _, _ => .error (.exactly 2)
  | chain op, e :: d :: es => .ok ((d :: es).foldl (Expr.binary origin op) e)
  | chain _, _ => .error (.atLeast 2)
  | conditional, [c, y, n] => .ok (.conditional origin c y n)
  | conditional, _ => .error (.exactly 3)
  | function name, es => .ok (.call origin name origin es)

/-- The expression of an operation. -/
def operation (head : String) (operands : List Expr) : Except TreeFault Expr :=
  match heads.lookup head with
  | none => .error (.unknownHead head)
  | some h => (h.apply operands).mapError fun wanted => .operandCount head wanted operands.length

/-- The expression of a string. -/
def leaf (name : String) : Except TreeFault Expr :=
  match constants.lookup name with
  | some word => .ok (.symbol origin word)
  | none =>
    if isName name then .ok (.symbol origin (identifierOf name)) else .error (.badName name)

/-! ## Reading trees -/

mutual

/-- The expression of a tree; operands are read before the head is looked at. -/
def toExpr : Json → Except TreeFault Expr
  | .number n => .ok (.number origin n.toFloat)
  | .string name => leaf name
  | .array (.string head :: operands) => do operation head (← toExprs operands)
  | .array _ => .error .noHead
  | v => .error (.notTree v)

/-- The expressions of operands. -/
def toExprs : List Json → Except TreeFault (List Expr)
  | [] => .ok []
  | v :: vs => do return (← toExpr v) :: (← toExprs vs)

end

mutual

/-- The names of variables in a value, in order. Whatever stands first in an array is no name. -/
def names : Json → List String
  | .string name => if (constants.lookup name).isNone && isName name then [name] else []
  | .array (_ :: operands) => namesOfAll operands
  | _ => []

/-- The names of variables in values. -/
def namesOfAll : List Json → List String
  | [] => []
  | v :: vs => names v ++ namesOfAll vs

end

/-- The distinct names of variables in a value, in ascending order. -/
def variableNames (v : Json) : List String :=
  sortedNames (names v)

end Formulary.Tree
