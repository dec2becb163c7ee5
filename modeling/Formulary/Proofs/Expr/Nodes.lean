import Formulary.Expr
import Mathlib.Tactic.Common
/-!
# The nodes and the variables of an expression

Induction over expressions in which the arguments of a call are one case (`Expr.induct`), the
nodes of an expression by its outermost form, and the variables that an expression mentions
(`Expr.mentions`).
-/

namespace Formulary
namespace Expr

/-! ## Induction -/

/-- Induction over expressions; the hypothesis of a call speaks of each of its arguments. -/
@[elab_as_elim, induction_eliminator]
theorem induct {motive : Expr → Prop}
    (number : ∀ s x, motive (number s x)) (text : ∀ s t, motive (text s t))
    (symbol : ∀ s name, motive (symbol s name))
    (binary : ∀ s op l r, motive l → motive r → motive (binary s op l r))
    (unary : ∀ s op e, motive e → motive (unary s op e))
    (conditional : ∀ s c y n, motive c → motive y → motive n → motive (conditional s c y n))
    (call : ∀ s f nameSpan args, (∀ a ∈ args, motive a) → motive (call s f nameSpan args))
    (e : Expr) : motive e := by
  refine @Expr.rec motive (fun es => ∀ a ∈ es, motive a)
    number text symbol binary unary conditional call ?_ ?_ e
  · intro a ha
    exact absurd ha List.not_mem_nil
  · intro e es he hes a ha
    rcases List.mem_cons.1 ha with rfl | ha
    · exact he
    · exact hes a ha

/-! ## Nodes by the outermost form -/

lemma nodesOfAll_eq_flatMap (es : List Expr) : nodesOfAll es = es.flatMap nodes := by
  induction es with
  | nil => rfl
  | cons e es ih => rw [nodesOfAll, ih, List.flatMap_cons]

lemma mem_nodesOfAll {e : Expr} {es : List Expr} : e ∈ nodesOfAll es ↔ ∃ a ∈ es, e ∈ a.nodes := by
  rw [nodesOfAll_eq_flatMap, List.mem_flatMap]

lemma self_mem_nodes (e : Expr) : e ∈ e.nodes := by
  cases e <;> simp [nodes]

section
variable {e l r c y n : Expr} {s nameSpan : Span} {args : List Expr} {f : String}

@[simp] lemma mem_nodes_number {x : Float} : e ∈ (number s x).nodes ↔ e = number s x := by
  simp [nodes]

@[simp] lemma mem_nodes_text {t : String} : e ∈ (text s t).nodes ↔ e = text s t := by
  simp [nodes]

@[simp] lemma mem_nodes_symbol {name : String} : e ∈ (symbol s name).nodes ↔ e = symbol s name := by
  simp [nodes]

@[simp] lemma mem_nodes_binary {op : BinaryOp} :
    e ∈ (binary s op l r).nodes ↔ e = binary s op l r ∨ e ∈ l.nodes ∨ e ∈ r.nodes := by
  simp [nodes]

@[simp] lemma mem_nodes_unary {op : UnaryOp} :
    e ∈ (unary s op l).nodes ↔ e = unary s op l ∨ e ∈ l.nodes := by
  simp [nodes]

@[simp] lemma mem_nodes_conditional :
    e ∈ (conditional s c y n).nodes ↔
      e = conditional s c y n ∨ e ∈ c.nodes ∨ e ∈ y.nodes ∨ e ∈ n.nodes := by
  simp [nodes]

@[simp] lemma mem_nodes_call :
    e ∈ (call s f nameSpan args).nodes ↔
      e = call s f nameSpan args ∨ ∃ a ∈ args, e ∈ a.nodes := by
  simp [nodes, mem_nodesOfAll]

end

/-! ## Variables -/

/-- The variable that a node by itself mentions. -/
def mention? : Expr → Option String
  | symbol _ name => variableOf? name
  | _ => none

/-- The variables that an expression mentions, in preorder and as often as they stand there. -/
def mentions (e : Expr) : List String :=
  e.nodes.filterMap mention?

lemma mem_mentions {e : Expr} {v : String} :
    v ∈ e.mentions ↔ ∃ s name, symbol s name ∈ e.nodes ∧ variableOf? name = some v := by
  rw [mentions, List.mem_filterMap]
  constructor
  · rintro ⟨node, hnode, hv⟩
    cases node with
    | symbol s name => exact ⟨s, name, hnode, hv⟩
    | _ => simp [mention?] at hv
  · rintro ⟨s, name, hnode, hv⟩
    exact ⟨symbol s name, hnode, hv⟩

section
variable {l r c y n : Expr} {s nameSpan : Span} {args : List Expr}

@[simp] lemma mentions_symbol {name : String} :
    (symbol s name).mentions = (variableOf? name).toList := by
  cases h : variableOf? name <;> simp [mentions, nodes, mention?, h]

@[simp] lemma mentions_binary {op : BinaryOp} :
    (binary s op l r).mentions = l.mentions ++ r.mentions := by
  rw [mentions, nodes, List.filterMap_cons_none rfl, List.filterMap_append]
  rfl

@[simp] lemma mentions_unary {op : UnaryOp} : (unary s op l).mentions = l.mentions := by
  rw [mentions, nodes, List.filterMap_cons_none rfl]
  rfl

@[simp] lemma mentions_conditional :
    (conditional s c y n).mentions = c.mentions ++ y.mentions ++ n.mentions := by
  rw [mentions, nodes, List.filterMap_cons_none rfl, List.filterMap_append, List.filterMap_append]
  rfl

@[simp] lemma mentions_call {f : String} :
    (call s f nameSpan args).mentions = args.flatMap mentions := by
  rw [mentions, nodes, List.filterMap_cons_none rfl, nodesOfAll_eq_flatMap, List.filterMap_flatMap]
  rfl

end

end Expr
end Formulary
