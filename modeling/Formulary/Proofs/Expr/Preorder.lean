import Formulary.Proofs.Expr.Nodes
/-!
# Places in an expression

A place is the way from the top of an expression down to one of its nodes (`Expr.nodeAt?`). Places are
compared as sequences of numbers: a node comes before all that is below it, and what is below one operand
before what is below the next. In this order `Expr.first?` gives the answer of the first node that has
one (`Expr.first?_eq_some_iff`).
-/

namespace Formulary

/-- The first answer of a list is that of a member before which no other has one. -/
lemma findSome?_eq_some_iff_getElem? {α β : Type} {f : α → Option β} {as : List α} {b : β} :
    as.findSome? f = some b ↔
      ∃ (k : Nat) (a : α), as[k]? = some a ∧ f a = some b ∧
        ∀ j < k, ∀ c, as[j]? = some c → f c = none := by
  rw [List.findSome?_eq_some_iff]
  constructor
  · rintro ⟨left, a, right, rfl, ha, hleft⟩
    refine ⟨left.length, a, by simp, ha, fun j hj c hc => hleft c ?_⟩
    rw [List.getElem?_append_left hj] at hc
    exact List.mem_of_getElem? hc
  · rintro ⟨k, a, hk, ha, hbefore⟩
    obtain ⟨hlt, rfl⟩ := List.getElem?_eq_some_iff.1 hk
    refine ⟨as.take k, as[k], as.drop (k + 1), by simp, ha, fun c hc => ?_⟩
    obtain ⟨j, hj, rfl⟩ := List.mem_take_iff_getElem.1 hc
    exact hbefore j (by omega) _ (List.getElem?_eq_getElem _)

namespace Expr

/-! ## Operands and places -/

/-- The expressions right below a node, from left to right; those of a call are its arguments. -/
def operands : Expr → List Expr
  | number .. | text .. | symbol .. => []
  | binary _ _ l r => [l, r]
  | unary _ _ e => [e]
  | conditional _ c y n => [c, y, n]
  | call _ _ _ args => args

/-- The node at a place: at each node on the way to it, the number of the operand to go on to. -/
def nodeAt? (e : Expr) : List Nat → Option Expr
  | [] => some e
  | k :: place => e.operands[k]?.bind fun d => d.nodeAt? place

/-- One place comes before another. -/
def Earlier : List Nat → List Nat → Prop :=
  List.Lex (· < ·)

/-- The first node with a property, and its place. -/
structure First (e : Expr) (P : Expr → Prop) (place : List Nat) (n : Expr) : Prop where
  at_place : e.nodeAt? place = some n
  holds : P n
  earlier : ∀ before, Earlier before place → ∀ m, e.nodeAt? before = some m → ¬ P m

/-- Induction over expressions by their operands. -/
theorem induct_operands {motive : Expr → Prop} (h : ∀ e, (∀ d ∈ e.operands, motive d) → motive e)
    (e : Expr) : motive e := by
  induction e with
  | call s f nameSpan args hargs => exact h _ hargs
  | _ => exact h _ (by simp_all [operands])

lemma nodes_eq (e : Expr) : e.nodes = e :: e.operands.flatMap nodes := by
  cases e with
  | call s f nameSpan args => rw [nodes, nodesOfAll_eq_flatMap, operands]
  | _ => simp [nodes, operands]

/-- Each node has a place, and there is nothing but nodes at places. -/
theorem mem_nodes_iff_nodeAt? {e n : Expr} : n ∈ e.nodes ↔ ∃ place, e.nodeAt? place = some n := by
  induction e using induct_operands with
  | h e ih =>
    rw [nodes_eq, List.mem_cons, List.mem_flatMap]
    constructor
    · rintro (rfl | ⟨d, hd, hn⟩)
      · exact ⟨[], rfl⟩
      · obtain ⟨place, hplace⟩ := (ih d hd).1 hn
        obtain ⟨k, hk⟩ := List.mem_iff_getElem?.1 hd
        exact ⟨k :: place, by rw [nodeAt?, hk, Option.bind_some, hplace]⟩
    · rintro ⟨_ | ⟨k, place⟩, hplace⟩
      · exact .inl (Option.some.inj hplace).symm
      · obtain ⟨d, hk, hd⟩ := Option.bind_eq_some_iff.1 hplace
        have hmem := List.mem_of_getElem? hk
        exact .inr ⟨d, hmem, (ih d hmem).2 ⟨place, hd⟩⟩

/-! ## The first answer -/

section
variable {α : Type} {ask : Expr → Option α} {a : α} {e : Expr}

/-- The top is asked before the operands, and these from left to right. -/
lemma first?_eq_operands (e : Expr) : e.first? ask = (ask e).or (e.operands.findSome? (first? ask)) := by
  have hoperands : ∀ es : List Expr,
      (es.flatMap nodes).findSome? ask = es.findSome? (first? ask) := by
    intro es
    induction es with
    | nil => rfl
    | cons d es ih =>
      rw [List.flatMap_cons, List.findSome?_append, ih, ← first?_eq, List.findSome?_cons]
      cases d.first? ask <;> rfl
  rw [first?_eq, nodes_eq, List.findSome?_cons, hoperands]
  cases ask e <;> rfl

theorem first?_eq_none_iff : e.first? ask = none ↔ ∀ n ∈ e.nodes, ask n = none := by
  rw [first?_eq, List.findSome?_eq_none_iff]

/-- The answer is that of the first node in preorder that has one. -/
theorem first?_eq_some_iff : e.first? ask = some a ↔
    ∃ place n, ask n = some a ∧ e.First (fun m => ask m ≠ none) place n := by
  induction e using induct_operands with
  | h e ih =>
    rw [first?_eq_operands]
    constructor
    · intro h
      rcases htop : ask e with _ | b
      · rw [htop, Option.none_or, findSome?_eq_some_iff_getElem?] at h
        obtain ⟨k, d, hk, hd, hleft⟩ := h
        obtain ⟨place, n, hn, hfirst⟩ := (ih d (List.mem_of_getElem? hk)).1 hd
        refine ⟨k :: place, n, hn, ?_, by simp [hn], ?_⟩
        · rw [nodeAt?, hk, Option.bind_some, hfirst.at_place]
        intro before hbefore m hm
        rw [not_not]
        cases hbefore with
        | nil => exact Option.some.inj hm ▸ htop
        | @cons _ before _ hbefore =>
          rw [nodeAt?, hk, Option.bind_some] at hm
          exact not_not.1 (hfirst.earlier before hbefore m hm)
        | @rel j before _ _ hj =>
          obtain ⟨c, hc, hm⟩ := Option.bind_eq_some_iff.1 hm
          exact first?_eq_none_iff.1 (hleft j hj c hc) m (mem_nodes_iff_nodeAt?.2 ⟨before, hm⟩)
      · rw [htop, Option.some_or] at h
        refine ⟨[], e, by rw [htop, h], rfl, by simp [htop], fun before hbefore => ?_⟩
        exact absurd hbefore List.not_lex_nil
    · rintro ⟨_ | ⟨k, place⟩, n, hn, hat, hsome, hearlier⟩
      · obtain rfl := Option.some.inj hat
        rw [hn, Option.some_or]
      · have htop : ask e = none := not_not.1 (hearlier [] .nil e rfl)
        obtain ⟨d, hk, hd⟩ := Option.bind_eq_some_iff.1 hat
        rw [htop, Option.none_or, findSome?_eq_some_iff_getElem?]
        refine ⟨k, d, hk, ?_, fun j hj c hc => first?_eq_none_iff.2 fun m hm => ?_⟩
        · refine (ih d (List.mem_of_getElem? hk)).2 ⟨place, n, hn, hd, hsome, fun before hb m hm => ?_⟩
          exact hearlier (k :: before) (.cons hb) m (by rw [nodeAt?, hk, Option.bind_some, hm])
        · -- what is below an operand to the left comes before the place
          obtain ⟨before, hm⟩ := mem_nodes_iff_nodeAt?.1 hm
          exact not_not.1 (hearlier (j :: before) (.rel hj) m (by rw [nodeAt?, hc, Option.bind_some, hm]))

end

end Expr
end Formulary
