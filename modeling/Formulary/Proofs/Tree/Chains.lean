import Formulary.Proofs.Expr.Faults
import Formulary.Proofs.Formula.Compilation
/-!
# Chains of operands

Some heads of trees join two operands or more. A chain is read as its operands grouped to the left, so
that the first is under all operators; but it means what a rule says of the list of operands, taken from
left to right (`ChainRule.Gives`): the first that fails or settles the matter is the last that is taken,
and if there is none then the numbers of all of them are joined.

An operator keeps to a rule if it does so with two numbers (`ChainRule.Governs`). By induction on the
list, what is on the left of an operator has come to a number that settles nothing as long as the
operands settle nothing (`ChainRule.Governs.foldl_of_pass`), and what fails or is settled stays so
(`Expr.foldl_of_error`, `ChainRule.Governs.foldl_of_settled`).
-/

namespace Formulary

open Arithmetic Result

/-! ## Rules for lists of operands -/

/-- What a chain makes of its operands. -/
structure ChainRule where
  /-- What the number of one operand settles, whatever comes after it. -/
  settled? : Float → Option Float
  /-- What comes of the numbers of all operands, the first and the others. -/
  whole : Float → List Float → Float

namespace ChainRule

/-- Whether all operands are true: one that is not settles it. -/
def conjunction : ChainRule where
  settled? x := if truthy x then none else some 0.0
  whole _ _ := 1.0

/-- Whether an operand is true: one that is settles it. -/
def disjunction : ChainRule where
  settled? x := if truthy x then some 1.0 else none
  whole _ _ := 0.0

/-- The sum from left to right. -/
def sum : ChainRule where
  settled? _ := none
  whole := List.foldl (· + ·)

/-- The product from left to right. -/
def product : ChainRule where
  settled? _ := none
  whole := List.foldl (· * ·)

/-- Operands come to numbers of which none settles anything. -/
def Pass (rule : ChainRule) (scope : Scope) (es : List Expr) (xs : List Float) : Prop :=
  List.Forall₂ (fun e x => e.value scope = .ok x ∧ rule.settled? x = none) es xs

lemma Pass.settled?_eq_none {rule : ChainRule} {scope : Scope} {es : List Expr} {xs : List Float}
    (h : rule.Pass scope es xs) : ∀ x ∈ xs, rule.settled? x = none := by
  induction h with
  | nil => exact List.forall_mem_nil _
  | cons hx _ ih => exact List.forall_mem_cons.2 ⟨hx.2, ih⟩

/-- What a list of operands comes to, and the operands that are taken for it. -/
inductive Gives (rule : ChainRule) (scope : Scope) :
    List Expr → List Expr → Except Fault Float → Prop
  /-- An operand fails; what comes after it does not matter. -/
  | fails {before after : List Expr} {e : Expr} {xs : List Float} {fault : Fault} :
    rule.Pass scope before xs → e.value scope = .error fault →
    Gives rule scope (before ++ e :: after) (before ++ [e]) (.error fault)
  /-- An operand settles it; what comes after it does not matter. -/
  | settled {before after : List Expr} {e : Expr} {xs : List Float} {x y : Float} :
    rule.Pass scope before xs → e.value scope = .ok x → rule.settled? x = some y →
    Gives rule scope (before ++ e :: after) (before ++ [e]) (.ok y)
  | whole {es : List Expr} {x : Float} {xs : List Float} :
    rule.Pass scope es (x :: xs) → Gives rule scope es es (.ok (rule.whole x xs))

/-- An operator keeps to a rule with two numbers, and joins more of them as the rule does. -/
structure Governs (rule : ChainRule) (op : BinaryOp) : Prop where
  decided : op.decided? = rule.settled?
  /-- What is settled stays so. -/
  settled : ∀ x y, rule.settled? x = some y → rule.settled? y = some y
  right : ∀ x y z, rule.settled? x = none → rule.settled? y = some z → op.apply x y = z
  pass : ∀ x y, rule.settled? x = none → rule.settled? y = none → rule.settled? (op.apply x y) = none
  whole : ∀ x xs, xs ≠ [] → (∀ y ∈ x :: xs, rule.settled? y = none) →
    xs.foldl op.apply x = rule.whole x xs

end ChainRule

/-! ## One operator -/

namespace Expr

variable {scope : Scope} {l e : Expr} {op : BinaryOp} {x y : Float} {fault : Fault} (s : Span)

lemma binary_of_error (op : BinaryOp) (r : Expr) (h : l.value scope = .error fault) :
    (binary s op l r).value scope = .error fault ∧
      (binary s op l r).reads scope = l.reads scope := by
  rw [value, reads, h]
  exact ⟨rfl, List.append_nil _⟩

lemma binary_of_decided (r : Expr) (h : l.value scope = .ok x) (hd : op.decided? x = some y) :
    (binary s op l r).value scope = .ok y ∧ (binary s op l r).reads scope = l.reads scope := by
  rw [value, reads, h, ok_bind, hd]
  exact ⟨rfl, by simp [hd]⟩

lemma binary_of_undecided (r : Expr) (h : l.value scope = .ok x) (hd : op.decided? x = none) :
    (binary s op l r).value scope = (r.value scope >>= fun y => .ok (op.apply x y)) ∧
      (binary s op l r).reads scope = l.reads scope ++ r.reads scope := by
  rw [value, reads, h, ok_bind, hd]
  exact ⟨rfl, by simp [hd]⟩

/-- An operand that fails does so under any operators. -/
lemma foldl_of_error (op : BinaryOp) (es : List Expr) (h : e.value scope = .error fault) :
    (es.foldl (binary s op) e).value scope = .error fault ∧
      (es.foldl (binary s op) e).reads scope = e.reads scope := by
  induction es generalizing e with
  | nil => exact ⟨h, rfl⟩
  | cons d es ih =>
    obtain ⟨hvalue, hreads⟩ := binary_of_error s op d h
    rw [← hreads]
    exact ih hvalue

end Expr

/-! ## Chains of operators -/

namespace ChainRule

open Formulary.Expr (binary_of_error binary_of_decided binary_of_undecided foldl_of_error)

variable {rule : ChainRule} {op : BinaryOp} {scope : Scope} {e : Expr} {es taken : List Expr}
  {x y : Float} {xs : List Float} {r : Except Fault Float}

/-- What is settled stays so under any operators. -/
lemma Governs.foldl_of_settled (hrule : rule.Governs op) (s : Span) (es : List Expr)
    (h : e.value scope = .ok y) (hy : rule.settled? y = some y) :
    (es.foldl (Expr.binary s op) e).value scope = .ok y ∧
      (es.foldl (Expr.binary s op) e).reads scope = e.reads scope := by
  induction es generalizing e with
  | nil => exact ⟨h, rfl⟩
  | cons d es ih =>
    have hd : op.decided? y = some y := by rw [hrule.decided, hy]
    obtain ⟨hvalue, hreads⟩ := binary_of_decided s d h hd
    rw [← hreads]
    exact ih hvalue

/-- Operands that settle nothing are all taken, and their numbers are joined. -/
lemma Governs.foldl_of_pass (hrule : rule.Governs op) (s : Span) (h : e.value scope = .ok x)
    (hx : rule.settled? x = none) (hes : rule.Pass scope es xs) :
    (es.foldl (Expr.binary s op) e).value scope = .ok (xs.foldl op.apply x) ∧
      rule.settled? (xs.foldl op.apply x) = none ∧
      (es.foldl (Expr.binary s op) e).reads scope = (e :: es).flatMap (Expr.reads scope) := by
  induction hes generalizing e x with
  | nil => exact ⟨h, hx, by simp⟩
  | @cons d y es xs hd _ ih =>
    obtain ⟨hvalue, hreads⟩ :=
      binary_of_undecided s d h (by rw [hrule.decided, hx])
    rw [hd.1, ok_bind] at hvalue
    obtain ⟨hfold, hsettled, htaken⟩ := ih hvalue (hrule.pass x y hx hd.2)
    refine ⟨hfold, hsettled, ?_⟩
    rw [List.foldl_cons, htaken, List.flatMap_cons, hreads, List.flatMap_cons, List.flatMap_cons,
      List.append_assoc]

/-- The operator after operands that settle nothing takes the next one. -/
lemma Governs.binary_of_pass (hrule : rule.Governs op) (s : Span) (d : Expr)
    (h : e.value scope = .ok x) (hx : rule.settled? x = none) (hes : rule.Pass scope es xs) :
    ∃ z,
    rule.settled? z = none ∧
    (Expr.binary s op (es.foldl (Expr.binary s op) e) d).value scope =
      (d.value scope >>= fun y => .ok (op.apply z y)) ∧
    (Expr.binary s op (es.foldl (Expr.binary s op) e) d).reads scope =
      (e :: es ++ [d]).flatMap (Expr.reads scope) := by
  obtain ⟨hvalue, hsettled, hreads⟩ := hrule.foldl_of_pass s h hx hes
  obtain ⟨hjoined, htaken⟩ :=
    binary_of_undecided s d hvalue (by rw [hrule.decided, hsettled])
  refine ⟨_, hsettled, hjoined, ?_⟩
  rw [htaken, hreads, List.flatMap_append, List.flatMap_singleton]

/-- A chain of two operands or more comes to what the rule says, and takes the operands it says. -/
theorem Governs.foldl_of_gives (hrule : rule.Governs op) (s : Span) (hne : es ≠ [])
    (h : rule.Gives scope (e :: es) taken r) :
    (es.foldl (Expr.binary s op) e).value scope = r ∧
      (es.foldl (Expr.binary s op) e).reads scope = taken.flatMap (Expr.reads scope) := by
  generalize hlist : e :: es = list at h
  cases h with
  | @fails before after c xs fault hbefore hc =>
    cases hbefore with
    | nil =>
      obtain ⟨rfl, rfl⟩ := List.cons.inj hlist
      simpa using foldl_of_error s op es hc
    | cons hb hbs =>
      rw [List.cons_append] at hlist
      obtain ⟨rfl, rfl⟩ := List.cons.inj hlist
      obtain ⟨z, -, hjoined, htaken⟩ := hrule.binary_of_pass s c hb.1 hb.2 hbs
      rw [hc, error_bind] at hjoined
      rw [List.foldl_append, List.foldl_cons, ← htaken]
      exact foldl_of_error s op after hjoined
  | @settled before after c xs x y hbefore hc hy =>
    have hstays := hrule.settled x y hy
    cases hbefore with
    | nil =>
      obtain ⟨rfl, rfl⟩ := List.cons.inj hlist
      obtain ⟨d, ds, rfl⟩ := List.exists_cons_of_ne_nil hne
      obtain ⟨hjoined, htaken⟩ :=
        binary_of_decided s d hc (by rw [hrule.decided, hy])
      rw [List.foldl_cons, List.nil_append, List.flatMap_singleton, ← htaken]
      exact hrule.foldl_of_settled s ds hjoined hstays
    | cons hb hbs =>
      rw [List.cons_append] at hlist
      obtain ⟨rfl, rfl⟩ := List.cons.inj hlist
      obtain ⟨z, hz, hjoined, htaken⟩ := hrule.binary_of_pass s c hb.1 hb.2 hbs
      rw [hc, ok_bind, hrule.right z x y hz hy] at hjoined
      rw [List.foldl_append, List.foldl_cons, ← htaken]
      exact hrule.foldl_of_settled s after hjoined hstays
  | @whole _ x xs hpass =>
    subst hlist
    obtain ⟨hb, hbs⟩ := List.forall₂_cons.1 hpass
    obtain ⟨hvalue, -, hreads⟩ := hrule.foldl_of_pass s hb.1 hb.2 hbs
    have hxs : xs ≠ [] := by
      rintro rfl
      exact hne (List.forall₂_nil_right_iff.1 hbs)
    rw [hvalue, hrule.whole x xs hxs hpass.settled?_eq_none]
    exact ⟨rfl, hreads⟩

/-- All operands pass, or there is a first one that does not. -/
lemma pass_or_first (rule : ChainRule) (scope : Scope) (es : List Expr) :
    (∃ xs, rule.Pass scope es xs) ∨
      ∃ before e after xs, es = before ++ e :: after ∧ rule.Pass scope before xs ∧
        ∀ x, e.value scope = .ok x → rule.settled? x ≠ none := by
  induction es with
  | nil => exact .inl ⟨[], .nil⟩
  | cons e es ih =>
    by_cases hpass : ∃ x, e.value scope = .ok x ∧ rule.settled? x = none
    · obtain ⟨x, hx⟩ := hpass
      rcases ih with ⟨xs, hxs⟩ | ⟨before, c, after, xs, rfl, hxs, hc⟩
      · exact .inl ⟨x :: xs, .cons hx hxs⟩
      · exact .inr ⟨e :: before, c, after, x :: xs, rfl, .cons hx hxs, hc⟩
    · exact .inr ⟨[], e, es, [], rfl, .nil, fun x hx hnone => hpass ⟨x, hx, hnone⟩⟩

/-- Operands always come to something. -/
lemma exists_gives (rule : ChainRule) (scope : Scope) (hne : es ≠ []) :
    ∃ taken r, rule.Gives scope es taken r := by
  rcases rule.pass_or_first scope es with ⟨xs, hxs⟩ | ⟨before, e, after, xs, rfl, hxs, he⟩
  · cases hxs with
    | nil => exact absurd rfl hne
    | cons hx hxs => exact ⟨_, _, .whole (.cons hx hxs)⟩
  · rcases hvalue : e.value scope with fault | x
    · exact ⟨_, _, .fails hxs hvalue⟩
    · obtain ⟨y, hy⟩ := Option.ne_none_iff_exists'.1 (he x hvalue)
      exact ⟨_, _, .settled hxs hvalue hy⟩

/-! ## The four rules -/

@[simp] lemma truthy_ofBool (b : Bool) : truthy (ofBool b) = b := by
  cases b <;> decide

/-- Numbers of which any two join to the same one all join to it. -/
lemma foldl_eq_of_forall {join : Float → Float → Float} {P : Float → Prop} {z : Float} (hz : P z)
    (hjoin : ∀ x y, P x → P y → join x y = z) (hne : xs ≠ []) (h : ∀ y ∈ x :: xs, P y) :
    xs.foldl join x = z := by
  induction xs generalizing x with
  | nil => exact absurd rfl hne
  | cons y ys ih =>
    obtain ⟨hx, hy, hys⟩ : P x ∧ P y ∧ ∀ z ∈ ys, P z := by simpa using h
    rw [List.foldl_cons, hjoin x y hx hy]
    cases ys with
    | nil => rfl
    | cons w ws => exact ih (by simp) (List.forall_mem_cons.2 ⟨hz, hys⟩)

/-- A truth value that is settled by one operand which has it keeps an operator to its rule: if the left
operand does not have it, the operator comes to the truth of the right one. -/
lemma governs_of_verdict (verdict : Bool) (hdecided : op.decided? = rule.settled?)
    (hsettled : ∀ x, rule.settled? x = if truthy x = verdict then some (ofBool verdict) else none)
    (hwhole : ∀ x xs, rule.whole x xs = ofBool !verdict)
    (hop : ∀ x y, truthy x ≠ verdict → op.apply x y = ofBool (truthy y)) : rule.Governs op := by
  have hnone : ∀ x, rule.settled? x = none ↔ truthy x ≠ verdict := by simp [hsettled]
  have hsome : ∀ x y, rule.settled? x = some y ↔ truthy x = verdict ∧ ofBool verdict = y := by
    simp [hsettled]
  refine ⟨hdecided, fun x y hx => ?_, fun x y z hx hy => ?_, fun x y hx hy => ?_, fun x xs hne hall => ?_⟩
  · obtain ⟨-, rfl⟩ := (hsome x y).1 hx
    exact (hsome _ _).2 ⟨truthy_ofBool verdict, rfl⟩
  · obtain ⟨htruth, rfl⟩ := (hsome y z).1 hy
    rw [hop x y ((hnone x).1 hx), htruth]
  · rw [hop x y ((hnone x).1 hx), hnone, truthy_ofBool]
    exact (hnone y).1 hy
  · have hopposite : rule.settled? (ofBool !verdict) = none := by simp [hnone]
    have hjoin : ∀ x y, rule.settled? x = none → rule.settled? y = none →
        op.apply x y = ofBool !verdict := by
      intro x y hx hy
      rw [hop x y ((hnone x).1 hx), Bool.eq_not_of_ne ((hnone y).1 hy)]
    rw [hwhole, foldl_eq_of_forall hopposite hjoin hne hall]

lemma governs_conjunction : conjunction.Governs .and :=
  governs_of_verdict false rfl (fun x => by cases h : truthy x <;> simp [conjunction, h, ofBool])
    (fun _ _ => rfl) fun x y hx => by simp [BinaryOp.apply, Bool.eq_not_of_ne hx]

lemma governs_disjunction : disjunction.Governs .or :=
  governs_of_verdict true rfl (fun x => by cases h : truthy x <;> simp [disjunction, h, ofBool])
    (fun _ _ => rfl) fun x y hx => by simp [BinaryOp.apply, Bool.eq_not_of_ne hx]

/-- An operator that no operand settles joins the numbers from left to right. -/
lemma governs_of_undecided (hdecided : op.decided? = rule.settled?) (hnone : ∀ x, rule.settled? x = none)
    (hwhole : ∀ x xs, rule.whole x xs = xs.foldl op.apply x) : rule.Governs op where
  decided := hdecided
  settled x y hx := absurd hx (by simp [hnone])
  right x y z _ hy := absurd hy (by simp [hnone])
  pass _ _ _ _ := hnone _
  whole x xs _ _ := (hwhole x xs).symm

lemma governs_sum : sum.Governs .add :=
  governs_of_undecided rfl (fun _ => rfl) fun _ _ => rfl

lemma governs_product : product.Governs .mul :=
  governs_of_undecided rfl (fun _ => rfl) fun _ _ => rfl

end ChainRule

/-! ## Trees -/

lemma Fault.mapSpan_id (fault : Fault) : fault.mapSpan id = fault := by
  cases fault <;> simp [mapSpan]

/-- Faults of trees keep their spans. -/
lemma Formula.evaluate_of_tree {settings : Settings} {tree : Json} {f : Formula}
    (h : ofTree settings tree = .ok f) (scope : Scope) : f.evaluate scope = f.expr.evaluate scope := by
  obtain ⟨e, -, -, -, rfl⟩ := ofTree_eq_ok_iff.1 h
  have hpassages : (Template.ofSource "").passages = [] := by
    change passagesFrom 0 0 (replacements none (pieces [])) = []
    rw [pieces]
    rfl
  have hspans : (Template.ofSource "").toSource = id := by
    funext s
    rw [Template.toSource, hpassages]
    rfl
  rw [evaluate, hspans]
  rcases e.evaluate scope with fault | x
  · rw [mapError_error, Fault.mapSpan_id]
  · rfl

namespace Tree

lemma toExprs_eq_ok_iff {ts : List Json} {es : List Expr} :
    toExprs ts = .ok es ↔ List.Forall₂ (fun t e => toExpr t = .ok e) ts es := by
  induction ts generalizing es with
  | nil => simp [toExprs, eq_comm]
  | cons t ts ih =>
    rw [toExprs, bind_eq_ok]
    simp only [bind_eq_ok, ih, List.forall₂_cons_left_iff]
    constructor
    · rintro ⟨e, he, es', hes', h⟩
      exact ⟨e, es', he, hes', (Except.ok.inj h).symm⟩
    · rintro ⟨e, es', he, hes', rfl⟩
      exact ⟨e, he, es', hes', rfl⟩

/-- A tree means what a rule says of its operands. In every scope its expression comes to what the rule
gives, and to the variables of those operands only that are taken for it. If the settings allow the tree,
this is what evaluation comes to, unless it is a number that is not finite. -/
def EvaluatesBy (t : Json) (rule : ChainRule) (es : List Expr) : Prop :=
  ∃ e, toExpr t = .ok e ∧ ∀ scope,
    (∀ r, e.value scope = r ↔ ∃ taken, rule.Gives scope es taken r) ∧
    (∀ taken r, rule.Gives scope es taken r → e.reads scope = taken.flatMap (Expr.reads scope)) ∧
    ∀ settings f, Formula.ofTree settings t = .ok f →
      evaluateTree settings t scope = e.value scope >>= Expr.finite

lemma evaluatesBy_of_governs {rule : ChainRule} {op : BinaryOp} {head : String} {ts : List Json}
    {es : List Expr} (hrule : rule.Governs op) (hhead : heads.lookup head = some (.chain op))
    (hes : List.Forall₂ (fun t e => toExpr t = .ok e) ts es) (htwo : 2 ≤ ts.length) :
    EvaluatesBy (.array (.string head :: ts)) rule es := by
  rw [hes.length_eq] at htwo
  obtain ⟨e, d, ds, rfl⟩ : ∃ e d ds, es = e :: d :: ds := by
    match es, htwo with
    | e :: d :: ds, _ => exact ⟨e, d, ds, rfl⟩
  have hne : d :: ds ≠ [] := List.cons_ne_nil d ds
  have ht : toExpr (.array (.string head :: ts)) =
      .ok ((d :: ds).foldl (Expr.binary origin op) e) := by
    rw [toExpr, toExprs_eq_ok_iff.2 hes, ok_bind, operation, hhead]
    rfl
  refine ⟨_, ht, fun scope => ⟨fun r => ⟨?_, ?_⟩, ?_, ?_⟩⟩
  · rintro rfl
    obtain ⟨taken, r, hgives⟩ := rule.exists_gives scope (List.cons_ne_nil e (d :: ds))
    rw [(hrule.foldl_of_gives origin hne hgives).1]
    exact ⟨taken, hgives⟩
  · rintro ⟨taken, hgives⟩
    exact (hrule.foldl_of_gives origin hne hgives).1
  · exact fun taken r hgives => (hrule.foldl_of_gives origin hne hgives).2
  · intro settings f hf
    obtain ⟨e', he', -, -, hfe⟩ := Formula.ofTree_eq_ok_iff.1 hf
    obtain rfl := Except.ok.inj (ht.symm.trans he')
    rw [evaluateTree, hf, ok_bind, Formula.evaluate_of_tree hf, hfe, Expr.evaluate_eq_bind]

/-- **Chains mean what is said of lists.** Of two operand trees or more, `And` takes one after the other up
to the first that fails or is false, and `Or` up to the first that fails or is true; `Add` and `Multiply`
join the numbers of all from left to right, unless one fails. What comes after the last operand that is
taken does not matter, and its variables need not be bound. -/
theorem chains_exact {ts : List Json} {es : List Expr}
    (hes : List.Forall₂ (fun t e => toExpr t = .ok e) ts es) (htwo : 2 ≤ ts.length) :
    EvaluatesBy (.array (.string "And" :: ts)) .conjunction es ∧
    EvaluatesBy (.array (.string "Or" :: ts)) .disjunction es ∧
    EvaluatesBy (.array (.string "Add" :: ts)) .sum es ∧
    EvaluatesBy (.array (.string "Multiply" :: ts)) .product es :=
  ⟨evaluatesBy_of_governs ChainRule.governs_conjunction rfl hes htwo,
    evaluatesBy_of_governs ChainRule.governs_disjunction rfl hes htwo,
    evaluatesBy_of_governs ChainRule.governs_sum rfl hes htwo,
    evaluatesBy_of_governs ChainRule.governs_product rfl hes htwo⟩

/-- A true operand, a false one, and a variable that the scope does not bind. -/
def halfBound : List Json :=
  [.string "a", .number (.integer 0), .string "b"]

theorem chains_of_halfBound :
    let scope := Scope.ofList [("a", 2.0)]
    (∃ e, toExpr (.array (.string "And" :: halfBound)) = .ok e ∧ e.value scope = .ok 0.0 ∧
      e.reads scope = ["a"]) ∧
    (∃ e, toExpr (.array (.string "Or" :: halfBound)) = .ok e ∧ e.value scope = .ok 1.0) ∧
    ∃ e, toExpr (.array (.string "Add" :: halfBound)) = .ok e ∧
      e.value scope = .error (scope.unboundFault "b" origin) := by
  intro scope
  let a : Expr := .symbol origin (identifierOf "a")
  let zero : Expr := .number origin (Json.Number.integer 0).toFloat
  let b : Expr := .symbol origin (identifierOf "b")
  have hes : List.Forall₂ (fun t e => toExpr t = .ok e) halfBound [a, zero, b] :=
    .cons rfl (.cons rfl (.cons rfl .nil))
  have ha : a.value scope = .ok 2.0 := rfl
  have hb : b.value scope = .error (scope.unboundFault "b" origin) := rfl
  have htrue : truthy 2.0 = true := by decide
  have hfalse : truthy (Json.Number.integer 0).toFloat = false := by decide
  have hpass : ChainRule.conjunction.settled? 2.0 = none := by simp [ChainRule.conjunction, htrue]
  have hsettled : ChainRule.conjunction.settled? (Json.Number.integer 0).toFloat = some 0.0 := by
    simp [ChainRule.conjunction, hfalse]
  have hsettled' : ChainRule.disjunction.settled? 2.0 = some 1.0 := by
    simp [ChainRule.disjunction, htrue]
  obtain ⟨⟨e, he, hand⟩, ⟨e', he', hor⟩, ⟨e'', he'', hadd⟩, -⟩ := chains_exact hes (by decide)
  have hgives : ChainRule.conjunction.Gives scope ([a] ++ zero :: [b]) ([a] ++ [zero]) (.ok 0.0) :=
    .settled (.cons ⟨ha, hpass⟩ .nil) rfl hsettled
  have hgives' : ChainRule.disjunction.Gives scope ([] ++ a :: [zero, b]) ([] ++ [a]) (.ok 1.0) :=
    .settled .nil ha hsettled'
  have hgives'' : ChainRule.sum.Gives scope ([a, zero] ++ b :: []) ([a, zero] ++ [b])
      (.error (scope.unboundFault "b" origin)) :=
    .fails (.cons ⟨ha, rfl⟩ (.cons ⟨rfl, rfl⟩ .nil)) hb
  exact ⟨⟨e, he, ((hand scope).1 _).2 ⟨_, hgives⟩, (hand scope).2.1 _ _ hgives⟩,
    ⟨e', he', ((hor scope).1 _).2 ⟨_, hgives'⟩⟩, e'', he'', ((hadd scope).1 _).2 ⟨_, hgives''⟩⟩

end Tree
end Formulary
