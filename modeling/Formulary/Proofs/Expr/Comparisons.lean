import Formulary.Proofs.Expr.Evaluation
import Formulary.Proofs.Number.Order
/-!
# Comparisons within the tolerances

Equality within the tolerances is symmetric (`nearlyEqual_comm`) and takes in numbers that are the same.
So two numbers have one verdict, that the first is less, that they are equal or that it is greater, and
every comparison can be read off it (`apply_comparison`). What is not a number has no verdict
(`verdict?_eq_none_iff`). Main statement: the comparisons of two operands nowhere contradict each other
(`comparisons_consistent`).
-/

namespace Formulary

open Arithmetic

/-! ## Equality within the tolerances -/

section
variable {x y : Float}

lemma larger_abs_comm (hx : x.isNaN = false) (hy : y.isNaN = false) :
    larger x.abs y.abs = larger y.abs x.abs := by
  rw [larger, larger, isNaN_abs, isNaN_abs, hx, hy]
  simp only [lt_iff_order?, @order?_swap x.abs y.abs]
  rcases horder : order? x.abs y.abs with _ | _ | _ | _
  · rw [order?_eq_none_iff, isNaN_abs, isNaN_abs, hx, hy] at horder
    simp at horder
  · simp
  · simp [abs_eq_of_order? horder]
  · simp

lemma nearlyEqual_comm (x y : Float) : nearlyEqual x y = nearlyEqual y x := by
  unfold nearlyEqual
  rw [BEq.comm, Bool.or_comm (!y.isFinite)]
  split
  · rfl
  · split
    · rfl
    · rename_i hfinite
      obtain ⟨hx, hy⟩ : x.isFinite = true ∧ y.isFinite = true := by simpa using hfinite
      rw [abs_difference_comm, larger_abs_comm (isNaN_of_isFinite hx) (isNaN_of_isFinite hy)]

lemma nearlyEqual_of_order? (h : order? x y = some .eq) : nearlyEqual x y = true := by
  rw [nearlyEqual, if_pos (beq_iff_order?.2 h)]

/-- Nothing equals what is not a number. -/
lemma nearlyEqual_of_order?_none (h : order? x y = none) : nearlyEqual x y = false := by
  have hequal : ¬ (x == y) = true := by simp [beq_iff_order?, h]
  have hfinite : (!x.isFinite || !y.isFinite) = true := by
    by_contra hfinite
    obtain ⟨hx, hy⟩ : x.isFinite = true ∧ y.isFinite = true := by simpa using hfinite
    rw [order?_eq_none_iff, isNaN_of_isFinite hx, isNaN_of_isFinite hy] at h
    simp at h
  rw [nearlyEqual, if_neg hequal, if_pos hfinite]

/-! ## The verdict on two numbers -/

/-- How two doubles compare within the tolerances, if both are numbers. -/
def verdict? (x y : Float) : Option Ordering :=
  if nearlyEqual x y then some .eq else order? x y

lemma verdict?_swap : verdict? y x = (verdict? x y).map Ordering.swap := by
  rw [verdict?, verdict?, nearlyEqual_comm y x, @order?_swap x y]
  split <;> rfl

lemma verdict?_eq_none_iff : verdict? x y = none ↔ x.isNaN = true ∨ y.isNaN = true := by
  rw [← order?_eq_none_iff, verdict?]
  constructor
  · intro h
    split at h
    · exact absurd h (by simp)
    · exact h
  · intro h
    rw [nearlyEqual_of_order?_none h, h]
    rfl

end

/-- The operators that compare. -/
def comparisons : List BinaryOp :=
  [.eq, .ne, .lt, .gt, .le, .ge]

/-- Whether a comparison is true, from the verdict on its operands. -/
def BinaryOp.admits : BinaryOp → Option Ordering → Bool
  | eq, o => o == some .eq
  | ne, o => !(o == some .eq)
  | lt, o => o == some .lt
  | gt, o => o == some .gt
  | le, o => o == some .lt || o == some .eq
  | ge, o => o == some .gt || o == some .eq
  | _, _ => false

/-- The comparison that says the same of the operands the other way round. -/
def BinaryOp.mirrored : BinaryOp → BinaryOp
  | lt => gt
  | gt => lt
  | le => ge
  | ge => le
  | op => op

lemma admits_mirrored (op : BinaryOp) (o : Option Ordering) :
    op.mirrored.admits (o.map Ordering.swap) = op.admits o := by
  rcases o with _ | _ | _ | _ <;> cases op <;> rfl

/-- The one of less, equal and greater that a verdict makes true. -/
def BinaryOp.ofOrdering : Ordering → BinaryOp
  | .lt => lt
  | .eq => eq
  | .gt => gt

lemma mem_ofOrdering (o : Ordering) : .ofOrdering o ∈ [BinaryOp.lt, .eq, .gt] := by
  cases o <;> decide

lemma admits_some_iff (o : Ordering) :
    ∀ op ∈ [BinaryOp.lt, .eq, .gt], op.admits (some o) = true ↔ op = .ofOrdering o := by
  cases o <;> decide

/-- **Every comparison can be read off the verdict.** -/
theorem apply_comparison {op : BinaryOp} (hop : op ∈ comparisons) (x y : Float) :
    op.apply x y = ofBool (op.admits (verdict? x y)) := by
  simp only [comparisons, List.mem_cons, List.not_mem_nil, or_false] at hop
  rcases hnear : nearlyEqual x y with _ | _
  · -- the verdict is the order of the numbers, which are not the same
    have hne : order? x y ≠ some .eq := by
      intro h
      rw [nearlyEqual_of_order? h] at hnear
      exact absurd hnear (by simp)
    have hverdict : verdict? x y = order? x y := by rw [verdict?, hnear, if_neg (by simp)]
    rw [hverdict]
    rcases hop with rfl | rfl | rfl | rfl | rfl | rfl
    all_goals
      simp only [BinaryOp.apply, BinaryOp.admits, hnear, lt_iff_order?, le_iff_order?, @order?_swap x y]
      rcases horder : order? x y with _ | _ | _ | _ <;> simp_all
  · have hverdict : verdict? x y = some .eq := by rw [verdict?, hnear, if_pos rfl]
    rw [hverdict]
    rcases hop with rfl | rfl | rfl | rfl | rfl | rfl <;>
      simp [BinaryOp.apply, BinaryOp.admits, hnear]

/-! ## Comparing operands -/

/-- A comparison of two operands comes to a truth value, wherever it is written. -/
def Decides (scope : Scope) (op : BinaryOp) (l r : Expr) (b : Bool) : Prop :=
  ∀ s, (Expr.binary s op l r).evaluate scope = .ok (ofBool b)

lemma ofBool_injective : Function.Injective ofBool := by
  intro a b h
  cases a <;> cases b
  · rfl
  · exact absurd (congrArg (fun x : Float => x == 0.0) h) (by decide)
  · exact absurd (congrArg (fun x : Float => x == 0.0) h) (by decide)
  · rfl

section
variable {scope : Scope} {l r : Expr} {x y : Float} {op : BinaryOp}

lemma value_comparison (hop : op ∈ comparisons) (hl : l.value scope = .ok x)
    (hr : r.value scope = .ok y) (s : Span) :
    (Expr.binary s op l r).value scope = .ok (ofBool (op.admits (verdict? x y))) := by
  have hdecided : op.decided? x = none := by
    simp only [comparisons, List.mem_cons, List.not_mem_nil, or_false] at hop
    rcases hop with rfl | rfl | rfl | rfl | rfl | rfl <;> rfl
  rw [Expr.value, hl, ← apply_comparison hop, hr]
  simp only [bind, Except.bind, hdecided]
  rfl

lemma decides_iff (hop : op ∈ comparisons) (hl : l.value scope = .ok x)
    (hr : r.value scope = .ok y) {b : Bool} :
    Decides scope op l r b ↔ op.admits (verdict? x y) = b := by
  have hfinite : ∀ b, (ofBool b).isFinite = true := by decide
  simp only [Decides, Expr.evaluate_eq_ok_iff, value_comparison hop hl hr, Except.ok.injEq,
    ofBool_injective.eq_iff, hfinite, and_true, forall_const]

/-- **The comparisons of two operands contradict each other nowhere.** Each comes to a truth value, and
to the one that its mirror image has for the operands the other way round. Of two numbers, infinite ones
included, just one of less, equal and greater is true, and the other three comparisons are the negations
of these. What is not a number differs from everything, and no other comparison is true of it. -/
theorem comparisons_consistent (hl : l.value scope = .ok x) (hr : r.value scope = .ok y) :
    (∀ op ∈ comparisons, (∃ b, Decides scope op l r b) ∧
      ∀ b, Decides scope op l r b ↔ Decides scope op.mirrored r l b) ∧
    (x.isNaN = false → y.isNaN = false →
      (∃! op, op ∈ [BinaryOp.lt, .eq, .gt] ∧ Decides scope op l r true) ∧
      (Decides scope .le l r true ↔ Decides scope .gt l r false) ∧
      (Decides scope .ge l r true ↔ Decides scope .lt l r false) ∧
      (Decides scope .ne l r true ↔ Decides scope .eq l r false)) ∧
    (x.isNaN = true ∨ y.isNaN = true →
      Decides scope .ne l r true ∧ ∀ op ∈ comparisons, op ≠ .ne → Decides scope op l r false) := by
  have hdecides : ∀ op ∈ comparisons, ∀ b,
      Decides scope op l r b ↔ op.admits (verdict? x y) = b :=
    fun op hop b => decides_iff hop hl hr
  refine ⟨fun op hop => ⟨⟨_, (hdecides op hop _).2 rfl⟩, fun b => ?_⟩, fun hx hy => ?_,
    fun hnan => ?_⟩
  · have hmirrored : ∀ op ∈ comparisons, op.mirrored ∈ comparisons := by decide
    rw [hdecides op hop, decides_iff (hmirrored op hop) hr hl, @verdict?_swap x y, admits_mirrored]
  · obtain ⟨o, ho⟩ : ∃ o, verdict? x y = some o := by
      rw [← Option.ne_none_iff_exists', Ne, verdict?_eq_none_iff, hx, hy]
      simp
    rw [ho] at hdecides
    refine ⟨?_, ?_, ?_, ?_⟩
    · have hone : ∀ op ∈ [BinaryOp.lt, .eq, .gt],
          Decides scope op l r true ↔ op = .ofOrdering o := by
        have hthree : ∀ op ∈ [BinaryOp.lt, .eq, .gt], op ∈ comparisons := by decide
        exact fun op hop => (hdecides op (hthree op hop) true).trans (admits_some_iff o op hop)
      have hmem := mem_ofOrdering o
      exact ⟨.ofOrdering o, ⟨hmem, (hone _ hmem).2 rfl⟩, fun op h => (hone op h.1).1 h.2⟩
    · rw [hdecides .le (by decide), hdecides .gt (by decide)]
      cases o <;> decide
    · rw [hdecides .ge (by decide), hdecides .lt (by decide)]
      cases o <;> decide
    · rw [hdecides .ne (by decide), hdecides .eq (by decide)]
      cases o <;> decide
  · rw [verdict?_eq_none_iff.2 hnan] at hdecides
    refine ⟨(hdecides .ne (by decide) true).2 rfl, fun op hop hne => (hdecides op hop false).2 ?_⟩
    cases op with
    | ne => exact absurd rfl hne
    | _ => rfl

end

/-- The expression that `0.1 + 0.2` is read as. -/
def threeTenths : Expr :=
  .binary ⟨0, 9⟩ .add (.number ⟨0, 3⟩ 0.1) (.number ⟨6, 9⟩ 0.2)

/-- A sum that rounding has made greater than 0.3 equals it, either way round, and does not count as
greater. -/
theorem comparisons_of_threeTenths :
    threeTenths.value .empty = .ok (0.1 + 0.2) ∧
      (Expr.number ⟨13, 16⟩ 0.3).value .empty = .ok 0.3 ∧
      (0.1 + 0.2 : Float).isNaN = false ∧ (0.3 : Float).isNaN = false ∧ (0.3 : Float) < 0.1 + 0.2 ∧
      Decides .empty .eq threeTenths (.number ⟨13, 16⟩ 0.3) true ∧
      Decides .empty .eq (.number ⟨13, 16⟩ 0.3) threeTenths true ∧
      Decides .empty .le threeTenths (.number ⟨13, 16⟩ 0.3) true ∧
      ¬ Decides .empty .gt threeTenths (.number ⟨13, 16⟩ 0.3) true := by
  have hl : threeTenths.value .empty = .ok (0.1 + 0.2) := rfl
  have hr : (Expr.number ⟨13, 16⟩ 0.3).value .empty = .ok 0.3 := rfl
  have hx : (0.1 + 0.2 : Float).isNaN = false := by decide +kernel
  have hy : (0.3 : Float).isNaN = false := by decide +kernel
  have hequal : Decides .empty .eq threeTenths (.number ⟨13, 16⟩ 0.3) true :=
    (decides_iff (by decide) hl hr).2 (by decide +kernel)
  obtain ⟨hall, hnumbers, -⟩ := comparisons_consistent hl hr
  obtain ⟨⟨op, -, hunique⟩, hle, -, -⟩ := hnumbers hx hy
  have hgreater : ¬ Decides .empty .gt threeTenths (.number ⟨13, 16⟩ 0.3) true := by
    intro hgreater
    have hsame : BinaryOp.gt = .eq :=
      (hunique .gt ⟨by decide, hgreater⟩).trans (hunique .eq ⟨by decide, hequal⟩).symm
    exact absurd hsame (by decide)
  have hmirrored := ((hall .eq (by decide)).2 true).1 hequal
  refine ⟨hl, hr, hx, hy, by decide +kernel, hequal, hmirrored, hle.2 ?_, hgreater⟩
  obtain ⟨⟨b, hb⟩, -⟩ := hall .gt (by decide)
  cases b with
  | false => exact hb
  | true => exact absurd hb hgreater

end Formulary
