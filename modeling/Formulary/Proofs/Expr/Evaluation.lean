import Formulary.Expr.Value
import Formulary.Proofs.Expr.Nodes
import Formulary.Proofs.Scope
/-!
# What the value of an expression depends on

An expression reads a scope only where one of its symbols stands, and it need not come to all of them.
Two values of one expression in two scopes can therefore be compared by comparing what the symbols
read, for any comparison that sequencing keeps (`Expr.holds_value`). There are two that matter:

* results that differ at most when the first lacks a variable (`Comparison.settled`): more bindings
  change nothing about a value that is there (`Expr.evaluate_eq_ok_of_le`);
* results that are equal but for suggestions (`Comparison.alike`): scopes that agree on the variables
  of an expression give it the same value and the same fault (`Expr.evaluate_alike`).

Together they say that evaluation reads the variables of the expression and nothing else of a scope, and
that more bindings never change a result (`Expr.evaluate_reads_mentions`).
-/

namespace Formulary

/-! ## Comparing results -/

/-- Whether a result is that a variable has no binding. -/
def IsUnbound {α : Type} (r : Except Fault α) : Prop :=
  ∃ name s suggestion, r = .error (.unbound name s suggestion)

lemma not_isUnbound_ok {α : Type} (a : α) : ¬ IsUnbound (.ok a : Except Fault α) := by
  rintro ⟨name, s, suggestion, h⟩
  exact absurd h (by simp)

/-- The same fault without a suggestion. -/
def Fault.unsuggested : Fault → Fault
  | unknownSymbol name s _ => unknownSymbol name s none
  | unbound name s _ => unbound name s none
  | fault => fault

@[simp] lemma Fault.message_unsuggested (fault : Fault) :
    fault.unsuggested.message = fault.message := by
  cases fault <;> rfl

@[simp] lemma Fault.unsuggested_mapSpan (f : Span → Span) (fault : Fault) :
    (fault.mapSpan f).unsuggested = fault.unsuggested.mapSpan f := by
  cases fault <;> rfl

/-- A way to compare results that holds of equal ones and that sequencing keeps. -/
structure Comparison where
  Holds : {α : Type} → Except Fault α → Except Fault α → Prop
  refl : ∀ {α : Type} (r : Except Fault α), Holds r r
  bind : ∀ {α β : Type} {r r' : Except Fault α} {k k' : α → Except Fault β},
    Holds r r' → (∀ a, Holds (k a) (k' a)) → Holds (r >>= k) (r' >>= k')

namespace Comparison

/-- The two are equal, unless the first is that a variable has no binding. -/
def settled : Comparison where
  Holds r r' := ¬ IsUnbound r → r' = r
  refl _ _ := rfl
  bind := by
    intro α β r r' k k' hr hk hbind
    have hr' : r' = r := by
      refine hr fun ⟨name, s, suggestion, h⟩ => hbind ⟨name, s, suggestion, ?_⟩
      rw [h]
      rfl
    subst hr'
    cases r' with
    | error fault => rfl
    | ok a => exact hk a hbind

/-- The two are equal but for what a change of faults makes equal. -/
def through (change : Fault → Fault) : Comparison where
  Holds r r' := r.mapError change = r'.mapError change
  refl _ := rfl
  bind := by
    intro α β r r' k k' hr hk
    cases r with
    | error fault =>
      cases r' with
      | error fault' =>
        have hr : change fault = change fault' := by simpa [Except.mapError] using hr
        exact congrArg Except.error hr
      | ok a' => simp [Except.mapError] at hr
    | ok a =>
      cases r' with
      | error fault' => simp [Except.mapError] at hr
      | ok a' =>
        obtain rfl : a = a' := by simpa [Except.mapError] using hr
        exact hk a

/-- The two are equal but for suggestions. -/
def alike : Comparison :=
  through Fault.unsuggested

lemma settled_read {s t : Scope} {name : String} (sp : Span)
    (h : ∀ v, variableOf? name = some v → ∀ x, s.get? v = some x → t.get? v = some x) :
    settled.Holds (s.read name sp) (t.read name sp) := by
  intro hs
  unfold Scope.read at hs ⊢
  rcases hv : variableOf? name with _ | v
  · rfl
  · rcases hget : s.get? v with _ | x
    · refine absurd ?_ hs
      simp only [hv, hget]
      exact ⟨v, some sp, _, rfl⟩
    · simp only [hget, h v hv x hget]

lemma alike_read {s t : Scope} {name : String} (sp : Span)
    (h : ∀ v, variableOf? name = some v → s.get? v = t.get? v) :
    alike.Holds (s.read name sp) (t.read name sp) := by
  unfold Scope.read
  rcases hv : variableOf? name with _ | v
  · exact alike.refl _
  · simp only [h v hv]
    rcases t.get? v with _ | x
    · rfl
    · exact alike.refl _

end Comparison

namespace Expr

/-! ## Values in two scopes -/

lemma holds_values (C : Comparison) {s t : Scope} {es : List Expr}
    (h : ∀ e ∈ es, C.Holds (e.value s) (e.value t)) : C.Holds (values s es) (values t es) := by
  induction es with
  | nil => exact C.refl _
  | cons e es ih =>
    rw [values, values]
    refine C.bind (h e List.mem_cons_self) fun x => ?_
    exact C.bind (ih fun a ha => h a (List.mem_cons_of_mem e ha)) fun xs => C.refl _

/-- What holds of what the symbols of an expression read in two scopes holds of its values. -/
theorem holds_value (C : Comparison) {s t : Scope} {e : Expr}
    (h : ∀ sp name, symbol sp name ∈ e.nodes → C.Holds (s.read name sp) (t.read name sp)) :
    C.Holds (e.value s) (e.value t) := by
  -- both sides make the same choices, since these depend on numbers that have compared equal
  induction e with
  | number sp x => exact C.refl _
  | text sp x => exact C.refl _
  | symbol sp name => exact h sp name (self_mem_nodes _)
  | binary sp op l r hl hr =>
    rw [value, value]
    refine C.bind (hl fun sp name hn => h sp name (by simp [hn])) fun x => ?_
    rcases op.decided? x with _ | y
    · exact C.bind (hr fun sp name hn => h sp name (by simp [hn])) fun y => C.refl _
    · exact C.refl _
  | unary sp op e he =>
    rw [value, value]
    exact C.bind (he fun sp name hn => h sp name (by simp [hn])) fun x => C.refl _
  | conditional sp c y n hc hy hn =>
    rw [value, value]
    refine C.bind (hc fun sp name hm => h sp name (by simp [hm])) fun x => ?_
    split
    · exact hy fun sp name hm => h sp name (by simp [hm])
    · exact hn fun sp name hm => h sp name (by simp [hm])
  | call sp f nameSpan args hargs =>
    rw [value, value]
    refine C.bind (C.refl _) fun b => ?_
    refine C.bind (holds_values C fun a ha => ?_) fun xs => C.refl _
    exact hargs a ha fun sp name hn => h sp name (by simp only [mem_nodes_call]; exact .inr ⟨a, ha, hn⟩)

/-- The last step of evaluation: a value must be finite. -/
def finite (x : Float) : Except Fault Float :=
  if x.isFinite then .ok x else .error (.notFinite x)

lemma evaluate_eq_bind (e : Expr) (s : Scope) : e.evaluate s = e.value s >>= finite := by
  rw [evaluate]
  cases e.value s <;> rfl

lemma holds_evaluate (C : Comparison) {s t : Scope} {e : Expr}
    (h : ∀ sp name, symbol sp name ∈ e.nodes → C.Holds (s.read name sp) (t.read name sp)) :
    C.Holds (e.evaluate s) (e.evaluate t) := by
  rw [evaluate_eq_bind, evaluate_eq_bind]
  exact C.bind (holds_value C h) fun x => C.refl _

lemma evaluate_eq_ok_iff {s : Scope} {e : Expr} {x : Float} :
    e.evaluate s = .ok x ↔ e.value s = .ok x ∧ x.isFinite = true := by
  rw [evaluate]
  rcases e.value s with fault | y
  · simp
  · dsimp only
    split
    · rename_i hfinite
      rw [Except.ok.injEq]
      exact ⟨fun h => ⟨h, h ▸ hfinite⟩, And.left⟩
    · rename_i hfinite
      simp only [reduceCtorEq, Except.ok.injEq, false_iff, not_and]
      exact fun h => h ▸ hfinite

/-- What evaluation comes to is finite. -/
lemma isFinite_of_evaluate {s : Scope} {e : Expr} {x : Float} (h : e.evaluate s = .ok x) :
    x.isFinite = true :=
  (evaluate_eq_ok_iff.1 h).2

/-- A value, or a fault other than a missing variable, stays as it is in a scope that binds the
variables of the expression at least as the first does. -/
theorem evaluate_eq_of_mentions {s t : Scope} {e : Expr}
    (h : ∀ v ∈ e.mentions, ∀ x, s.get? v = some x → t.get? v = some x)
    (hs : ¬ IsUnbound (e.evaluate s)) : e.evaluate t = e.evaluate s := by
  refine holds_evaluate .settled (fun sp name hn => ?_) hs
  exact Comparison.settled_read sp fun v hv => h v (mem_mentions.2 ⟨sp, name, hn, hv⟩)

/-- A number that an expression comes to in a scope is the number that it comes to in one with more
bindings. -/
theorem evaluate_eq_ok_of_le {s t : Scope} (hst : s.Le t) {e : Expr} {x : Float}
    (h : e.evaluate s = .ok x) : e.evaluate t = .ok x := by
  rw [← h]
  refine evaluate_eq_of_mentions (fun v _ => hst v) ?_
  rw [h]
  exact not_isUnbound_ok x

/-- Scopes that agree on the variables of an expression give it results that are equal but for
suggestions. -/
theorem evaluate_alike {s t : Scope} {e : Expr} (h : ∀ v ∈ e.mentions, s.get? v = t.get? v) :
    (e.evaluate s).mapError Fault.unsuggested = (e.evaluate t).mapError Fault.unsuggested := by
  refine holds_evaluate .alike fun sp name hn => ?_
  exact Comparison.alike_read sp fun v hv => h v (mem_mentions.2 ⟨sp, name, hn, hv⟩)

/-- Evaluation reads the variables of the expression and no others, and more bindings never change what
it has come to: where a second scope binds each variable of the expression that the first binds, and to
the same number, a value stays as it is, and so does a result that is not finite. Scopes that agree on
these variables, also on which of them have no binding, give results that differ in suggestions at
most. -/
theorem evaluate_reads_mentions (e : Expr) (s t : Scope) :
    ((∀ v ∈ e.mentions, ∀ x, s.get? v = some x → t.get? v = some x) →
      (∀ x, e.evaluate s = .ok x → e.evaluate t = .ok x) ∧
        ∀ x, e.evaluate s = .error (.notFinite x) → e.evaluate t = .error (.notFinite x)) ∧
    ((∀ v ∈ e.mentions, s.get? v = t.get? v) →
      (e.evaluate s).mapError Fault.unsuggested = (e.evaluate t).mapError Fault.unsuggested) := by
  refine ⟨fun h => ?_, evaluate_alike⟩
  have hsettled : ∀ r, e.evaluate s = r → ¬ IsUnbound r → e.evaluate t = r := by
    rintro r rfl
    exact evaluate_eq_of_mentions h
  constructor
  · intro x hx
    exact hsettled _ hx (not_isUnbound_ok x)
  · intro x hx
    refine hsettled _ hx ?_
    rintro ⟨name, sp, suggestion, hunbound⟩
    cases hunbound

/-- The expression that `{{a}} and {{b}}` is read as. -/
def aAndB : Expr :=
  .binary ⟨0, 15⟩ .and (.symbol ⟨0, 5⟩ "__v_a") (.symbol ⟨10, 15⟩ "__v_b")

/-- The left operand decides this conjunction, so it has a value without a binding of `b`, and a
binding of `b` changes nothing about it. -/
theorem evaluate_aAndB_of_more :
    aAndB.mentions = ["a", "b"] ∧ (Scope.ofList [("a", 0.0)]).get? "b" = none ∧
      aAndB.evaluate (.ofList [("a", 0.0)]) = .ok 0.0 ∧
      aAndB.evaluate (.ofList [("a", 0.0), ("b", 7.0)]) = .ok 0.0 := by
  have hvalue : aAndB.evaluate (.ofList [("a", 0.0)]) = .ok 0.0 := by rfl
  have hmentions : aAndB.mentions = ["a", "b"] := by rfl
  refine ⟨hmentions, by rfl, hvalue, ((evaluate_reads_mentions aAndB _ _).1 ?_).1 0.0 hvalue⟩
  intro v hv x hx
  rw [hmentions, List.mem_cons, List.mem_singleton] at hv
  obtain rfl | rfl := hv
  · exact hx
  · exact absurd hx (by simp [Scope.ofList, Scope.get?_insert])

end Expr
end Formulary
