import Formulary.Proofs.Expr.Faults
/-!
# Spans do not matter

An expression without its spans (`Expr.bare`) has the same depth, is resolved if the expression is, and
comes to the same result in every scope but for the spans of faults (`Expr.evaluate_bare`).
-/

namespace Formulary

/-- The same fault with its span at the beginning of the text. -/
def Fault.bare : Fault → Fault :=
  mapSpan fun _ => .point 0

@[simp] lemma Fault.bare_mapSpan (f : Span → Span) (fault : Fault) :
    (fault.mapSpan f).bare = fault.bare := by
  cases fault <;> simp [bare, mapSpan, Function.comp_def]

namespace Expr

lemma bareAll_eq_map (es : List Expr) : bareAll es = es.map bare := by
  induction es with
  | nil => rfl
  | cons e es ih => rw [bareAll, ih, List.map_cons]

@[simp] lemma bare_bare (e : Expr) : e.bare.bare = e.bare := by
  induction e with
  | number s x => rfl
  | text s t => rfl
  | symbol s name => rfl
  | binary s op l r hl hr => rw [bare, bare, hl, hr]
  | unary s op e he => rw [bare, bare, he]
  | conditional s c y n hc hy hn => rw [bare, bare, hc, hy, hn]
  | call s f nameSpan args hargs =>
    simpa [bare, bareAll_eq_map] using hargs

/-! ## Depth -/

lemma greatestDepth_map_bare {es : List Expr} (h : ∀ a ∈ es, a.bare.depth = a.depth) :
    greatestDepth (es.map bare) = greatestDepth es := by
  induction es with
  | nil => rfl
  | cons e es ih =>
    have hes := ih fun a ha => h a (List.mem_cons_of_mem e ha)
    rw [List.map_cons, greatestDepth, greatestDepth, h e List.mem_cons_self, hes]

lemma depth_bare (e : Expr) : e.bare.depth = e.depth := by
  induction e with
  | number s x => rfl
  | text s t => rfl
  | symbol s name => rfl
  | binary s op l r hl hr => rw [bare, depth, depth, hl, hr]
  | unary s op e he => rw [bare, depth, depth, he]
  | conditional s c y n hc hy hn => rw [bare, depth, depth, hc, hy, hn]
  | call s f nameSpan args hargs =>
    rw [bare, depth, depth, bareAll_eq_map, greatestDepth_map_bare hargs]

lemma exceeds_bare (limit : Nat) (e : Expr) : e.bare.exceeds limit = e.exceeds limit := by
  rw [Bool.eq_iff_iff, exceeds_iff, exceeds_iff, depth_bare]

/-! ## Resolution -/

lemma nodesOfAll_map_bare {es : List Expr} (h : ∀ a ∈ es, a.bare.nodes = a.nodes.map bare) :
    nodesOfAll (es.map bare) = (nodesOfAll es).map bare := by
  induction es with
  | nil => rfl
  | cons e es ih =>
    have hes := ih fun a ha => h a (List.mem_cons_of_mem e ha)
    rw [List.map_cons, nodesOfAll, nodesOfAll, h e List.mem_cons_self, hes, List.map_append]

lemma nodes_bare (e : Expr) : e.bare.nodes = e.nodes.map bare := by
  induction e with
  | number s x => rfl
  | text s t => rfl
  | symbol s name => rfl
  | binary s op l r hl hr => simp [nodes, bare, hl, hr]
  | unary s op e he => simp [nodes, bare, he]
  | conditional s c y n hc hy hn => simp [nodes, bare, hc, hy, hn]
  | call s f nameSpan args hargs =>
    simp [nodes, bare, bareAll_eq_map, nodesOfAll_map_bare hargs]

lemma unknown?_bare {e : Expr} : e.bare.unknown? = none ↔ e.unknown? = none := by
  cases e <;> simp [unknown?, symbol?, bare]

lemma quotedText?_bare {e : Expr} : e.bare.quotedText? = none ↔ e.quotedText? = none := by
  cases e <;> simp [quotedText?, bare]

/-- Where a call stands does not matter to what function it is of, only to the fault. -/
lemma callee_bare (s nameSpan : Span) (f : String) (count : Nat) :
    (callee s f nameSpan count).mapError Fault.bare =
      (callee (.point 0) f (.point 0) count).mapError Fault.bare := by
  unfold callee
  split
  · rfl
  · split <;> rfl

lemma callFault?_bare {e : Expr} : e.bare.callFault? = none ↔ e.callFault? = none := by
  cases e with
  | call s f nameSpan args =>
    have hcallee := callee_bare s nameSpan f args.length
    simp only [bare, callFault?, bareAll_eq_map, List.length_map]
    cases h : callee s f nameSpan args.length <;>
      cases h' : callee (.point 0) f (.point 0) args.length <;>
      simp [h, h', Except.mapError] at hcallee ⊢
  | _ => simp [callFault?, bare]

/-- An expression is resolved whatever its spans are. -/
theorem resolved_bare {e : Expr} : e.bare.Resolved ↔ e.Resolved := by
  have hnodes : ∀ {p : Expr → Prop}, (∀ n ∈ e.bare.nodes, p n) ↔ ∀ n ∈ e.nodes, p n.bare := by
    intro p
    rw [nodes_bare, List.forall_mem_map]
  constructor
  · rintro ⟨hknown, hunquoted, hcallable⟩
    exact ⟨fun n hn => unknown?_bare.1 (hnodes.1 hknown n hn),
      fun n hn => quotedText?_bare.1 (hnodes.1 hunquoted n hn),
      fun n hn => callFault?_bare.1 (hnodes.1 hcallable n hn)⟩
  · rintro ⟨hknown, hunquoted, hcallable⟩
    exact ⟨hnodes.2 fun n hn => unknown?_bare.2 (hknown n hn),
      hnodes.2 fun n hn => quotedText?_bare.2 (hunquoted n hn),
      hnodes.2 fun n hn => callFault?_bare.2 (hcallable n hn)⟩

/-! ## Evaluation -/

lemma read_bare (scope : Scope) (name : String) (s : Span) :
    (scope.read name s).mapError Fault.bare = (scope.read name (.point 0)).mapError Fault.bare := by
  unfold Scope.read
  split
  · split <;> rfl
  · split <;> rfl

lemma values_bare {scope : Scope} {es : List Expr}
    (h : ∀ a ∈ es, (Comparison.through Fault.bare).Holds (a.value scope) (a.bare.value scope)) :
    (Comparison.through Fault.bare).Holds (values scope es) (values scope (es.map bare)) := by
  induction es with
  | nil => exact Comparison.refl _ _
  | cons e es ih =>
    rw [List.map_cons, values, values]
    refine Comparison.bind _ (h e List.mem_cons_self) fun x => ?_
    exact Comparison.bind _ (ih fun a ha => h a (List.mem_cons_of_mem e ha))
      fun xs => Comparison.refl _ _

lemma value_bare (scope : Scope) (e : Expr) :
    (Comparison.through Fault.bare).Holds (e.value scope) (e.bare.value scope) := by
  induction e with
  | number s x => exact Comparison.refl _ _
  | text s t => rfl
  | symbol s name => exact read_bare scope name s
  | binary s op l r hl hr =>
    rw [bare, value, value]
    refine Comparison.bind _ hl fun x => ?_
    rcases op.decided? x with _ | y
    · exact Comparison.bind _ hr fun y => Comparison.refl _ _
    · exact Comparison.refl _ _
  | unary s op e he =>
    rw [bare, value, value]
    exact Comparison.bind _ he fun x => Comparison.refl _ _
  | conditional s c y n hc hy hn =>
    rw [bare, value, value]
    refine Comparison.bind _ hc fun x => ?_
    split
    · exact hy
    · exact hn
  | call s f nameSpan args hargs =>
    rw [bare, value, value, bareAll_eq_map, List.length_map]
    refine Comparison.bind _ (callee_bare s nameSpan f args.length) fun b => ?_
    exact Comparison.bind _ (values_bare hargs) fun xs => Comparison.refl _ _

/-- Without its spans an expression comes to the same number, or to the same fault but for its span. -/
theorem evaluate_bare (e : Expr) (scope : Scope) :
    (e.bare.evaluate scope).mapError Fault.bare = (e.evaluate scope).mapError Fault.bare := by
  rw [evaluate_eq_bind, evaluate_eq_bind]
  exact (Comparison.bind _ (value_bare scope e) fun x => Comparison.refl _ _).symm

end Expr
end Formulary
