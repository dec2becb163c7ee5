import Formulary.Proofs.Expr.Faults
/-!
# The functions that evaluation applies

Evaluation that also notes each function that it applies and the numbers that it applies it to
(`Expr.noted`) comes to the same result (`Expr.result_noted`). A function is never applied to numbers
that it makes nothing of (`Expr.served_noted`): every function of the vocabulary is formed in one of
four ways (`Builtin.Formed`), and its arity lets through only what such a function serves.
-/

namespace Formulary

open Result

/-! ## What a function serves -/

namespace Builtin

/-- The ways in which the functions of the vocabulary are formed. -/
inductive Formed : Builtin → Prop
  | unary (f : Float → Float) : Formed (.ofUnary f)
  | binary (f : Float → Float → Float) : Formed (.ofBinary f)
  | oneOrTwo (f : Float → Float) (g : Float → Float → Float) : Formed (.ofOneOrTwo f g)
  | some (f : List Float → Float) : Formed (.ofSome f)

/-- A function finds all the numbers in a list that it is made for, and no others are there. -/
inductive Serves : Builtin → List Float → Prop
  | unary (f : Float → Float) (x : Float) : Serves (.ofUnary f) [x]
  | binary (f : Float → Float → Float) (x y : Float) : Serves (.ofBinary f) [x, y]
  | one (f : Float → Float) (g : Float → Float → Float) (x : Float) : Serves (.ofOneOrTwo f g) [x]
  | two (f : Float → Float) (g : Float → Float → Float) (x y : Float) :
    Serves (.ofOneOrTwo f g) [x, y]
  | some (f : List Float → Float) (x : Float) (xs : List Float) : Serves (.ofSome f) (x :: xs)

/-- What the arity of a function accepts, the function serves. -/
lemma Formed.serves {b : Builtin} {xs : List Float} (hb : b.Formed)
    (h : b.arity.accepts xs.length = true) : b.Serves xs := by
  cases hb with
  | unary f =>
    match xs, h with
    | [x], _ => exact .unary f x
  | binary f =>
    match xs, h with
    | [x, y], _ => exact .binary f x y
  | oneOrTwo f g =>
    match xs, h with
    | [x], _ => exact .one f g x
    | [x, y], _ => exact .two f g x y
  | some f =>
    match xs, h with
    | x :: xs, _ => exact .some f x xs

end Builtin

/-- The functions among the meanings of words are formed. -/
def Meaning.Formed : Meaning → Prop
  | function b => b.Formed
  | _ => True

lemma formed_vocabulary : ∀ entry ∈ vocabulary, entry.2.Formed := by
  simp only [vocabulary, List.forall_mem_cons]
  repeat' first | exact trivial | exact List.forall_mem_nil _ | constructor

lemma formed_of_builtin? {word : String} {b : Builtin} (h : builtin? word = some b) : b.Formed := by
  unfold builtin? at h
  split at h
  · rename_i b' hmeaning
    obtain rfl := Option.some.inj h
    exact formed_vocabulary _ (mem_of_lookup hmeaning)
  · exact absurd h (by simp)

namespace Expr

/-- A call that is right is of a function that serves as many numbers as there are arguments. -/
lemma serves_of_callee {s nameSpan : Span} {f : String} {b : Builtin} {xs : List Float}
    (h : callee s f nameSpan xs.length = .ok b) : b.Serves xs := by
  unfold callee at h
  split at h
  · exact absurd h (by simp)
  · rename_i b' hbuiltin
    split at h
    · rename_i haccepts
      obtain rfl := Except.ok.inj h
      exact (formed_of_builtin? hbuiltin).serves haccepts
    · exact absurd h (by simp)

lemma length_of_values {scope : Scope} {es : List Expr} {xs : List Float}
    (h : values scope es = .ok xs) : xs.length = es.length := by
  induction es generalizing xs with
  | nil =>
    obtain rfl := Except.ok.inj h
    rfl
  | cons e es ih =>
    rw [values] at h
    obtain ⟨x, -, h⟩ := bind_eq_ok.1 h
    obtain ⟨ys, hys, h⟩ := bind_eq_ok.1 h
    obtain rfl := Except.ok.inj h
    rw [List.length_cons, List.length_cons, ih hys]

end Expr

/-! ## Results with notes -/

/-- A result, and the functions that were applied on the way with the numbers they were applied to. -/
structure Noted (α : Type) where
  notes : List (Builtin × List Float)
  result : Except Fault α

namespace Noted

instance : Monad Noted where
  pure a := ⟨[], .ok a⟩
  bind r k := match r.result with
    | .ok a => ⟨r.notes ++ (k a).notes, (k a).result⟩
    | .error fault => ⟨r.notes, .error fault⟩

/-- A result that no function was applied for. -/
def of {α : Type} (r : Except Fault α) : Noted α :=
  ⟨[], r⟩

/-- Applies a function and notes it. -/
def apply (b : Builtin) (xs : List Float) : Noted Float :=
  ⟨[(b, xs)], .ok (b.apply xs)⟩

variable {α β : Type} {r : Noted α} {k : α → Noted β}

@[simp] lemma result_of (r : Except Fault α) : (of r).result = r := rfl

@[simp] lemma result_pure (a : α) : (pure a : Noted α).result = pure a := rfl

@[simp] lemma result_apply (b : Builtin) (xs : List Float) :
    (apply b xs).result = pure (b.apply xs) := rfl

@[simp] lemma result_bind : (r >>= k).result = r.result >>= fun a => (k a).result := by
  obtain ⟨notes, _ | a⟩ := r <;> rfl

/-- All functions that were applied serve what they were applied to. -/
def Served (r : Noted α) : Prop :=
  ∀ note ∈ r.notes, note.1.Serves note.2

lemma served_of (r : Except Fault α) : (of r).Served :=
  fun _ h => absurd h List.not_mem_nil

lemma served_pure (a : α) : (pure a : Noted α).Served :=
  fun _ h => absurd h List.not_mem_nil

lemma served_apply {b : Builtin} {xs : List Float} (h : b.Serves xs) : (apply b xs).Served :=
  List.forall_mem_singleton.2 h

lemma served_bind (hr : r.Served) (hk : ∀ a, r.result = .ok a → (k a).Served) :
    (r >>= k).Served := by
  obtain ⟨notes, _ | a⟩ := r
  · exact hr
  · intro note hnote
    rcases List.mem_append.1 hnote with hnote | hnote
    · exact hr note hnote
    · exact hk a rfl note hnote

end Noted

/-! ## Evaluation with notes -/

namespace Expr

open Arithmetic

mutual

/-- The number that an expression comes to in a scope, with the functions that are applied. -/
def noted (scope : Scope) : Expr → Noted Float
  | number _ x => pure x
  | text s _ => .of (.error (.quotedText s))
  | symbol s name => .of (scope.read name s)
  | binary _ op l r => do
    let x ← l.noted scope
    match op.decided? x with
    | some y => return y
    | none => return op.apply x (← r.noted scope)
  | unary _ op e => do return op.apply (← e.noted scope)
  | conditional _ c y n => do
    if truthy (← c.noted scope) then y.noted scope else n.noted scope
  | call s f nameSpan args => do
    let b ← .of (callee s f nameSpan args.length)
    .apply b (← notedOfAll scope args)

/-- The numbers that expressions come to, with the functions that are applied. -/
def notedOfAll (scope : Scope) : List Expr → Noted (List Float)
  | [] => pure []
  | e :: es => do return (← e.noted scope) :: (← notedOfAll scope es)

end

section
variable {scope : Scope}

lemma result_notedOfAll {es : List Expr}
    (h : ∀ a ∈ es, (a.noted scope).result = a.value scope) :
    (notedOfAll scope es).result = values scope es := by
  induction es with
  | nil => rfl
  | cons e es ih =>
    have hes := ih fun a ha => h a (List.mem_cons_of_mem e ha)
    simp only [notedOfAll, values, Noted.result_bind, Noted.result_pure, h e List.mem_cons_self, hes]

/-- The notes do not change the result. -/
theorem result_noted (e : Expr) : (e.noted scope).result = e.value scope := by
  induction e with
  | number s x => rfl
  | text s t => rfl
  | symbol s name => rfl
  | binary s op l r hl hr =>
    rw [noted, value, Noted.result_bind, hl]
    congr 1
    funext x
    rcases op.decided? x with _ | y
    · rw [← hr, Noted.result_bind]
      rfl
    · rfl
  | unary s op e he =>
    rw [noted, value, Noted.result_bind, he]
    rfl
  | conditional s c y n hc hy hn =>
    rw [noted, value, Noted.result_bind, hc]
    congr 1
    funext x
    split
    · exact hy
    · exact hn
  | call s f nameSpan args hargs =>
    have hresults := result_notedOfAll hargs
    simp only [noted, value, Noted.result_bind, Noted.result_of, Noted.result_apply, hresults]

lemma served_notedOfAll {es : List Expr} (h : ∀ a ∈ es, (a.noted scope).Served) :
    (notedOfAll scope es).Served := by
  induction es with
  | nil => exact Noted.served_pure _
  | cons e es ih =>
    rw [notedOfAll]
    refine Noted.served_bind (h e List.mem_cons_self) fun x _ => ?_
    refine Noted.served_bind (ih fun a ha => h a (List.mem_cons_of_mem e ha)) fun xs _ => ?_
    exact Noted.served_pure _

/-- Evaluation applies a function only to numbers that it serves. -/
theorem served_noted (e : Expr) : (e.noted scope).Served := by
  induction e with
  | number s x => exact Noted.served_pure x
  | text s t => exact Noted.served_of _
  | symbol s name => exact Noted.served_of _
  | binary s op l r hl hr =>
    rw [noted]
    refine Noted.served_bind hl fun x _ => ?_
    rcases op.decided? x with _ | y
    · exact Noted.served_bind hr fun y _ => Noted.served_pure _
    · exact Noted.served_pure y
  | unary s op e he =>
    rw [noted]
    exact Noted.served_bind he fun x _ => Noted.served_pure _
  | conditional s c y n hc hy hn =>
    rw [noted]
    refine Noted.served_bind hc fun x _ => ?_
    split
    · exact hy
    · exact hn
  | call s f nameSpan args hargs =>
    rw [noted]
    refine Noted.served_bind (Noted.served_of _) fun b hb => ?_
    refine Noted.served_bind (served_notedOfAll hargs) fun xs hxs => ?_
    -- the arguments have as many numbers as the arity was asked about
    rw [result_notedOfAll fun a _ => result_noted a] at hxs
    rw [Noted.result_of, ← length_of_values hxs] at hb
    exact Noted.served_apply (serves_of_callee hb)

end

end Expr
end Formulary
