import Formulary.Proofs.Expr.Evaluation
import Formulary.Proofs.Result
/-!
# What can go wrong in evaluation

A fault of evaluation is one that a node of the expression has by itself (`Expr.exists_own_of_value`).
If the expression is resolved, little is left (`Expr.Outcome`): a variable without a binding, the word
`end`, or a number that is not finite.

Evaluation lacks a variable exactly if it comes to one that the scope does not bind
(`Expr.isUnbound_value_iff`); the variables that it comes to are `Expr.reads`.
-/

namespace Formulary

open Result

/-! ## The words of the vocabulary -/

lemma eq_end_of_meaning? {word : String} (h : meaning? word = some .reserved) : word = "end" := by
  have hmem : (word, Meaning.reserved) ∈ vocabulary := mem_of_lookup h
  simpa [vocabulary] using hmem

/-- No identifier of a variable is a word. -/
lemma variableOf?_of_meaning? {word : String} {m : Meaning} (h : meaning? word = some m) :
    variableOf? word = none := by
  have hnone : ∀ entry ∈ vocabulary, variableOf? entry.1 = none := by decide
  exact hnone _ (mem_of_lookup h)

lemma builtin?_identifierOf (v : String) : builtin? (identifierOf v) = none := by
  rcases hm : meaning? (identifierOf v) with _ | m
  · rw [builtin?, hm]
  · have hnone := variableOf?_of_meaning? hm
    rw [variableOf?_identifierOf] at hnone
    exact absurd hnone (by simp)

namespace Expr

/-! ## Faults of single nodes -/

/-- The fault that a node has by itself in a scope, whatever is below it. -/
def own? (scope : Scope) : Expr → Option Fault
  | text s _ => some (.quotedText s)
  | symbol s name =>
    match scope.read name s with
    | .error fault => some fault
    | .ok _ => none
  | call s f nameSpan args => callFault? (call s f nameSpan args)
  | _ => none

lemma exists_own_of_values {scope : Scope} {fault : Fault} {es : List Expr}
    (hes : ∀ a ∈ es, a.value scope = .error fault → ∃ n ∈ a.nodes, n.own? scope = some fault)
    (h : values scope es = .error fault) :
    ∃ a ∈ es, ∃ n ∈ a.nodes, n.own? scope = some fault := by
  induction es with
  | nil => exact absurd h (by simp [values])
  | cons e es ih =>
    rw [values] at h
    rcases bind_eq_error.1 h with h | ⟨x, -, h⟩
    · exact ⟨e, List.mem_cons_self, hes e List.mem_cons_self h⟩
    · rcases bind_eq_error.1 h with h | ⟨xs, -, h⟩
      · obtain ⟨a, ha, hn⟩ := ih (fun a ha => hes a (List.mem_cons_of_mem e ha)) h
        exact ⟨a, List.mem_cons_of_mem e ha, hn⟩
      · exact absurd h (by simp [pure, Except.pure])

/-- A fault of evaluation is a fault that some node has by itself. -/
theorem exists_own_of_value {scope : Scope} {fault : Fault} {e : Expr}
    (h : e.value scope = .error fault) : ∃ n ∈ e.nodes, n.own? scope = some fault := by
  induction e with
  | number s x => exact absurd h (by simp [value])
  | text s t =>
    refine ⟨text s t, self_mem_nodes _, ?_⟩
    rw [value] at h
    exact congrArg some (Except.error.inj h)
  | symbol s name =>
    refine ⟨symbol s name, self_mem_nodes _, ?_⟩
    rw [value] at h
    simp only [own?, h]
  | binary s op l r hl hr =>
    rw [value] at h
    rcases bind_eq_error.1 h with h | ⟨x, -, h⟩
    · obtain ⟨n, hn, hown⟩ := hl h
      exact ⟨n, by simp [hn], hown⟩
    · rcases hd : op.decided? x with _ | d
      · rw [hd] at h
        rcases bind_eq_error.1 h with h | ⟨y, -, h⟩
        · obtain ⟨n, hn, hown⟩ := hr h
          exact ⟨n, by simp [hn], hown⟩
        · exact absurd h (by simp [pure, Except.pure])
      · rw [hd] at h
        exact absurd h (by simp [pure, Except.pure])
  | unary s op e he =>
    rw [value] at h
    rcases bind_eq_error.1 h with h | ⟨x, -, h⟩
    · obtain ⟨n, hn, hown⟩ := he h
      exact ⟨n, by simp [hn], hown⟩
    · exact absurd h (by simp [pure, Except.pure])
  | conditional s c y n hc hy hn =>
    rw [value] at h
    rcases bind_eq_error.1 h with h | ⟨x, -, h⟩
    · obtain ⟨m, hm, hown⟩ := hc h
      exact ⟨m, by simp [hm], hown⟩
    · split at h
      · obtain ⟨m, hm, hown⟩ := hy h
        exact ⟨m, by simp [hm], hown⟩
      · obtain ⟨m, hm, hown⟩ := hn h
        exact ⟨m, by simp [hm], hown⟩
  | call s f nameSpan args hargs =>
    rw [value] at h
    rcases bind_eq_error.1 h with h | ⟨b, -, h⟩
    · refine ⟨call s f nameSpan args, self_mem_nodes _, ?_⟩
      simp only [own?, callFault?, h]
    · rcases bind_eq_error.1 h with h | ⟨xs, -, h⟩
      · obtain ⟨a, ha, m, hm, hown⟩ := exists_own_of_values hargs h
        exact ⟨m, by simp only [mem_nodes_call]; exact .inr ⟨a, ha, hm⟩, hown⟩
      · exact absurd h (by simp [pure, Except.pure])

/-! ## Resolved expressions -/

/-- No node of a resolved expression is an offence: its symbols and the functions that it calls are
known, it holds no quoted text, and its calls are right. -/
structure Resolved (e : Expr) : Prop where
  known : ∀ n ∈ e.nodes, n.unknown? = none
  unquoted : ∀ n ∈ e.nodes, n.quotedText? = none
  callable : ∀ n ∈ e.nodes, n.callFault? = none

theorem resolutionFault?_eq_none_iff {e : Expr} : e.resolutionFault? = none ↔ e.Resolved := by
  unfold resolutionFault? firstUnknown?
  rw [first?_eq, first?_eq, first?_eq]
  constructor
  · intro h
    split at h
    · exact absurd h (by simp)
    · rename_i hknown
      split at h
      · exact absurd h (by simp)
      · rename_i hquoted
        exact ⟨List.findSome?_eq_none_iff.1 hknown, List.findSome?_eq_none_iff.1 hquoted,
          List.findSome?_eq_none_iff.1 h⟩
  · rintro ⟨hknown, hquoted, hcalls⟩
    rw [List.findSome?_eq_none_iff.2 hknown, List.findSome?_eq_none_iff.2 hquoted,
      List.findSome?_eq_none_iff.2 hcalls]

/-- How the evaluation of a resolved expression can end: with a finite number; with one that is not
finite, for which a function may stand; or at a symbol of the expression, which is the reserved word or
the identifier of a variable that the scope does not bind. -/
inductive Outcome (e : Expr) (scope : Scope) : Except Fault Float → Prop
  | finite {x : Float} : x.isFinite = true → Outcome e scope (.ok x)
  | notFinite {x : Float} : x.isFinite = false → Outcome e scope (.error (.notFinite x))
  | reserved {s : Span} :
    symbol s "end" ∈ e.nodes → Outcome e scope (.error (.unknownSymbol "end" s none))
  | unbound {v : String} {s : Span} : symbol s (identifierOf v) ∈ e.nodes → scope.get? v = none →
    Outcome e scope (.error (scope.unboundFault v s))

lemma value_error_of_resolved {scope : Scope} {fault : Fault} {e : Expr} (he : e.Resolved)
    (h : e.value scope = .error fault) : Outcome e scope (.error fault) := by
  obtain ⟨n, hn, hown⟩ := exists_own_of_value h
  cases n with
  | text s t => exact absurd (he.unquoted _ hn) (by simp [quotedText?])
  | call s f nameSpan args => exact absurd (he.callable _ hn) (by rw [own?] at hown; simp [hown])
  | symbol s name =>
    -- a known name is a variable or one of the three kinds of words
    have hknown : isKnown name = true := by simpa [unknown?, symbol?] using he.known _ hn
    simp only [own?, Scope.read] at hown
    rcases hv : variableOf? name with _ | v
    · rcases hm : meaning? name with _ | meaning
      · simp [isKnown, hv, isWord, hm] at hknown
      · cases meaning with
        | constant x => simp [hv, hm] at hown
        | function b =>
          simp only [hv, hm, Option.some.injEq] at hown
          rw [← hown]
          exact .notFinite rfl
        | reserved =>
          obtain rfl := eq_end_of_meaning? hm
          simp only [hv, hm, Option.some.injEq] at hown
          rw [← hown]
          exact .reserved hn
    · rcases hget : scope.get? v with _ | x
      · simp only [hv, hget, Option.some.injEq] at hown
        obtain rfl := identifierOf_of_variableOf? hv
        rw [← hown]
        exact .unbound hn hget
      · simp [hv, hget] at hown
  | _ => simp [own?] at hown

/-- The evaluation of a resolved expression does not get stuck. -/
theorem evaluate_of_resolved {e : Expr} (he : e.Resolved) (scope : Scope) :
    Outcome e scope (e.evaluate scope) := by
  rw [evaluate_eq_bind]
  rcases h : e.value scope with fault | x
  · exact value_error_of_resolved he h
  · rw [ok_bind, Expr.finite]
    by_cases hx : x.isFinite = true
    · rw [if_pos hx]
      exact .finite hx
    · rw [if_neg hx]
      exact .notFinite (by simpa using hx)

/-! ## The variables that evaluation comes to -/

mutual

/-- The variables that evaluation comes to in a scope, up to the first that the scope does not bind. -/
def reads (scope : Scope) : Expr → List String
  | number .. | text .. => []
  | symbol _ name => (variableOf? name).toList
  | binary _ op l r =>
    l.reads scope ++ match l.value scope with
      | .ok x => if (op.decided? x).isSome then [] else r.reads scope
      | .error _ => []
  | unary _ _ e => e.reads scope
  | conditional _ c y n =>
    c.reads scope ++ match c.value scope with
      | .ok x => if Arithmetic.truthy x then y.reads scope else n.reads scope
      | .error _ => []
  | call s f nameSpan args =>
    match callee s f nameSpan args.length with
    | .ok _ => readsOfAll scope args
    | .error _ => []

/-- The variables that evaluation of a list comes to. -/
def readsOfAll (scope : Scope) : List Expr → List String
  | [] => []
  | e :: es =>
    e.reads scope ++ match e.value scope with
      | .ok _ => readsOfAll scope es
      | .error _ => []

end

lemma mem_readsOfAll {scope : Scope} {v : String} {es : List Expr}
    (h : v ∈ readsOfAll scope es) : ∃ a ∈ es, v ∈ a.reads scope := by
  induction es with
  | nil => exact absurd h (by simp [readsOfAll])
  | cons e es ih =>
    rw [readsOfAll] at h
    rcases List.mem_append.1 h with h | h
    · exact ⟨e, List.mem_cons_self, h⟩
    · split at h
      · obtain ⟨a, ha, hv⟩ := ih h
        exact ⟨a, List.mem_cons_of_mem e ha, hv⟩
      · exact absurd h List.not_mem_nil

lemma exists_symbol_of_mem_reads {scope : Scope} {v : String} {e : Expr} (h : v ∈ e.reads scope) :
    ∃ s name, symbol s name ∈ e.nodes ∧ variableOf? name = some v := by
  induction e with
  | number s x => exact absurd h (by simp [reads])
  | text s t => exact absurd h (by simp [reads])
  | symbol s name => exact ⟨s, name, self_mem_nodes _, by simpa [reads] using h⟩
  | binary s op l r hl hr =>
    rw [reads] at h
    rcases List.mem_append.1 h with h | h
    · obtain ⟨sp, name, hn, hv⟩ := hl h
      exact ⟨sp, name, by simp [hn], hv⟩
    · split at h
      · split at h
        · exact absurd h List.not_mem_nil
        · obtain ⟨sp, name, hn, hv⟩ := hr h
          exact ⟨sp, name, by simp [hn], hv⟩
      · exact absurd h List.not_mem_nil
  | unary s op e he =>
    rw [reads] at h
    obtain ⟨sp, name, hn, hv⟩ := he h
    exact ⟨sp, name, by simp [hn], hv⟩
  | conditional s c y n hc hy hn =>
    rw [reads] at h
    rcases List.mem_append.1 h with h | h
    · obtain ⟨sp, name, hm, hv⟩ := hc h
      exact ⟨sp, name, by simp [hm], hv⟩
    · split at h
      · split at h
        · obtain ⟨sp, name, hm, hv⟩ := hy h
          exact ⟨sp, name, by simp [hm], hv⟩
        · obtain ⟨sp, name, hm, hv⟩ := hn h
          exact ⟨sp, name, by simp [hm], hv⟩
      · exact absurd h List.not_mem_nil
  | call s f nameSpan args hargs =>
    rw [reads] at h
    split at h
    · obtain ⟨a, ha, hread⟩ := mem_readsOfAll h
      obtain ⟨sp, name, hn, hv⟩ := hargs a ha hread
      exact ⟨sp, name, by simp only [mem_nodes_call]; exact .inr ⟨a, ha, hn⟩, hv⟩
    · exact absurd h List.not_mem_nil

lemma mem_mentions_of_mem_reads {scope : Scope} {v : String} {e : Expr}
    (h : v ∈ e.reads scope) : v ∈ e.mentions :=
  mem_mentions.2 (exists_symbol_of_mem_reads h)

/-- Whether a scope lacks one of the variables of a list. -/
def Lacks (scope : Scope) (vs : List String) : Prop :=
  ∃ v ∈ vs, scope.get? v = none

lemma not_lacks_nil (scope : Scope) : ¬ Lacks scope [] := by
  rintro ⟨v, hv, -⟩
  exact List.not_mem_nil hv

lemma lacks_append {scope : Scope} {vs ws : List String} :
    Lacks scope (vs ++ ws) ↔ Lacks scope vs ∨ Lacks scope ws := by
  simp only [Lacks, List.mem_append, or_and_right, exists_or]

lemma isUnbound_bind {α β : Type} {r : Except Fault α} {k : α → Except Fault β} :
    IsUnbound (r >>= k) ↔ IsUnbound r ∨ ∃ a, r = .ok a ∧ IsUnbound (k a) := by
  cases r with
  | error fault => simp [IsUnbound]
  | ok a => simp [IsUnbound]

/-- What is made of a value at the end lacks no variable. -/
lemma isUnbound_bind_ok {α β : Type} {r : Except Fault α} {f : α → β} :
    IsUnbound (r >>= fun a => pure (f a)) ↔ IsUnbound r := by
  rw [isUnbound_bind]
  refine or_iff_left ?_
  rintro ⟨a, -, ha⟩
  exact not_isUnbound_ok (f a) ha

lemma not_isUnbound_callee {s nameSpan : Span} {f : String} {count : Nat} {fault : Fault}
    (h : callee s f nameSpan count = .error fault) :
    ¬ IsUnbound (.error fault : Except Fault Builtin) := by
  rintro ⟨name, sp, suggestion, hu⟩
  rw [hu, callee] at h
  split at h
  · exact absurd h (by simp)
  · split at h <;> exact absurd h (by simp)

lemma isUnbound_read_iff {scope : Scope} {name : String} {s : Span} :
    IsUnbound (scope.read name s) ↔ Lacks scope (variableOf? name).toList := by
  rw [Scope.read]
  rcases hv : variableOf? name with _ | v
  · refine iff_of_false ?_ (not_lacks_nil scope)
    rcases hm : meaning? name with _ | m
    · simp [IsUnbound]
    · cases m <;> simp [IsUnbound]
  · rcases hget : scope.get? v with _ | x
    · refine iff_of_true ⟨v, some s, _, by simp only [hget]; rfl⟩ ⟨v, by simp, hget⟩
    · simp [IsUnbound, Lacks, hget]

lemma isUnbound_values_iff {scope : Scope} {es : List Expr}
    (hes : ∀ a ∈ es, (IsUnbound (a.value scope) ↔ Lacks scope (a.reads scope))) :
    IsUnbound (values scope es) ↔ Lacks scope (readsOfAll scope es) := by
  induction es with
  | nil => exact iff_of_false (not_isUnbound_ok []) (not_lacks_nil scope)
  | cons e es ih =>
    rw [values, readsOfAll, isUnbound_bind, lacks_append, hes e List.mem_cons_self]
    refine or_congr_right ?_
    rcases e.value scope with fault | x
    · simp [not_lacks_nil]
    · simp only [Except.ok.injEq, exists_eq_left', isUnbound_bind_ok]
      exact ih fun a ha => hes a (List.mem_cons_of_mem e ha)

/-- Evaluation lacks a variable exactly if it comes to one that the scope does not bind. -/
theorem isUnbound_value_iff {scope : Scope} {e : Expr} :
    IsUnbound (e.value scope) ↔ Lacks scope (e.reads scope) := by
  -- `reads` follows `value`: each part is come to exactly if those before it have numbers
  induction e with
  | number s x => exact iff_of_false (not_isUnbound_ok x) (not_lacks_nil scope)
  | text s t => exact iff_of_false (by simp [IsUnbound, value]) (not_lacks_nil scope)
  | symbol s name =>
    rw [value, reads]
    exact isUnbound_read_iff
  | binary s op l r hl hr =>
    rw [value, reads, isUnbound_bind, lacks_append, hl]
    refine or_congr_right ?_
    rcases l.value scope with fault | x
    · simp [not_lacks_nil]
    · simp only [Except.ok.injEq, exists_eq_left']
      rcases op.decided? x with _ | d
      · simp only [isUnbound_bind_ok, hr, Option.isSome_none, Bool.false_eq_true, if_false]
      · exact iff_of_false (not_isUnbound_ok d) (not_lacks_nil scope)
  | unary s op e he =>
    rw [value, reads, isUnbound_bind_ok, he]
  | conditional s c y n hc hy hn =>
    rw [value, reads, isUnbound_bind, lacks_append, hc]
    refine or_congr_right ?_
    rcases c.value scope with fault | x
    · simp [not_lacks_nil]
    · simp only [Except.ok.injEq, exists_eq_left']
      split
      · exact hy
      · exact hn
  | call s f nameSpan args hargs =>
    rw [value, reads, isUnbound_bind]
    rcases hb : callee s f nameSpan args.length with fault | b
    · refine iff_of_false ?_ (not_lacks_nil scope)
      simp only [reduceCtorEq, false_and, exists_false, or_false]
      exact not_isUnbound_callee hb
    · simp only [not_isUnbound_ok, Except.ok.injEq, exists_eq_left', false_or, isUnbound_bind_ok]
      exact isUnbound_values_iff hargs

theorem isUnbound_evaluate_iff {scope : Scope} {e : Expr} :
    IsUnbound (e.evaluate scope) ↔ Lacks scope (e.reads scope) := by
  rw [evaluate_eq_bind, isUnbound_bind, isUnbound_value_iff]
  refine or_iff_left ?_
  rintro ⟨x, -, name, s, suggestion, h⟩
  rw [finite] at h
  split at h <;> exact absurd h (by simp)

end Expr
end Formulary
