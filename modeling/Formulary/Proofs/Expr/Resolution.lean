import Formulary.Proofs.Expr.Faults
import Formulary.Proofs.Expr.Preorder
/-!
# What keeps an expression from being resolved

The three kinds of offence of a node, each by itself: it brings in a name that is not allowed, it is a
quoted text, or it is a wrong call. Resolution finds an offence exactly if there is one, and the one that
it reports is the first in preorder among those of the first kind that there is
(`Expr.resolutionFault?_exact`).
-/

namespace Formulary

/-- Names that may stand in an expression: the identifiers of variables and the words of the vocabulary,
which are constants, functions or reserved. -/
def IsAllowed (name : String) : Prop :=
  (∃ v, name = identifierOf v) ∨ (∃ x, constant? name = some x) ∨ (∃ b, builtin? name = some b) ∨
    isReserved name = true

lemma isKnown_iff {name : String} : isKnown name = true ↔ IsAllowed name := by
  have hvariable : (variableOf? name).isSome = true ↔ ∃ v, name = identifierOf v := by
    rw [Option.isSome_iff_exists]
    constructor
    · rintro ⟨v, hv⟩
      exact ⟨v, (identifierOf_of_variableOf? hv).symm⟩
    · rintro ⟨v, rfl⟩
      exact ⟨v, variableOf?_identifierOf v⟩
  have hword : isWord name = true ↔ (∃ x, constant? name = some x) ∨
      (∃ b, builtin? name = some b) ∨ isReserved name = true := by
    rw [isWord, constant?, builtin?, isReserved]
    rcases meaning? name with _ | (_ | _ | _) <;> simp
  rw [isKnown, Bool.or_eq_true, hvariable, hword, IsAllowed]

namespace Expr

/-! ## Offences of nodes -/

/-- A node brings in a name, written at a span: it is a symbol, or it calls a function. -/
inductive BringsIn : Expr → String → Span → Prop
  | symbol {s : Span} {name : String} : BringsIn (symbol s name) name s
  | call {s nameSpan : Span} {f : String} {args : List Expr} :
    BringsIn (call s f nameSpan args) f nameSpan

lemma BringsIn.unique {n : Expr} {name name' : String} {s s' : Span} (h : n.BringsIn name s)
    (h' : n.BringsIn name' s') : name = name' ∧ s = s' := by
  cases h <;> cases h' <;> exact ⟨rfl, rfl⟩

/-- A node brings in a name that is not allowed. -/
def IsUnknown (n : Expr) : Prop :=
  ∃ name s, n.BringsIn name s ∧ ¬ IsAllowed name

/-- A node is a quoted text. -/
def IsQuoted (n : Expr) : Prop :=
  ∃ s t, n = text s t

/-- A node is a call, and this is wrong with it: what it calls is no function, and is named as the user
writes it; or it has a wrong number of arguments. -/
inductive IsBadCall : Expr → Fault → Prop
  | reference {s nameSpan : Span} {v : String} {args : List Expr} :
    IsBadCall (call s (identifierOf v) nameSpan args) (.notFunction v nameSpan)
  | word {s nameSpan : Span} {f : String} {args : List Expr} :
    (∀ v, f ≠ identifierOf v) → builtin? f = none →
    IsBadCall (call s f nameSpan args) (.notFunction f nameSpan)
  | count {s nameSpan : Span} {f : String} {args : List Expr} {b : Builtin} :
    builtin? f = some b → b.arity.accepts args.length = false →
    IsBadCall (call s f nameSpan args) (.wrongCount f b.arity args.length s)

lemma unknown?_eq_some_iff {n : Expr} {name : String} {s : Span} :
    n.unknown? = some (name, s) ↔ n.BringsIn name s ∧ ¬ IsAllowed name := by
  rw [unknown?, Option.filter_eq_some_iff, Bool.not_eq_true', ← isKnown_iff, Bool.not_eq_true]
  refine and_congr_left' ⟨fun h => ?_, fun h => ?_⟩
  · cases n <;> cases h <;> constructor
  · cases h <;> rfl

lemma unknown?_ne_none_iff {n : Expr} : n.unknown? ≠ none ↔ n.IsUnknown := by
  rw [Option.ne_none_iff_exists']
  constructor
  · rintro ⟨⟨name, s⟩, h⟩
    exact ⟨name, s, unknown?_eq_some_iff.1 h⟩
  · rintro ⟨name, s, h⟩
    exact ⟨(name, s), unknown?_eq_some_iff.2 h⟩

lemma quotedText?_eq_some_iff {n : Expr} {s : Span} : n.quotedText? = some s ↔ ∃ t, n = text s t := by
  cases n <;> simp [quotedText?]

lemma quotedText?_ne_none_iff {n : Expr} : n.quotedText? ≠ none ↔ n.IsQuoted := by
  rw [Option.ne_none_iff_exists']
  simp only [quotedText?_eq_some_iff, IsQuoted]

lemma callFault?_eq_some_iff {n : Expr} {fault : Fault} :
    n.callFault? = some fault ↔ n.IsBadCall fault := by
  constructor
  · intro h
    cases n with
    | call s f nameSpan args =>
      rw [callFault?, callee] at h
      rcases hf : builtin? f with _ | b
      · simp only [hf, Option.some.injEq] at h
        rw [← h]
        rcases hv : variableOf? f with _ | v
        · refine .word (fun v hfv => ?_) hf
          rw [hfv, variableOf?_identifierOf] at hv
          exact absurd hv (by simp)
        · obtain rfl := identifierOf_of_variableOf? hv
          exact .reference
      · simp only [hf] at h
        split at h
        · rename_i hcount
          split at hcount
          · exact absurd hcount (by simp)
          · rename_i hrefused
            rw [← Option.some.inj h, ← Except.error.inj hcount]
            exact .count hf (by simpa using hrefused)
        · exact absurd h (by simp)
    | _ => exact absurd h (by simp [callFault?])
  · intro h
    cases h with
    | reference => simp [callFault?, callee, builtin?_identifierOf]
    | @word s nameSpan f args hname hf =>
      have hv : variableOf? f = none := by
        by_contra hv
        obtain ⟨v, hv⟩ := Option.ne_none_iff_exists'.1 hv
        exact hname v (identifierOf_of_variableOf? hv).symm
      simp [callFault?, callee, hf, hv]
    | count hf hcount => simp [callFault?, callee, hf, hcount]

lemma callFault?_ne_none_iff {n : Expr} : n.callFault? ≠ none ↔ ∃ fault, n.IsBadCall fault := by
  rw [Option.ne_none_iff_exists']
  simp only [callFault?_eq_some_iff]

/-! ## Offences of expressions -/

/-- Nothing keeps an expression from being resolved: every symbol and every function that is called is
allowed, there is no quoted text, and each call is of a function that takes its arguments. -/
structure IsSound (e : Expr) : Prop where
  allowed : ∀ n ∈ e.nodes, ∀ name s, n.BringsIn name s → IsAllowed name
  unquoted : ∀ n ∈ e.nodes, ¬ n.IsQuoted
  called : ∀ s f nameSpan args, call s f nameSpan args ∈ e.nodes →
    ∃ b, builtin? f = some b ∧ b.arity.accepts args.length = true

/-- The fault of an expression: names that are not allowed come before quoted texts and these before
wrong calls, and of one kind it is the first in preorder. -/
inductive FirstOffence (e : Expr) : Fault → Prop
  | unknown {place : List Nat} {n : Expr} {name : String} {s : Span} :
    e.First IsUnknown place n → n.BringsIn name s →
    FirstOffence e (.unknownSymbol name s (closest? name words suggestionDistance))
  | quoted {place : List Nat} {s : Span} {t : String} :
    (∀ n ∈ e.nodes, ¬ n.IsUnknown) → e.First IsQuoted place (text s t) →
    FirstOffence e (.quotedText s)
  | badCall {place : List Nat} {n : Expr} {fault : Fault} :
    (∀ n ∈ e.nodes, ¬ n.IsUnknown) → (∀ n ∈ e.nodes, ¬ n.IsQuoted) →
    e.First (fun m => ∃ fault, m.IsBadCall fault) place n → n.IsBadCall fault →
    FirstOffence e fault

variable {e : Expr}

theorem resolved_iff_isSound : e.Resolved ↔ e.IsSound := by
  constructor
  · rintro ⟨hknown, hunquoted, hcallable⟩
    refine ⟨fun n hn name s hname => ?_, fun n hn hquoted => ?_, fun s f nameSpan args hn => ?_⟩
    · by_contra hname'
      exact unknown?_ne_none_iff.2 ⟨name, s, hname, hname'⟩ (hknown n hn)
    · exact quotedText?_ne_none_iff.2 hquoted (hunquoted n hn)
    · have hcall := hcallable _ hn
      rcases hf : builtin? f with _ | b
      · exact absurd hcall (by simp [callFault?, callee, hf])
      · refine ⟨b, rfl, ?_⟩
        by_contra hcount
        exact absurd hcall (by simp [callFault?, callee, hf, hcount])
  · rintro ⟨hallowed, hunquoted, hcalled⟩
    refine ⟨fun n hn => ?_, fun n hn => ?_, fun n hn => ?_⟩
    · by_contra hunknown
      obtain ⟨name, s, hname, hname'⟩ := unknown?_ne_none_iff.1 hunknown
      exact hname' (hallowed n hn name s hname)
    · by_contra hquoted
      exact hunquoted n hn (quotedText?_ne_none_iff.1 hquoted)
    · cases n with
      | call s f nameSpan args =>
        obtain ⟨b, hf, hcount⟩ := hcalled s f nameSpan args hn
        simp [callFault?, callee, hf, hcount]
      | _ => rfl

/-! ## The three searches -/

section
variable {α : Type} {ask : Expr → Option α} {P : Expr → Prop}

lemma first?_eq_none_iff_forall (h : ∀ n, ask n ≠ none ↔ P n) :
    e.first? ask = none ↔ ∀ n ∈ e.nodes, ¬ P n := by
  simp only [first?_eq_none_iff, ← h, not_not]

lemma first?_eq_some_iff_first {a : α} (h : ∀ n, ask n ≠ none ↔ P n) :
    e.first? ask = some a ↔ ∃ place n, ask n = some a ∧ e.First P place n := by
  obtain rfl : (fun n => ask n ≠ none) = P := funext fun n => propext (h n)
  exact first?_eq_some_iff

end

lemma first?_unknown?_eq_none_iff : e.first? unknown? = none ↔ ∀ n ∈ e.nodes, ¬ n.IsUnknown :=
  first?_eq_none_iff_forall fun _ => unknown?_ne_none_iff

lemma first?_unknown?_eq_some_iff {name : String} {s : Span} :
    e.first? unknown? = some (name, s) ↔
      ∃ place n, n.BringsIn name s ∧ e.First IsUnknown place n := by
  rw [first?_eq_some_iff_first fun _ => unknown?_ne_none_iff]
  constructor
  · rintro ⟨place, n, hn, hfirst⟩
    exact ⟨place, n, (unknown?_eq_some_iff.1 hn).1, hfirst⟩
  · rintro ⟨place, n, hname, hfirst⟩
    obtain ⟨name', s', hname', hfree⟩ := hfirst.holds
    obtain ⟨rfl, rfl⟩ := hname.unique hname'
    exact ⟨place, n, unknown?_eq_some_iff.2 ⟨hname, hfree⟩, hfirst⟩

lemma first?_quotedText?_eq_none_iff :
    e.first? quotedText? = none ↔ ∀ n ∈ e.nodes, ¬ n.IsQuoted :=
  first?_eq_none_iff_forall fun _ => quotedText?_ne_none_iff

lemma first?_quotedText?_eq_some_iff {s : Span} :
    e.first? quotedText? = some s ↔ ∃ place t, e.First IsQuoted place (text s t) := by
  rw [first?_eq_some_iff_first fun _ => quotedText?_ne_none_iff]
  constructor
  · rintro ⟨place, n, hn, hfirst⟩
    obtain ⟨t, rfl⟩ := quotedText?_eq_some_iff.1 hn
    exact ⟨place, t, hfirst⟩
  · rintro ⟨place, t, hfirst⟩
    exact ⟨place, _, rfl, hfirst⟩

lemma first?_callFault?_eq_some_iff {fault : Fault} :
    e.first? callFault? = some fault ↔
      ∃ place n, n.IsBadCall fault ∧ e.First (fun m => ∃ fault, m.IsBadCall fault) place n := by
  rw [first?_eq_some_iff_first fun _ => callFault?_ne_none_iff]
  simp only [callFault?_eq_some_iff]

/-- **Resolution is exact.** It finds nothing exactly if the symbols of an expression and the functions
that it calls are all allowed, it holds no quoted text, and each of its calls is right. Otherwise it
reports the first offence: a name that is not allowed before a quoted text and this before a wrong call,
and among offences of one kind the first in preorder, where a call comes before its arguments. -/
theorem resolutionFault?_exact (e : Expr) :
    (e.resolutionFault? = none ↔ e.IsSound) ∧
      ∀ fault, e.resolutionFault? = some fault ↔ e.FirstOffence fault := by
  refine ⟨resolutionFault?_eq_none_iff.trans resolved_iff_isSound, fun fault => ?_⟩
  rw [resolutionFault?, firstUnknown?]
  constructor
  · intro h
    rcases hunknown : e.first? unknown? with _ | ⟨name, s⟩
    · have hknown := first?_unknown?_eq_none_iff.1 hunknown
      rcases hquoted : e.first? quotedText? with _ | s
      · simp only [hunknown, hquoted] at h
        obtain ⟨place, n, hcall, hfirst⟩ := first?_callFault?_eq_some_iff.1 h
        exact .badCall hknown (first?_quotedText?_eq_none_iff.1 hquoted) hfirst hcall
      · obtain ⟨place, t, hfirst⟩ := first?_quotedText?_eq_some_iff.1 hquoted
        simp only [hunknown, hquoted, Option.some.injEq] at h
        exact h ▸ .quoted hknown hfirst
    · obtain ⟨place, n, hname, hfirst⟩ := first?_unknown?_eq_some_iff.1 hunknown
      simp only [hunknown, Option.some.injEq] at h
      exact h ▸ .unknown hfirst hname
  · intro h
    cases h with
    | unknown hfirst hname =>
      rw [first?_unknown?_eq_some_iff.2 ⟨_, _, hname, hfirst⟩]
      rfl
    | quoted hknown hfirst =>
      rw [first?_unknown?_eq_none_iff.2 hknown, first?_quotedText?_eq_some_iff.2 ⟨_, _, hfirst⟩]
    | badCall hknown hunquoted hfirst hcall =>
      rw [first?_unknown?_eq_none_iff.2 hknown, first?_quotedText?_eq_none_iff.2 hunquoted,
        first?_callFault?_eq_some_iff.2 ⟨_, _, hcall, hfirst⟩]

end Expr
end Formulary
