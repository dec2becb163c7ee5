import Formulary.Proofs.Formula.Diagnostics
import Formulary.Proofs.Formula.Name
/-!
# Names that may have been meant

A fault about a name can come with a name that may have been meant. What counts is how near it is: it
lies at a distance of one edit or two, no other candidate is nearer, and of those that are as near it
comes first (`Nearest`). The search takes the candidates one by one and holds the nearest of those it has
seen (`Holds`), so it finds the nearest of all (`candidate_iff_closest?`).

A bare word that is not known is looked for in the scope, then among the words of the vocabulary, then
among the names of the scope that are near (`Suggests`); a variable without a binding only among these
(`suggestion_exact`).
-/

namespace Formulary

open Result

/-! ## The nearest of the candidates -/

/-- A candidate is near a name if one edit or two make the one of the other. -/
def IsNear (name candidate : String) : Prop :=
  editDistance name candidate = 1 ∨ editDistance name candidate = 2

/-- The candidate that is taken for a name: it is near, every other one that is near is farther away, or
it is as far away and comes later. -/
structure Nearest (name : String) (earlier : String → String → Prop) (candidates : List String)
    (c : String) : Prop where
  mem : c ∈ candidates
  near : IsNear name c
  first : ∀ d ∈ candidates, d ≠ c → IsNear name d →
    editDistance name c < editDistance name d ∨
      editDistance name c = editDistance name d ∧ earlier c d

/-- What is found among candidates: the nearest, if one of them is near. -/
inductive Candidate (name : String) (earlier : String → String → Prop) (candidates : List String) :
    Option String → Prop
  | nearest {c : String} : Nearest name earlier candidates c →
    Candidate name earlier candidates (some c)
  | none : (∀ c ∈ candidates, ¬ IsNear name c) → Candidate name earlier candidates none

/-- What the search holds after it has seen some candidates. -/
inductive Holds (name : String) (earlier : String → String → Prop) (seen : List String) :
    Option (Nat × String) → Prop
  | nearest {c : String} : Nearest name earlier seen c →
    Holds name earlier seen (some (editDistance name c, c))
  | none : (∀ c ∈ seen, ¬ IsNear name c) → Holds name earlier seen none

section
variable {name b c d : String} {earlier : String → String → Prop} {seen candidates : List String}
  {held : Option (Nat × String)} {found : Option String}

lemma isNear_iff : IsNear name c ↔ 0 < editDistance name c ∧ editDistance name c ≤ suggestionDistance := by
  unfold IsNear suggestionDistance
  omega

lemma nearer_of_not_isNear (h : ¬ IsNear name c) : nearer name suggestionDistance held c = held := by
  rw [isNear_iff] at h
  rw [nearer, if_neg]
  simp only [Bool.and_eq_true, decide_eq_true_eq]
  exact fun hc => h hc.1

lemma nearer_of_isNear (h : IsNear name c) : nearer name suggestionDistance held c =
    if held.all (fun h => editDistance name c < h.1) then some (editDistance name c, c) else held := by
  obtain ⟨hpos, hle⟩ := isNear_iff.1 h
  simp only [nearer, hpos, hle, decide_true, Bool.true_and]

lemma Nearest.le (hc : Nearest name earlier seen c) (hd : d ∈ seen) (hnear : IsNear name d) :
    editDistance name c ≤ editDistance name d := by
  by_cases hdc : d = c
  · rw [hdc]
  · rcases hc.first d hd hdc hnear with hlt | ⟨heq, -⟩ <;> omega

/-- One more candidate is the nearest if it is nearer than all before it. -/
lemma Nearest.last (hc : IsNear name c)
    (h : ∀ d ∈ seen, IsNear name d → editDistance name c < editDistance name d) :
    Nearest name earlier (seen ++ [c]) c where
  mem := List.mem_append_right seen List.mem_cons_self
  near := hc
  first d hd hne hnear :=
    .inl (h d ((List.mem_append.1 hd).resolve_right fun hd => hne (List.mem_singleton.1 hd)) hnear)

/-- One more candidate that is not nearer does not take the place of the nearest. -/
lemma Nearest.stays (hb : Nearest name earlier seen b) (hlast : earlier b c)
    (h : IsNear name c → editDistance name b ≤ editDistance name c) :
    Nearest name earlier (seen ++ [c]) b where
  mem := List.mem_append_left [c] hb.mem
  near := hb.near
  first d hd hne hnear := by
    rcases List.mem_append.1 hd with hd | hd
    · exact hb.first d hd hne hnear
    · obtain rfl := List.mem_singleton.1 hd
      rcases Nat.lt_or_eq_of_le (h hnear) with hlt | heq
      · exact .inl hlt
      · exact .inr ⟨heq, hlast⟩

/-- The search takes one more candidate in the place of the one it holds only if it is nearer. -/
lemma Holds.nearer (h : Holds name earlier seen held) (hlast : ∀ d ∈ seen, earlier d c) :
    Holds name earlier (seen ++ [c]) (nearer name suggestionDistance held c) := by
  by_cases hnear : IsNear name c
  · rw [nearer_of_isNear hnear]
    cases h with
    | none hnone => exact .nearest (.last hnear fun d hd hd' => absurd hd' (hnone d hd))
    | @nearest b hb =>
      by_cases hlt : editDistance name c < editDistance name b
      · rw [if_pos (by simpa using hlt)]
        exact .nearest (.last hnear fun d hd hd' => Nat.lt_of_lt_of_le hlt (hb.le hd hd'))
      · rw [if_neg (by simpa using hlt)]
        exact .nearest (hb.stays (hlast b hb.mem) fun _ => Nat.not_lt.1 hlt)
  · rw [nearer_of_not_isNear hnear]
    cases h with
    | none hnone =>
      refine .none fun d hd => ?_
      rcases List.mem_append.1 hd with hd | hd
      · exact hnone d hd
      · rwa [List.mem_singleton.1 hd]
    | @nearest b hb => exact .nearest (hb.stays (hlast b hb.mem) fun h => absurd h hnear)

/-- The search holds the nearest of all candidates in the end. -/
lemma Holds.foldl (h : Holds name earlier seen held) (horder : (seen ++ candidates).Pairwise earlier) :
    Holds name earlier (seen ++ candidates)
      (candidates.foldl (Formulary.nearer name suggestionDistance) held) := by
  induction candidates generalizing seen held with
  | nil => simpa using h
  | cons c cs ih =>
    have hlast : ∀ d ∈ seen, earlier d c := fun d hd =>
      (List.pairwise_append.1 horder).2.2 d hd c List.mem_cons_self
    rw [List.append_cons] at horder ⊢
    exact ih (h.nearer hlast) horder

lemma candidate_closest? (name : String) (horder : candidates.Pairwise earlier) :
    Candidate name earlier candidates (closest? name candidates suggestionDistance) := by
  have hstart : Holds name earlier [] none := .none (List.forall_mem_nil _)
  have h := hstart.foldl horder
  rw [List.nil_append] at h
  rw [closest?]
  generalize candidates.foldl (Formulary.nearer name suggestionDistance) none = held at h
  cases h with
  | nearest hc => exact .nearest hc
  | none hnone => exact .none hnone

/-- Of two nearest candidates each would come before the other. -/
lemma Nearest.unique (hasymm : ∀ b c, earlier b c → ¬ earlier c b)
    (hc : Nearest name earlier candidates c) (hd : Nearest name earlier candidates d) : c = d := by
  by_contra hne
  rcases hc.first d hd.mem (Ne.symm hne) hd.near with hlt | ⟨heq, hcd⟩
  · rcases hd.first c hc.mem hne hc.near with hlt' | ⟨heq, -⟩ <;> omega
  · rcases hd.first c hc.mem hne hc.near with hlt | ⟨-, hdc⟩
    · omega
    · exact hasymm c d hcd hdc

/-- What is found among candidates in order is what the search finds. -/
theorem candidate_iff_closest? (horder : candidates.Pairwise earlier)
    (hasymm : ∀ b c, earlier b c → ¬ earlier c b) :
    Candidate name earlier candidates found ↔
      found = closest? name candidates suggestionDistance := by
  have hclosest := candidate_closest? name horder
  constructor
  · intro h
    generalize closest? name candidates suggestionDistance = other at hclosest ⊢
    cases h with
    | nearest hc =>
      cases hclosest with
      | nearest hd => exact congrArg some (hc.unique hasymm hd)
      | none hnone => exact absurd hc.near (hnone _ hc.mem)
    | none hnone =>
      cases hclosest with
      | nearest hd => exact absurd hd.near (hnone _ hd.mem)
      | none _ => rfl
  · rintro rfl
    exact hclosest

end

/-! ## Where a name is looked for -/

/-- One name of a scope was bound before another. -/
def Scope.BoundBefore (scope : Scope) (m n : String) : Prop :=
  scope.names.idxOf m < scope.names.idxOf n

/-- What is suggested for a bare word that is not known: the word itself if the scope binds it, or else
the nearest word of the vocabulary, of those that are as near the first in order, or else what is found
among the names of the scope, of those that are as near the one bound first. -/
inductive Suggests (scope : Scope) (name : String) : Option String → Prop
  | bound : name ∈ scope.names → Suggests scope name (some name)
  | word {w : String} : name ∉ scope.names → Nearest name (· < ·) words w →
    Suggests scope name (some w)
  | scopeName {found : Option String} : name ∉ scope.names → (∀ w ∈ words, ¬ IsNear name w) →
    Candidate name scope.BoundBefore scope.names found → Suggests scope name found

variable {scope : Scope} {name : String} {found : Option String}

/-- The vocabulary is in order. -/
lemma pairwise_words : words.Pairwise (· < ·) := by
  decide

lemma candidate_words_iff : Candidate name (· < ·) words found ↔
    found = closest? name words suggestionDistance :=
  candidate_iff_closest? pairwise_words fun _ _ h => String.lt_asymm h

lemma pairwise_boundBefore (scope : Scope) : scope.names.Pairwise scope.BoundBefore := by
  have hdistinct : scope.names.Nodup := scope.distinct
  refine List.pairwise_iff_getElem.2 fun i j hi hj hij => ?_
  rwa [Scope.BoundBefore, hdistinct.idxOf_getElem i hi, hdistinct.idxOf_getElem j hj]

lemma candidate_names_iff : Candidate name scope.BoundBefore scope.names found ↔
    found = closest? name scope.names suggestionDistance :=
  candidate_iff_closest? (pairwise_boundBefore scope) fun _ _ h => Nat.lt_asymm h

/-- What is suggested for a word is settled by the scope. -/
theorem suggests_iff : Suggests scope name found ↔ found =
    if scope.contains name then some name
    else (closest? name words suggestionDistance).or (closest? name scope.names suggestionDistance) := by
  have hwords : Candidate name (· < ·) words (closest? name words suggestionDistance) :=
    candidate_words_iff.2 rfl
  by_cases hbound : name ∈ scope.names
  · rw [if_pos (Scope.contains_iff_mem_names.2 hbound)]
    constructor
    · intro h
      cases h with
      | bound _ => rfl
      | word hfree _ => exact absurd hbound hfree
      | scopeName hfree _ _ => exact absurd hbound hfree
    · rintro rfl
      exact .bound hbound
  · rw [if_neg (fun h => hbound (Scope.contains_iff_mem_names.1 h))]
    generalize closest? name words suggestionDistance = word at hwords ⊢
    cases hwords with
    | @nearest w hw =>
      rw [Option.some_or]
      constructor
      · intro h
        cases h with
        | bound hmem => exact absurd hmem hbound
        | word _ hw' => exact congrArg some (hw'.unique (fun _ _ h => String.lt_asymm h) hw)
        | scopeName _ hnone _ => exact absurd hw.near (hnone w hw.mem)
      · rintro rfl
        exact .word hbound hw
    | none hnone =>
      rw [Option.none_or, ← candidate_names_iff]
      constructor
      · intro h
        cases h with
        | bound hmem => exact absurd hmem hbound
        | word _ hw => exact absurd hw.near (hnone _ hw.mem)
        | scopeName _ _ hfound => exact hfound
      · exact .scopeName hbound hnone

/-! ## What faults suggest -/

variable {settings : Settings} {source : String} {s : Span} {suggestion : Option String}

/-- Reading a source finds a word that is not known only where a name is resolved. -/
lemma Formula.suggestion_of_ofSource
    (h : ofSource settings source = .error (.unknownSymbol name s suggestion)) :
    suggestion = closest? name words suggestionDistance := by
  rcases ofSource_eq_error_iff.1 h with ⟨-, hblank⟩ | ⟨-, cause, hcause, hfault⟩
  · exact absurd hblank (by simp)
  · rw [← textOf_sourceCells source] at hcause
    cases fails_of_text (fenced_sourceCells source) hcause with
    | unresolved _ hoffends =>
      cases hoffends with
      | unknown _ _ =>
        obtain ⟨rfl, -, rfl⟩ := Fault.unknownSymbol.inj hfault
        rfl
      | _ => exact absurd hfault (by simp [Fault.mapSpan])
    | _ => exact absurd hfault (by simp [Fault.mapSpan])

/-- Evaluation looks for a variable without a binding among the names of the scope. -/
lemma Formula.suggestion_of_evaluate {f : Formula} {place : Option Span} (hresolved : f.expr.Resolved)
    (h : f.evaluate scope = .error (.unbound name place suggestion)) :
    suggestion = closest? name scope.names suggestionDistance := by
  obtain ⟨cause, hcause, hfault⟩ := mapError_eq_error.1 h
  have houtcome := Expr.evaluate_of_resolved hresolved scope
  rw [hcause] at houtcome
  cases houtcome with
  | unbound _ _ =>
    obtain ⟨rfl, -, rfl⟩ := Fault.unbound.inj hfault
    rfl
  | _ => exact absurd hfault (by simp [Fault.mapSpan])

/-- The scope is asked about a word that is not known. -/
lemma Fault.suggestFrom_eq_unknownSymbol_iff {fault : Fault} :
    fault.suggestFrom scope = .unknownSymbol name s suggestion ↔
      ∃ held, fault = .unknownSymbol name s held ∧ suggestion =
        if scope.contains name then some name
        else held.or (closest? name scope.names suggestionDistance) := by
  cases fault with
  | unknownSymbol word place held =>
    rw [suggestFrom, ← apply_ite (Fault.unknownSymbol word place)]
    constructor
    · intro h
      obtain ⟨rfl, rfl, rfl⟩ := Fault.unknownSymbol.inj h
      exact ⟨held, rfl, rfl⟩
    · rintro ⟨held', h, rfl⟩
      obtain ⟨rfl, rfl, rfl⟩ := Fault.unknownSymbol.inj h
      rfl
  | _ => simp [suggestFrom]

/-- The scope is asked about no other fault. -/
lemma Fault.suggestFrom_eq_unbound_iff {fault : Fault} {place : Option Span} :
    fault.suggestFrom scope = .unbound name place suggestion ↔
      fault = .unbound name place suggestion := by
  cases fault with
  | unknownSymbol word s held =>
    rw [suggestFrom, ← apply_ite (Fault.unknownSymbol word s)]
    simp
  | _ => simp [suggestFrom]

/-- A source that lacks a variable has a formula. -/
lemma exists_formula_of_unbound {place : Option Span}
    (h : evaluateSource settings source scope = .error (.unbound name place suggestion)) :
    ∃ f, Formula.ofSource settings source = .ok f ∧
      f.evaluate scope = .error (.unbound name place suggestion) := by
  rw [evaluateSource] at h
  rcases hf : Formula.ofSource settings source with fault | f
  · rw [hf] at h
    obtain rfl := Fault.suggestFrom_eq_unbound_iff.1 (Except.error.inj h)
    exact absurd ⟨name, place, suggestion, hf⟩ Formula.not_isUnbound_ofSource
  · rw [hf] at h
    exact ⟨f, rfl, h⟩

/-- **The name that is suggested is the best one.** If a source is refused because of a word that is not
known, the suggestion is the one thing that `Suggests` allows. If it is read and a variable turns out to
have no binding, the suggestion is the nearest name of the scope, of those that are as near the one that
was bound first, and none if no name of the scope is near. -/
theorem suggestion_exact (settings : Settings) (source : String) (scope : Scope) (name : String)
    (suggestion : Option String) :
    (∀ fault s, Formula.ofSource settings source = .error fault →
      evaluateSource settings source scope = .error (.unknownSymbol name s suggestion) →
      ∀ found, Suggests scope name found ↔ found = suggestion) ∧
    ∀ place, evaluateSource settings source scope = .error (.unbound name place suggestion) →
      ∀ found, Candidate name scope.BoundBefore scope.names found ↔ found = suggestion := by
  constructor
  · intro fault s hfault h found
    rw [evaluateSource, hfault] at h
    obtain ⟨held, rfl, rfl⟩ := Fault.suggestFrom_eq_unknownSymbol_iff.1 (Except.error.inj h)
    rw [suggests_iff, Formula.suggestion_of_ofSource hfault]
  · intro place h found
    obtain ⟨f, hf, hevaluate⟩ := exists_formula_of_unbound h
    obtain ⟨-, ls, e, -, -, -, hresolved, rfl⟩ := Formula.ofSource_eq_ok_iff.1 hf
    rw [candidate_names_iff, Formula.suggestion_of_evaluate hresolved hevaluate]

/-- Two names that are one edit away from `price`, bound after one that is not near. -/
def prizes : Scope :=
  .ofList [("rent", 1.0), ("prize", 2.0), ("prices", 3.0)]

lemma evaluateSource_reference_of_free (hv : isName name = true) (hdepth : 0 < settings.maxDepth)
    (hfree : scope.get? name = none) : ∃ place,
    evaluateSource settings (Fault.reference name) scope =
      .error (.unbound name place (closest? name scope.names suggestionDistance)) := by
  have hread : scope.read (identifierOf name) (identifierSpan name) =
      .error (scope.unboundFault name (identifierSpan name)) := by
    rw [Scope.read, variableOf?_identifierOf]
    simp only [hfree]
  refine ⟨some ((Template.ofSource (Fault.reference name)).toSource (identifierSpan name)), ?_⟩
  rw [evaluateSource, Formula.ofSource_reference hv hdepth]
  simp only [Formula.evaluate, Expr.evaluate, Expr.value, hread, mapError_error, Scope.unboundFault,
    Fault.mapSpan, Option.map_some]

theorem suggestion_of_price :
    (∃ s, evaluateSource .standard "price" prizes =
      .error (.unknownSymbol "price" s (some "prize"))) ∧
    Suggests prizes "price" (some "prize") ∧
    (∃ place, evaluateSource .standard (Fault.reference "price") prizes =
      .error (.unbound "price" place (some "prize"))) ∧
    Candidate "price" prizes.BoundBefore prizes.names (some "prize") := by
  have hword : closest? "price" words suggestionDistance = none := by decide +kernel
  have hname : closest? "price" prizes.names suggestionDistance = some "prize" := by decide +kernel
  have htokens : tokenize (Template.ofSource "price").text = .ok [⟨.name "price", ⟨0, 5⟩⟩] := by
    with_unfolding_all rfl
  have hcause : (Expr.ofText (Template.ofSource "price").text >>= Expr.checked .standard) =
      .error (.unknownSymbol "price" ⟨0, 5⟩ none) := by
    rw [Expr.ofText, htokens, ← hword]
    rfl
  have hfault := Formula.ofSource_eq_error_iff.2 (.inr ⟨by decide, _, hcause, rfl⟩)
  have hunknown : evaluateSource .standard "price" prizes = .error (.unknownSymbol "price"
      ((Template.ofSource "price").toSource ⟨0, 5⟩) (some "prize")) := by
    rw [evaluateSource, hfault]
    exact congrArg Except.error (Fault.suggestFrom_eq_unknownSymbol_iff.2 ⟨none, rfl, by rw [hname]; rfl⟩)
  have hfree : prizes.get? "price" = none := rfl
  have hdepth : 0 < Settings.standard.maxDepth := by decide
  obtain ⟨place, hunbound⟩ := evaluateSource_reference_of_free rfl hdepth hfree
  rw [hname] at hunbound
  obtain ⟨hsuggests, -⟩ := suggestion_exact .standard "price" prizes "price" (some "prize")
  obtain ⟨-, hcandidate⟩ :=
    suggestion_exact .standard (Fault.reference "price") prizes "price" (some "prize")
  exact ⟨⟨_, hunknown⟩, (hsuggests _ _ hfault hunknown _).2 rfl, ⟨place, hunbound⟩,
    (hcandidate place hunbound _).2 rfl⟩

end Formulary
