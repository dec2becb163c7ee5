import Formulary.Proofs.Program.StrictReferences
/-!
# The rules of programs

A program has to keep seven rules, one for each kind of violation (`Program.Keeps`). Validation is exact:
it finds nothing exactly if all rules are kept. Otherwise it reports the first rule that is broken, in
the order of the kinds, at the first place where it is broken (`Program.violation?_exact`).

Each rule is checked by a search through a list. `Search` tells what all these searches do, one member
after the other, and `Search.spec` what their answer says of the list. Two of them carry what they have
passed: the names that were seen (`search_firstRepeated?`), and the names that can be referred to
(`Program.search_firstBadReference?`).
-/

namespace Formulary

/-! ## Searches -/

section
variable {α : Type}

/-- The first bad member of a list has the position given. -/
def FirstAt (bad : Nat → α → Prop) (as : List α) (n : Nat) : Prop :=
  (∃ a, as[n]? = some a ∧ bad n a) ∧ ∀ m < n, ∀ a, as[m]? = some a → ¬ bad m a

/-- A search through a list, the first member of which has the position given: it reports the first
member that is bad, as a violation of a kind. -/
inductive Search (kind : ViolationKind) (bad : Nat → α → Prop) :
    Nat → List α → Option Violation → Prop
  | nil {index : Nat} : Search kind bad index [] none
  | found {index : Nat} {a : α} {as : List α} {v : Violation} :
    bad index a → v.kind = kind → v.index? = some index → Search kind bad index (a :: as) (some v)
  | next {index : Nat} {a : α} {as : List α} {r : Option Violation} :
    ¬ bad index a → Search kind bad (index + 1) as r → Search kind bad index (a :: as) r

variable {kind : ViolationKind} {bad : Nat → α → Prop} {as : List α} {r : Option Violation}

lemma FirstAt.unique {m n : Nat} (hm : FirstAt bad as m) (hn : FirstAt bad as n) : m = n := by
  obtain ⟨⟨a, ha, hbad⟩, hfirst⟩ := hm
  obtain ⟨⟨b, hb, hbad'⟩, hfirst'⟩ := hn
  obtain hlt | heq | hlt := Nat.lt_trichotomy m n
  · exact absurd hbad (hfirst' m hlt a ha)
  · exact heq
  · exact absurd hbad' (hfirst n hlt b hb)

lemma FirstAt.cons {a : α} {n : Nat} (ha : ¬ bad 0 a) (h : FirstAt (fun m => bad (m + 1)) as n) :
    FirstAt bad (a :: as) (n + 1) := by
  refine ⟨by simpa using h.1, fun m hm b hb => ?_⟩
  cases m with
  | zero =>
    obtain rfl : a = b := by simpa using hb
    exact ha
  | succ m => exact h.2 m (by omega) b (by simpa using hb)

/-- The answer of a search: nothing if no member is bad, or else the position of the first that is. -/
theorem Search.spec {index : Nat} (h : Search kind bad index as r) :
    (r = none → ∀ n a, as[n]? = some a → ¬ bad (n + index) a) ∧
      ∀ v, r = some v → v.kind = kind ∧
        ∃ n, v.index? = some (n + index) ∧ FirstAt (fun m => bad (m + index)) as n := by
  induction h with
  | nil =>
    exact ⟨fun _ n a ha => absurd ha (by simp), fun v hv => absurd hv (by simp)⟩
  | @found index a as v hbad hkind hindex =>
    refine ⟨fun hnone => absurd hnone (by simp), fun w hw => ?_⟩
    obtain rfl := Option.some.inj hw
    rw [← Nat.zero_add index] at hbad hindex
    exact ⟨hkind, 0, hindex, ⟨a, rfl, hbad⟩, fun m hm => absurd hm (Nat.not_lt_zero m)⟩
  | @next index a as r hgood hsearch ih =>
    have hshift : ∀ n, n + 1 + index = n + (index + 1) := fun n => by omega
    constructor
    · intro hnone n b hb
      cases n with
      | zero =>
        obtain rfl : a = b := by simpa using hb
        rwa [Nat.zero_add]
      | succ n =>
        rw [hshift]
        exact ih.1 hnone n b (by simpa using hb)
    · intro v hv
      obtain ⟨hkind, n, hindex, hfirst⟩ := ih.2 v hv
      refine ⟨hkind, n + 1, by rw [hshift, hindex], FirstAt.cons (by rwa [Nat.zero_add]) ?_⟩
      simpa only [hshift] using hfirst

/-- A question about each member of a list that is answered by a violation unless the member is good. -/
lemma search_firstAt? {good : α → Prop} {ask : Nat → α → Option Violation}
    (hnone : ∀ n a, ask n a = none ↔ good a)
    (hsome : ∀ n a v, ask n a = some v → v.kind = kind ∧ v.index? = some n) (as : List α) :
    Search kind (fun _ a => ¬ good a) 0 as (firstAt? ask as) := by
  rw [firstAt?]
  generalize 0 = index
  induction as generalizing index with
  | nil => exact .nil
  | cons a as ih =>
    rw [List.zipIdx_cons, List.findSome?_cons]
    rcases hask : ask index a with _ | v
    · exact .next (not_not.2 ((hnone index a).1 hask)) (ih (index + 1))
    · obtain ⟨hkind, hindex⟩ := hsome index a v hask
      refine .found (fun hgood => ?_) hkind hindex
      rw [(hnone index a).2 hgood] at hask
      exact absurd hask (by simp)

end

/-- The search for a repeated name carries the names that it has passed. -/
lemma search_firstRepeated? (report : Nat × String → Violation) (before passed seen names : List String)
    (hkind : ∀ r, (report r).kind = .repeatedName) (hindex : ∀ r, (report r).index? = some r.1)
    (hseen : ∀ name, name ∈ seen ↔ name ∈ before ++ passed) :
    Search .repeatedName (fun n name => name ∈ before ++ (passed ++ names).take n) passed.length names
      ((firstRepeated? seen passed.length names).map report) := by
  induction names generalizing passed seen with
  | nil => exact .nil
  | cons name names ih =>
    have hmem : name ∈ before ++ (passed ++ name :: names).take passed.length ↔ name ∈ seen := by
      rw [List.take_left', hseen]
      rfl
    rw [firstRepeated?]
    split
    · rename_i hcontains
      exact .found (hmem.2 (by simpa using hcontains)) (hkind _) (hindex _)
    · rename_i hcontains
      refine .next (fun h => hcontains (by simpa using hmem.1 h)) ?_
      have hseen' : ∀ n, n ∈ name :: seen ↔ n ∈ before ++ (passed ++ [name]) := by
        intro n
        rw [List.mem_cons, hseen]
        simp only [List.mem_append, List.mem_singleton]
        tauto
      have hnext := ih (passed ++ [name]) (name :: seen) hseen'
      rwa [List.length_append, List.append_assoc, List.singleton_append] at hnext

/-! ## The rules -/

/-- The rank of a kind of violation in the order of the rules. -/
def ViolationKind.rank : ViolationKind → Nat
  | noSteps => 0
  | invalidInput => 1
  | noOutputs => 2
  | incompleteStep => 3
  | unresolvedOutput => 4
  | repeatedName => 5
  | unresolvedStep => 6

lemma ViolationKind.rank_injective {kind kind' : ViolationKind} (h : kind.rank = kind'.rank) :
    kind = kind' := by
  cases kind <;> cases kind' <;> first | rfl | exact absurd h (by decide)

namespace Program

/-- An input can be referred to and has a number to start from. -/
def Input.Complete (i : Input) : Prop :=
  isName i.name = true ∧ i.initial.isSome = true

/-- A step has a name and a definition. -/
def Step.Complete (s : Step) : Prop :=
  s.name ≠ "" ∧ s.definition.isSome = true

/-- An output has a value, and if this is a plain name, then it is that of a step. -/
def Output.Resolved (p : Program) (o : Output) : Prop :=
  o.value.isSome = true ∧ ∀ text, o.value = some (.source text) → isName (trim text) = true →
    ∃ s ∈ p.steps, s.name = trim text

/-- A name is that of an input, or that of a step before a position that is not blank. -/
def Sees (p : Program) (k : Nat) (name : String) : Prop :=
  name ∈ p.inputNames ∨ ∃ r ∈ p.steps.take k, r.name = name ∧ r.isBlank = false

/-- A step at a position refers only to names that can be seen there. -/
def Step.RefersBack (p : Program) (k : Nat) (s : Step) : Prop :=
  ∀ d, s.definition = some d → ∀ v ∈ d.variableNames, p.Sees k v

/-- The rule that violations of a kind break. -/
def Keeps (settings : Settings) (p : Program) : ViolationKind → Prop
  | .noSteps => p.steps ≠ []
  | .invalidInput => ∀ i ∈ p.inputs, i.Complete
  | .noOutputs => p.outputs ≠ []
  | .incompleteStep => ∀ s ∈ p.steps, s.Complete
  | .unresolvedOutput => ∀ o ∈ p.outputs, o.Resolved p
  | .repeatedName => (p.inputNames ++ p.stepNames).Nodup
  | .unresolvedStep => settings.strictReferences = true →
    ∀ (k : Nat) (s : Step), p.steps[k]? = some s → s.RefersBack p k

/-- A rule is broken, and first so at a place: the position of an input, of a step or of an output, or no
position if a part is missing. Among names those of the inputs come before those of the steps. -/
def BrokenFirst (settings : Settings) (p : Program) : ViolationKind → Option Nat → Prop
  | .noSteps, place => p.steps = [] ∧ place = none
  | .invalidInput, place => ∃ n, place = some n ∧ FirstAt (fun _ i => ¬ i.Complete) p.inputs n
  | .noOutputs, place => p.outputs = [] ∧ place = none
  | .incompleteStep, place => ∃ n, place = some n ∧ FirstAt (fun _ s => ¬ s.Complete) p.steps n
  | .unresolvedOutput, place => ∃ n, place = some n ∧ FirstAt (fun _ o => ¬ o.Resolved p) p.outputs n
  | .repeatedName, place => ∃ n, place = some n ∧
    (FirstAt (fun m name => name ∈ p.inputNames.take m) p.inputNames n ∨
      p.inputNames.Nodup ∧
        FirstAt (fun m name => name ∈ p.inputNames ++ p.stepNames.take m) p.stepNames n)
  | .unresolvedStep, place => settings.strictReferences = true ∧
    ∃ n, place = some n ∧ FirstAt (fun k s => ¬ s.RefersBack p k) p.steps n

section
variable {settings : Settings} {p : Program} {kind : ViolationKind} {place place' : Option Nat}

/-- A list whose members are different from those before them has no repetition. -/
lemma nodup_iff_not_mem_take {names : List String} :
    names.Nodup ↔ ∀ n name, names[n]? = some name → name ∉ names.take n := by
  rw [List.nodup_iff_getElem?_ne_getElem?]
  constructor
  · intro h n name hname hmem
    obtain ⟨m, hm⟩ := List.mem_iff_getElem?.1 hmem
    rw [List.getElem?_take] at hm
    split at hm
    · rename_i hlt
      have hn : n < names.length := (List.getElem?_eq_some_iff.1 hname).1
      exact h m n hlt hn (hm.trans hname.symm)
    · exact absurd hm (by simp)
  · intro h m n hlt hn heq
    have hname : names[n]? = some names[n] := List.getElem?_eq_getElem hn
    refine h n _ hname (List.mem_iff_getElem?.2 ⟨m, ?_⟩)
    rw [List.getElem?_take, if_pos hlt, heq, hname]

/-- A rule that is broken somewhere is not kept. -/
lemma BrokenFirst.not_keeps (h : p.BrokenFirst settings kind place) : ¬ p.Keeps settings kind := by
  intro hkeeps
  cases kind with
  | noSteps | noOutputs => exact hkeeps h.1
  | invalidInput | incompleteStep | unresolvedOutput =>
    obtain ⟨n, -, ⟨a, ha, hbad⟩, -⟩ := h
    exact hbad (hkeeps a (List.mem_of_getElem? ha))
  | unresolvedStep =>
    obtain ⟨hstrict, n, -, ⟨s, hs, hbad⟩, -⟩ := h
    exact hbad (hkeeps hstrict n s hs)
  | repeatedName =>
    have hnames := List.nodup_append.1 hkeeps
    obtain ⟨n, -, ⟨⟨name, hname, hmem⟩, -⟩ | ⟨-, ⟨name, hname, hmem⟩, -⟩⟩ := h
    · exact nodup_iff_not_mem_take.1 hnames.1 n name hname hmem
    · rcases List.mem_append.1 hmem with hinput | hstep
      · exact hnames.2.2 name hinput name (List.mem_of_getElem? hname) rfl
      · exact nodup_iff_not_mem_take.1 hnames.2.1 n name hname hstep

/-- There is one first place at most. -/
lemma BrokenFirst.unique (h : p.BrokenFirst settings kind place)
    (h' : p.BrokenFirst settings kind place') : place = place' := by
  cases kind with
  | noSteps | noOutputs => exact h.2.trans h'.2.symm
  | invalidInput | incompleteStep | unresolvedOutput =>
    obtain ⟨⟨m, rfl, hm⟩, ⟨n, rfl, hn⟩⟩ := And.intro h h'
    rw [hm.unique hn]
  | unresolvedStep =>
    obtain ⟨⟨-, m, rfl, hm⟩, ⟨-, n, rfl, hn⟩⟩ := And.intro h h'
    rw [hm.unique hn]
  | repeatedName =>
    -- the names of the steps count only if no name of an input is repeated
    have hinputs : ∀ n, FirstAt (fun m name => name ∈ p.inputNames.take m) p.inputNames n →
        ¬ p.inputNames.Nodup := by
      rintro n ⟨⟨name, hname, hmem⟩, -⟩ hnodup
      exact nodup_iff_not_mem_take.1 hnodup n name hname hmem
    obtain ⟨⟨m, rfl, hm⟩, ⟨n, rfl, hn⟩⟩ := And.intro h h'
    rcases hm with hm | ⟨hnodup, hm⟩
    · rcases hn with hn | ⟨hnodup, -⟩
      · rw [hm.unique hn]
      · exact absurd hnodup (hinputs m hm)
    · rcases hn with hn | ⟨-, hn⟩
      · exact absurd hnodup (hinputs n hn)
      · rw [hm.unique hn]

/-! ## The check of one rule -/

/-- What the check of a rule answers: nothing if the rule is kept, or else the first place where it is
broken. -/
structure Checks (settings : Settings) (p : Program) (kind : ViolationKind) (r : Option Violation) :
    Prop where
  keeps : r = none → p.Keeps settings kind
  broken : ∀ v, r = some v → v.kind = kind ∧ p.BrokenFirst settings kind v.index?

lemma Checks.of_search {α : Type} {bad : Nat → α → Prop} {as : List α} {r : Option Violation}
    (h : Search kind bad 0 as r)
    (hkeeps : (∀ n a, as[n]? = some a → ¬ bad n a) → p.Keeps settings kind)
    (hbroken : ∀ n, FirstAt bad as n → p.BrokenFirst settings kind (some n)) :
    Checks settings p kind r where
  keeps hnone := hkeeps (h.spec.1 hnone)
  broken v hv := by
    obtain ⟨hkind, n, hindex, hfirst⟩ := h.spec.2 v hv
    rw [hindex]
    exact ⟨hkind, hbroken n hfirst⟩

lemma Checks.of_firstAt? {α : Type} {good : α → Prop} {ask : Nat → α → Option Violation}
    {as : List α} (hnone : ∀ n a, ask n a = none ↔ good a)
    (hsome : ∀ n a v, ask n a = some v → v.kind = kind ∧ v.index? = some n)
    (hkeeps : (∀ a ∈ as, good a) → p.Keeps settings kind)
    (hbroken : ∀ n, FirstAt (fun _ a => ¬ good a) as n → p.BrokenFirst settings kind (some n)) :
    Checks settings p kind (firstAt? ask as) := by
  refine .of_search (search_firstAt? hnone hsome as) (fun h => hkeeps fun a ha => ?_) hbroken
  obtain ⟨n, hn⟩ := List.mem_iff_getElem?.1 ha
  exact not_not.1 (h n a hn)

lemma Input.kind_of_violation? {n : Nat} {i : Input} {v : Violation} (h : i.violation? n = some v) :
    v.kind = .invalidInput ∧ v.index? = some n := by
  rw [Input.violation?] at h
  split_ifs at h <;> obtain rfl := Option.some.inj h <;> exact ⟨rfl, rfl⟩

lemma Step.kind_of_violation? {n : Nat} {s : Step} {v : Violation} (h : s.violation? n = some v) :
    v.kind = .incompleteStep ∧ v.index? = some n := by
  rw [Step.violation?] at h
  split_ifs at h <;> obtain rfl := Option.some.inj h <;> exact ⟨rfl, rfl⟩

lemma Output.kind_of_violation? {steps : List String} {n : Nat} {o : Output} {v : Violation}
    (h : o.violation? steps n = some v) : v.kind = .unresolvedOutput ∧ v.index? = some n := by
  rw [Output.violation?] at h
  split at h
  · obtain rfl := Option.some.inj h
    exact ⟨rfl, rfl⟩
  · split at h
    · split_ifs at h
      obtain rfl := Option.some.inj h
      exact ⟨rfl, rfl⟩
    · exact absurd h (by simp)

lemma Output.resolved_iff {n : Nat} {o : Output} :
    o.violation? p.stepNames n = none ↔ o.Resolved p := by
  have hnames : ∀ name, name ∈ p.stepNames ↔ ∃ s ∈ p.steps, s.name = name := fun name =>
    List.mem_map
  rw [Output.violation?_eq_none_iff, Output.Resolved]
  constructor
  · rintro ⟨d, hd, hplain⟩
    refine ⟨by simp [hd], fun text htext hname => (hnames _).1 (hplain _ ?_)⟩
    obtain rfl := Option.some.inj (hd.symm.trans htext)
    exact if_pos hname
  · rintro ⟨hvalue, hplain⟩
    obtain ⟨d, hd⟩ := Option.isSome_iff_exists.1 hvalue
    refine ⟨d, hd, fun name hname => (hnames name).2 ?_⟩
    cases d with
    | source text =>
      rw [Definition.plainName?] at hname
      split_ifs at hname with htext
      obtain rfl := Option.some.inj hname
      exact hplain text hd htext
    | tree value => exact absurd hname (by simp [Definition.plainName?])

lemma checks_inputs : Checks settings p .invalidInput (firstAt? Input.violation? p.inputs) :=
  .of_firstAt? (fun _ _ => Input.violation?_eq_none_iff) (fun _ _ _ => Input.kind_of_violation?)
    (fun h => h) fun n hn => ⟨n, rfl, hn⟩

lemma checks_steps : Checks settings p .incompleteStep (firstAt? Step.violation? p.steps) :=
  .of_firstAt? (fun _ _ => Step.violation?_eq_none_iff) (fun _ _ _ => Step.kind_of_violation?)
    (fun h => h) fun n hn => ⟨n, rfl, hn⟩

lemma checks_outputs :
    Checks settings p .unresolvedOutput (firstAt? (Output.violation? p.stepNames) p.outputs) :=
  .of_firstAt? (fun _ _ => Output.resolved_iff) (fun _ _ _ => Output.kind_of_violation?)
    (fun h => h) fun n hn => ⟨n, rfl, hn⟩

lemma checks_repetition : Checks settings p .repeatedName p.repetition? := by
  have hinputs := search_firstRepeated? (fun r => .repeatedInput r.1 r.2) [] [] [] p.inputNames
    (fun _ => rfl) (fun _ => rfl) (by simp)
  have hsteps := search_firstRepeated? (fun r => .repeatedStep r.1 r.2) p.inputNames [] p.inputNames
    p.stepNames (fun _ => rfl) (fun _ => rfl) (by simp)
  simp only [List.nil_append, List.length_nil] at hinputs hsteps
  refine ⟨repetition?_eq_none_iff.1, fun v hv => ?_⟩
  rw [repetition?] at hv
  rcases hfirst : firstRepeated? [] 0 p.inputNames with _ | ⟨i, name⟩
  · rw [hfirst] at hv
    obtain ⟨hkind, n, hindex, hplace⟩ := hsteps.spec.2 v hv
    have hnodup := (firstRepeated?_eq_none_iff.1 hfirst).1
    exact ⟨hkind, n, hindex, .inr ⟨hnodup, hplace⟩⟩
  · rw [hfirst] at hv hinputs
    obtain ⟨hkind, n, hindex, hplace⟩ := hinputs.spec.2 v hv
    exact ⟨hkind, n, hindex, .inl hplace⟩

/-! ### References -/

/-- The names that can be seen after a step are those before it, and its own unless it is blank. -/
lemma sees_succ {k : Nat} {s : Step} {v : String} (hnames : p.Keeps settings .repeatedName)
    (hs : p.steps[k]? = some s) :
    p.Sees (k + 1) v ↔ if v = s.name then s.isBlank = false else p.Sees k v := by
  have hmem : ∀ r, r ∈ p.steps.take (k + 1) ↔ r ∈ p.steps.take k ∨ r = s := by
    intro r
    rw [List.take_add_one, hs, Option.toList_some, List.mem_append, List.mem_singleton]
  split
  · rename_i hv
    subst hv
    -- the name is new, so only the step itself can have it
    have hnew : s.name ∉ p.inputNames ++ p.stepNames.take k := by
      have hdistinct := List.nodup_append.1 hnames
      have hname : p.stepNames[k]? = some s.name := by simp [stepNames, hs]
      rw [List.mem_append]
      rintro (hinput | hstep)
      · exact hdistinct.2.2 _ hinput _ (List.mem_of_getElem? hname) rfl
      · exact nodup_iff_not_mem_take.1 hdistinct.2.1 k _ hname hstep
    rw [List.mem_append, stepNames, ← List.map_take, not_or] at hnew
    constructor
    · rintro (hinput | ⟨r, hr, hname, hfilled⟩)
      · exact absurd hinput hnew.1
      · rcases (hmem r).1 hr with hr | rfl
        · exact absurd (List.mem_map.2 ⟨r, hr, hname⟩) hnew.2
        · exact hfilled
    · intro hfilled
      exact .inr ⟨s, (hmem s).2 (.inr rfl), rfl, hfilled⟩
  · rename_i hv
    refine or_congr_right ⟨?_, ?_⟩
    · rintro ⟨r, hr, hname, hfilled⟩
      rcases (hmem r).1 hr with hr | rfl
      · exact ⟨r, hr, hname, hfilled⟩
      · exact absurd hname.symm hv
    · rintro ⟨r, hr, hname, hfilled⟩
      exact ⟨r, (hmem r).2 (.inl hr), hname, hfilled⟩

lemma kind_of_referenceViolation? {index : Nat} {step : String} {visible : List (String × Bool)}
    {declared : List String} {d : Definition} {v : Violation}
    (h : referenceViolation? index step visible declared d = some v) :
    v.kind = .unresolvedStep ∧ v.index? = some index := by
  obtain ⟨name, -, hname⟩ := List.exists_of_findSome?_eq_some h
  obtain ⟨fault, -, rfl⟩ := Option.map_eq_some_iff.1 hname
  exact ⟨rfl, rfl⟩

/-- The search for a bad reference carries which names can be seen. -/
lemma search_firstBadReference? {k : Nat} {ss : List Step} {visible : List (String × Bool)}
    {declared : List String} (hnames : p.Keeps settings .repeatedName)
    (hsteps : p.Keeps settings .incompleteStep) (hss : p.steps.drop k = ss)
    (hvisible : ∀ v, visible.lookup v = some true ↔ p.Sees k v) :
    Search .unresolvedStep (fun k s => ¬ s.RefersBack p k) k ss
      (firstBadReference? visible declared k ss) := by
  induction ss generalizing k visible with
  | nil => exact .nil
  | cons s ss ih =>
    obtain ⟨hs, hrest⟩ := step_of_drop hss
    obtain ⟨d, hd⟩ := Option.isSome_iff_exists.1 (hsteps s (List.mem_of_getElem? hs)).2
    have hback : referenceViolation? k s.name visible declared d = none ↔ s.RefersBack p k := by
      rw [referenceViolation?_eq_none_iff]
      constructor
      · intro h d' hd' v hv
        obtain rfl := Option.some.inj (hd.symm.trans hd')
        exact (hvisible v).1 (h v hv)
      · intro h v hv
        exact (hvisible v).2 (h d hd v hv)
    rw [firstBadReference?, hd]
    dsimp only
    split
    · rename_i v hviolation
      obtain ⟨hkind, hindex⟩ := kind_of_referenceViolation? hviolation
      refine .found (fun h => ?_) hkind hindex
      rw [hback.2 h] at hviolation
      exact absurd hviolation (by simp)
    · rename_i hnone
      refine .next (not_not.2 (hback.1 hnone)) (ih hrest fun v => ?_)
      rw [sees_succ hnames hs, List.lookup_cons]
      by_cases hv : v = s.name
      · simp [hv, Step.isBlank, hd]
      · have hne : (v == s.name) = false := by simpa using hv
        rw [hne, if_neg hv]
        exact hvisible v

lemma lookup_inputs {names : List String} {v : String} :
    (names.map fun name => (name, true)).lookup v = some true ↔ v ∈ names := by
  induction names with
  | nil => simp
  | cons name names ih =>
    rw [List.map_cons, List.lookup_cons, List.mem_cons]
    by_cases hv : v = name
    · simp [hv]
    · have hne : (v == name) = false := by simpa using hv
      simpa [hne, hv] using ih

lemma checks_references (hnames : p.Keeps settings .repeatedName)
    (hsteps : p.Keeps settings .incompleteStep) :
    Checks settings p .unresolvedStep (if settings.strictReferences then
      firstBadReference? (p.inputNames.map fun name => (name, true)) p.stepNames 0 p.steps
    else none) := by
  split
  · rename_i hstrict
    have hvisible : ∀ v, (p.inputNames.map fun name => (name, true)).lookup v = some true ↔
        p.Sees 0 v := by
      intro v
      rw [lookup_inputs, Sees, List.take_zero]
      simp
    refine .of_search (search_firstBadReference? hnames hsteps List.drop_zero hvisible)
      (fun h _ k s hs => not_not.1 (h k s hs)) fun n hn => ⟨hstrict, n, rfl, hn⟩
  · rename_i hlenient
    exact ⟨fun _ hstrict => absurd hstrict hlenient, fun v hv => absurd hv (by simp)⟩

/-! ## The checks in their order -/

/-- What the checks from a rank on answer: nothing if all their rules are kept, or else the first place
where the first of them is broken. -/
structure ChecksFrom (settings : Settings) (p : Program) (k : Nat) (r : Option Violation) : Prop where
  keeps : r = none → ∀ kind : ViolationKind, k ≤ kind.rank → p.Keeps settings kind
  broken : ∀ v, r = some v → k ≤ v.kind.rank ∧ p.BrokenFirst settings v.kind v.index? ∧
    ∀ kind : ViolationKind, k ≤ kind.rank → kind.rank < v.kind.rank → p.Keeps settings kind

lemma ChecksFrom.nil : ChecksFrom settings p 7 none where
  keeps _ kind hkind := by cases kind <;> exact absurd hkind (by decide)
  broken v hv := absurd hv (by simp)

/-- The check of a rule comes before those of the later rules, which can rely on it. -/
lemma Checks.or {r r' : Option Violation} (h : Checks settings p kind r)
    (h' : p.Keeps settings kind → ChecksFrom settings p (kind.rank + 1) r') :
    ChecksFrom settings p kind.rank (r.or r') := by
  cases r with
  | none =>
    have hkeeps := h.keeps rfl
    -- a rule from this rank on is this one or a later one
    have hcases : ∀ kind' : ViolationKind, kind.rank ≤ kind'.rank →
        kind' = kind ∨ kind.rank + 1 ≤ kind'.rank := by
      intro kind' hle
      rcases Nat.eq_or_lt_of_le hle with heq | hlt
      · exact .inl (ViolationKind.rank_injective heq.symm)
      · exact .inr hlt
    constructor
    · intro hnone kind' hle
      rcases hcases kind' hle with rfl | hlater
      · exact hkeeps
      · exact (h' hkeeps).keeps hnone kind' hlater
    · intro v hv
      obtain ⟨hrank, hbroken, hearlier⟩ := (h' hkeeps).broken v hv
      refine ⟨by omega, hbroken, fun kind' hle hlt => ?_⟩
      rcases hcases kind' hle with rfl | hlater
      · exact hkeeps
      · exact hearlier kind' hlater hlt
  | some v =>
    obtain ⟨rfl, hbroken⟩ := h.broken v rfl
    constructor
    · exact fun hnone => absurd hnone (by simp)
    · intro w hw
      obtain rfl : v = w := Option.some.inj hw
      exact ⟨Nat.le_refl _, hbroken, fun kind' hle hlt => absurd hlt (by omega)⟩

lemma ite_some_eq_or {c : Prop} [Decidable c] {v : Violation} {r : Option Violation} :
    (if c then some v else r) = (if c then some v else none).or r := by
  split <;> rfl

lemma Checks.of_isEmpty {α : Type} {as : List α} {v : Violation}
    (hkeeps : as ≠ [] → p.Keeps settings kind)
    (hbroken : as = [] → v.kind = kind ∧ p.BrokenFirst settings kind v.index?) :
    Checks settings p kind (if as.isEmpty then some v else none) := by
  split
  · rename_i hempty
    refine ⟨fun hnone => absurd hnone (by simp), fun w hw => ?_⟩
    obtain rfl := Option.some.inj hw
    exact hbroken (List.isEmpty_iff.1 hempty)
  · rename_i hne
    exact ⟨fun _ => hkeeps (List.isEmpty_iff.not.1 hne), fun w hw => absurd hw (by simp)⟩

theorem checksFrom_violation? : ChecksFrom settings p 0 (p.violation? settings) := by
  have hnoSteps : Checks settings p .noSteps (if p.steps.isEmpty then some .noSteps else none) :=
    .of_isEmpty (fun h => h) fun h => ⟨rfl, h, rfl⟩
  have hnoOutputs : Checks settings p .noOutputs
      (if p.outputs.isEmpty then some .noOutputs else none) :=
    .of_isEmpty (fun h => h) fun h => ⟨rfl, h, rfl⟩
  have hreferences : p.Keeps settings .incompleteStep → p.Keeps settings .repeatedName →
      ChecksFrom settings p 6 (if settings.strictReferences then
        firstBadReference? (p.inputNames.map fun name => (name, true)) p.stepNames 0 p.steps
      else none) := by
    intro hsteps hnames
    have hlast := (checks_references hnames hsteps).or fun _ => .nil
    rwa [Option.or_none] at hlast
  rw [violation?, ite_some_eq_or]
  refine hnoSteps.or fun _ => checks_inputs.or fun _ => ?_
  rw [ite_some_eq_or]
  exact hnoOutputs.or fun _ => checks_steps.or fun hsteps => checks_outputs.or fun _ =>
    checks_repetition.or fun hnames => hreferences hsteps hnames

end

/-- **Validation is exact and reports the first failure.** It finds nothing wrong with a program exactly
if the program keeps all rules. It reports a violation of a kind and with a position exactly if the rules
before that of the kind are kept, and this one is broken, first so at the position. -/
theorem violation?_exact (settings : Settings) (p : Program) :
    (p.violation? settings = none ↔ ∀ kind, p.Keeps settings kind) ∧
    ∀ kind place, (∃ v, p.violation? settings = some v ∧ v.kind = kind ∧ v.index? = place) ↔
      (∀ earlier : ViolationKind, earlier.rank < kind.rank → p.Keeps settings earlier) ∧
        p.BrokenFirst settings kind place := by
  have hchecks : ChecksFrom settings p 0 (p.violation? settings) := checksFrom_violation?
  constructor
  · refine ⟨fun hnone kind => hchecks.keeps hnone kind (Nat.zero_le _), fun hkeeps => ?_⟩
    rcases hv : p.violation? settings with _ | v
    · rfl
    · exact absurd (hkeeps v.kind) (hchecks.broken v hv).2.1.not_keeps
  · intro kind place
    constructor
    · rintro ⟨v, hv, rfl, rfl⟩
      obtain ⟨-, hbroken, hearlier⟩ := hchecks.broken v hv
      exact ⟨fun earlier hlt => hearlier earlier (Nat.zero_le _) hlt, hbroken⟩
    · rintro ⟨hearlier, hbroken⟩
      rcases hv : p.violation? settings with _ | v
      · exact absurd (hchecks.keeps hv kind (Nat.zero_le _)) hbroken.not_keeps
      · obtain ⟨-, hbroken', hearlier'⟩ := hchecks.broken v hv
        -- of two broken rules the earlier would have to be kept
        obtain hlt | heq | hlt := Nat.lt_trichotomy v.kind.rank kind.rank
        · exact absurd (hearlier v.kind hlt) hbroken'.not_keeps
        · obtain rfl := ViolationKind.rank_injective heq
          exact ⟨v, rfl, rfl, hbroken'.unique hbroken⟩
        · exact absurd (hearlier' kind (Nat.zero_le _) hlt) hbroken.not_keeps

end Program
end Formulary
