import Formulary.Program.Validation
import Mathlib.Data.List.Basic
import Mathlib.Data.List.Nodup
import Mathlib.Tactic.Common
/-!
# Valid programs

Validation searches for violations; `Program.Valid` says what holds of a program in which it finds none
(`Program.violation?_eq_none_iff`).
-/

namespace Formulary

/-! ## Searches that find nothing -/

lemma firstAt?_eq_none_iff {α β : Type} {ask : Nat → α → Option β} {as : List α} :
    firstAt? ask as = none ↔ ∀ (i : Nat) (a : α), as[i]? = some a → ask i a = none := by
  rw [firstAt?, List.findSome?_eq_none_iff]
  constructor
  · intro h i a ha
    exact h (a, i) (List.mem_zipIdx_iff_getElem?.2 ha)
  · rintro h ⟨a, i⟩ ha
    exact h i a (List.mem_zipIdx_iff_getElem?.1 ha)

/-- A question whose answer is none at all positions or at no position. -/
lemma firstAt?_eq_none_iff_forall {α β : Type} {ask : Nat → α → Option β} {as : List α}
    {p : α → Prop} (h : ∀ i a, ask i a = none ↔ p a) : firstAt? ask as = none ↔ ∀ a ∈ as, p a := by
  rw [firstAt?_eq_none_iff]
  constructor
  · intro hnone a ha
    obtain ⟨i, hi⟩ := List.mem_iff_getElem?.1 ha
    exact (h i a).1 (hnone i a hi)
  · intro hall i a ha
    exact (h i a).2 (hall a (List.mem_iff_getElem?.2 ⟨i, ha⟩))

lemma firstRepeated?_eq_none_iff {seen : List String} {index : Nat} {names : List String} :
    firstRepeated? seen index names = none ↔ names.Nodup ∧ ∀ n ∈ names, n ∉ seen := by
  -- names that have been passed are among those seen
  induction names generalizing seen index with
  | nil => simp [firstRepeated?]
  | cons name names ih =>
    rw [firstRepeated?]
    split
    · rename_i hseen
      refine iff_of_false (by simp) fun h => ?_
      exact h.2 name List.mem_cons_self (by simpa using hseen)
    · rename_i hseen
      have hseen : name ∉ seen := by simpa using hseen
      rw [ih, List.nodup_cons]
      constructor
      · rintro ⟨hnodup, hnames⟩
        refine ⟨⟨fun hmem => hnames name hmem List.mem_cons_self, hnodup⟩, fun n hn => ?_⟩
        rcases List.mem_cons.1 hn with rfl | hn
        · exact hseen
        · exact fun hmem => hnames n hn (List.mem_cons_of_mem name hmem)
      · rintro ⟨⟨hname, hnodup⟩, hnames⟩
        refine ⟨hnodup, fun n hn hmem => ?_⟩
        rcases List.mem_cons.1 hmem with rfl | hmem
        · exact hname hn
        · exact hnames n (List.mem_cons_of_mem name hn) hmem

namespace Program

/-! ## Parts -/

lemma Input.violation?_eq_none_iff {index : Nat} {i : Input} :
    i.violation? index = none ↔ isName i.name = true ∧ i.initial.isSome = true := by
  rw [Input.violation?]
  cases hname : isName i.name <;> cases i.initial <;> simp

lemma Step.violation?_eq_none_iff {index : Nat} {s : Step} :
    s.violation? index = none ↔ s.name ≠ "" ∧ s.definition.isSome = true := by
  rw [Step.violation?]
  by_cases hname : s.name = "" <;> cases s.definition <;> simp [hname]

lemma Output.violation?_eq_none_iff {steps : List String} {index : Nat} {o : Output} :
    o.violation? steps index = none ↔
      ∃ d, o.value = some d ∧ ∀ name, d.plainName? = some name → name ∈ steps := by
  rw [Output.violation?]
  rcases o.value with _ | d
  · simp
  · rcases hd : d.plainName? with _ | name
    · simp [hd]
    · simp [hd]

lemma firstAt?_inputs_eq_none_iff {is : List Input} :
    firstAt? Input.violation? is = none ↔
      ∀ i ∈ is, isName i.name = true ∧ i.initial.isSome = true :=
  firstAt?_eq_none_iff_forall fun _ _ => Input.violation?_eq_none_iff

lemma firstAt?_steps_eq_none_iff {ss : List Step} :
    firstAt? Step.violation? ss = none ↔ ∀ s ∈ ss, s.name ≠ "" ∧ s.definition.isSome = true :=
  firstAt?_eq_none_iff_forall fun _ _ => Step.violation?_eq_none_iff

lemma firstAt?_outputs_eq_none_iff {steps : List String} {os : List Output} :
    firstAt? (Output.violation? steps) os = none ↔
      ∀ o ∈ os, ∃ d, o.value = some d ∧ ∀ name, d.plainName? = some name → name ∈ steps :=
  firstAt?_eq_none_iff_forall fun _ _ => Output.violation?_eq_none_iff

lemma repetition?_eq_none_iff {p : Program} :
    p.repetition? = none ↔ (p.inputNames ++ p.stepNames).Nodup := by
  rw [List.nodup_append, repetition?]
  split
  · rename_i hrepeated
    have hinputs : ¬ p.inputNames.Nodup := fun h => by
      rw [firstRepeated?_eq_none_iff.2 ⟨h, fun n _ => List.not_mem_nil⟩] at hrepeated
      exact absurd hrepeated (by simp)
    simp [hinputs]
  · rename_i hrepeated
    have hinputs := (firstRepeated?_eq_none_iff.1 hrepeated).1
    rw [Option.map_eq_none_iff, firstRepeated?_eq_none_iff]
    refine ⟨fun h => ⟨hinputs, h.1, fun a ha b hb hab => ?_⟩, fun h => ⟨h.2.1, fun n hn hi => ?_⟩⟩
    · exact h.2 b hb (hab ▸ ha)
    · exact h.2.2 n hi n hn rfl

/-! ## Whole programs -/

/-- What holds of a program that breaks no rule. -/
structure Valid (settings : Settings) (p : Program) : Prop where
  steps_ne_nil : p.steps ≠ []
  inputs : ∀ i ∈ p.inputs, isName i.name = true ∧ i.initial.isSome = true
  outputs_ne_nil : p.outputs ≠ []
  steps : ∀ s ∈ p.steps, s.name ≠ "" ∧ s.definition.isSome = true
  outputs : ∀ o ∈ p.outputs, ∃ d, o.value = some d ∧
    ∀ name, d.plainName? = some name → name ∈ p.stepNames
  distinct : (p.inputNames ++ p.stepNames).Nodup
  references : settings.strictReferences = true →
    firstBadReference? (p.inputNames.map fun name => (name, true)) p.stepNames 0 p.steps = none

theorem violation?_eq_none_iff {settings : Settings} {p : Program} :
    p.violation? settings = none ↔ p.Valid settings := by
  have hsteps : p.steps.isEmpty = true ↔ p.steps = [] := List.isEmpty_iff
  have houtputs : p.outputs.isEmpty = true ↔ p.outputs = [] := List.isEmpty_iff
  rw [violation?]
  constructor
  · intro h
    split at h
    · exact absurd h (by simp)
    · rename_i hs
      obtain ⟨hi, h⟩ := Option.or_eq_none_iff.1 h
      split at h
      · exact absurd h (by simp)
      · rename_i ho
        obtain ⟨hstep, h⟩ := Option.or_eq_none_iff.1 h
        obtain ⟨hout, h⟩ := Option.or_eq_none_iff.1 h
        obtain ⟨hrep, h⟩ := Option.or_eq_none_iff.1 h
        exact {
          steps_ne_nil := hsteps.not.1 hs
          inputs := firstAt?_inputs_eq_none_iff.1 hi
          outputs_ne_nil := houtputs.not.1 ho
          steps := firstAt?_steps_eq_none_iff.1 hstep
          outputs := firstAt?_outputs_eq_none_iff.1 hout
          distinct := repetition?_eq_none_iff.1 hrep
          references := fun hstrict => by rwa [if_pos hstrict] at h }
  · intro h
    rw [if_neg (hsteps.not.2 h.steps_ne_nil), if_neg (houtputs.not.2 h.outputs_ne_nil),
      firstAt?_inputs_eq_none_iff.2 h.inputs,
      firstAt?_steps_eq_none_iff.2 h.steps,
      firstAt?_outputs_eq_none_iff.2 h.outputs,
      repetition?_eq_none_iff.2 h.distinct, Option.none_or, Option.none_or, Option.none_or,
      Option.none_or]
    split
    · rename_i hstrict
      exact h.references hstrict
    · rfl

end Program
end Formulary
