import Formulary.Fault
import Mathlib.Data.List.Infix
import Mathlib.Tactic.Common
import Mathlib.Tactic.SplitIfs
/-!
# Where the prefix of identifiers is displayed

Users do not write the identifiers of variables, so messages should not show them. A text shows one if
their prefix stands in it (`ShowsPrefix`). What is displayed around the words of a user, numbers and
kinds of tokens among it, has no underscore, so it neither holds the prefix nor completes it; nor does
quoting a text, whatever it escapes (`showsPrefix_quoted`).
-/

namespace Formulary

/-- The prefix of the identifiers of variables stands in a text. -/
def ShowsPrefix (cs : List Char) : Prop :=
  variablePrefix <:+: cs

instance (cs : List Char) : Decidable (ShowsPrefix cs) :=
  inferInstanceAs (Decidable (variablePrefix <:+: cs))

/-! ## Parts of a text -/

section
variable {as bs cs : List Char} {c : Char}

lemma not_showsPrefix_of_not_mem (h : '_' ∉ cs) : ¬ ShowsPrefix cs :=
  fun hp => h (hp.subset (by decide))

lemma showsPrefix_append_left (h : '_' ∉ as) : ShowsPrefix (as ++ cs) ↔ ShowsPrefix cs := by
  refine ⟨fun hp => ?_, List.infix_append_of_infix_right⟩
  rcases List.infix_append_iff_ne_nil.1 hp with hp | hp | ⟨first, last, hne, -, hsplit, hfirst, -⟩
  · exact absurd hp (not_showsPrefix_of_not_mem h)
  · exact hp
  · -- the part before the border begins with an underscore
    obtain ⟨d, first, rfl⟩ := List.exists_cons_of_ne_nil hne
    obtain ⟨rfl, -⟩ := List.cons.inj hsplit
    exact absurd (hfirst.subset List.mem_cons_self) h

lemma showsPrefix_append_right (h : '_' ∉ bs) : ShowsPrefix (cs ++ bs) ↔ ShowsPrefix cs := by
  refine ⟨fun hp => ?_, List.infix_append_of_infix_left⟩
  rcases List.infix_append_iff_ne_nil.1 hp with hp | hp | ⟨first, last, -, hne, hsplit, -, hlast⟩
  · exact hp
  · exact absurd hp (not_showsPrefix_of_not_mem h)
  · -- the part behind the border ends with an underscore
    obtain ⟨last, d, rfl⟩ := List.eq_nil_or_concat last |>.resolve_left hne
    have hend := congrArg List.getLast? hsplit
    rw [List.concat_eq_append, ← List.append_assoc, List.getLast?_concat] at hend
    obtain rfl : '_' = d := Option.some.inj hend
    exact absurd (hlast.subset (by simp)) h

lemma showsPrefix_append_cons (h : c ∉ variablePrefix) :
    ShowsPrefix (as ++ c :: bs) ↔ ShowsPrefix as ∨ ShowsPrefix bs := by
  constructor
  · intro hp
    rcases List.infix_append_iff_ne_nil.1 hp with hp | hp | ⟨first, last, -, hne, hsplit, -, hlast⟩
    · exact .inl hp
    · rcases List.infix_cons_iff.1 hp with hp | hp
      · obtain ⟨rfl, -⟩ := List.cons_prefix_cons.1 hp
        exact absurd List.mem_cons_self h
      · exact .inr hp
    · obtain ⟨d, last, rfl⟩ := List.exists_cons_of_ne_nil hne
      obtain ⟨rfl, -⟩ := List.cons_prefix_cons.1 hlast
      exact absurd (hsplit ▸ by simp) h
  · rintro (hp | hp)
    · exact List.infix_append_of_infix_left hp
    · exact List.infix_append_of_infix_right (List.infix_cons hp)

/-- A text that no prefix runs through keeps its neighbours apart. -/
lemma showsPrefix_append_between (hbs : '_' ∉ bs) (hc : c ∈ bs) (hfree : c ∉ variablePrefix) :
    ShowsPrefix (as ++ bs ++ cs) ↔ ShowsPrefix as ∨ ShowsPrefix cs := by
  obtain ⟨first, last, rfl⟩ := List.append_of_mem hc
  rw [List.mem_append, List.mem_cons, not_or, not_or] at hbs
  have hsplit : as ++ (first ++ c :: last) ++ cs = (as ++ first) ++ c :: (last ++ cs) := by simp
  rw [hsplit, showsPrefix_append_cons hfree, showsPrefix_append_right hbs.1,
    showsPrefix_append_left hbs.2.2]

end

/-! ## Numbers -/

lemma underscore_not_mem_toDigits {b : Nat} (hb : 1 < b) (n : Nat) : '_' ∉ Nat.toDigits b n := by
  have hdigit : ∀ k : Nat, '_' ≠ k.digitChar := fun k => (Nat.digitChar_ne '_' rfl).symm
  induction n using Nat.strong_induction_on with
  | _ n ih =>
    rcases Nat.lt_or_ge n b with hlt | hle
    · rw [Nat.toDigits_of_lt_base hlt]
      simp [hdigit]
    · rw [Nat.toDigits_of_base_le hb hle]
      have hdiv := ih (n / b) (Nat.div_lt_self (by omega) hb)
      simp [hdiv, hdigit]

lemma underscore_not_mem_toString (n : Nat) : '_' ∉ (toString n).toList := by
  rw [show toString n = String.ofList (Nat.toDigits 10 n) from rfl, String.toList_ofList]
  exact underscore_not_mem_toDigits (by decide) n

lemma underscore_not_mem_positionalText (d : Decimal) : '_' ∉ d.positionalText false := by
  have hdigits : '_' ∉ Decimal.digitsOf d.coefficient := underscore_not_mem_toDigits (by decide) _
  unfold Decimal.positionalText
  split
  · simp [hdigits, List.mem_replicate]
  · dsimp only
    split
    · have htake : ∀ n, '_' ∉ (Decimal.digitsOf d.coefficient).take n :=
        fun n hmem => hdigits (List.mem_of_mem_take hmem)
      have hdrop : ∀ n, '_' ∉ (Decimal.digitsOf d.coefficient).drop n :=
        fun n hmem => hdigits (List.mem_of_mem_drop hmem)
      simp [htake, hdrop]
    · simp [hdigits, List.mem_replicate]

lemma underscore_not_mem_numberText (x : Float) : '_' ∉ (numberText x).toList := by
  unfold numberText NumberStyle.text
  split
  · decide
  · split <;> decide
  · rename_i negative m e _
    have hdigits : NumberStyle.plain.digits m e =
        (Decimal.shortest .upward m e).positionalText false := by
      simp [NumberStyle.digits, NumberStyle.plain]
    have hsign : '_' ∉ (if negative then ['-'] else []) := by
      split <;> decide
    rw [String.toList_ofList, hdigits, List.mem_append, not_or]
    exact ⟨hsign, underscore_not_mem_positionalText _⟩

/-! ## Quoted texts -/

lemma quotedChar_eq_or (c : Char) :
    quotedChar c = [c] ∨ ∃ cs, quotedChar c = '\\' :: cs ∧ '_' ∉ cs := by
  unfold quotedChar
  split_ifs with hquote
  · refine .inr ⟨_, rfl, ?_⟩
    rintro hmem
    obtain rfl := List.mem_singleton.1 hmem
    exact absurd hquote (by decide)
  · exact .inr ⟨_, rfl, by decide⟩
  · exact .inr ⟨_, rfl, by decide⟩
  · exact .inr ⟨_, rfl, by decide⟩
  · exact .inr ⟨_, rfl, by decide⟩
  · refine .inr ⟨_, rfl, ?_⟩
    have hhex : '_' ∉ hexadecimal c.toNat := underscore_not_mem_toDigits (by decide) _
    simp [hhex]
  · exact .inl rfl

lemma prefix_of_prefix_flatMap_quotedChar {p cs : List Char} (hp : '\\' ∉ p)
    (h : p <+: cs.flatMap quotedChar) : p <+: cs := by
  induction p generalizing cs with
  | nil => exact List.nil_prefix
  | cons d p ih =>
    cases cs with
    | nil => exact absurd (List.prefix_nil.1 h) (by simp)
    | cons c cs =>
      rw [List.flatMap_cons] at h
      rcases quotedChar_eq_or c with hc | ⟨ds, hc, -⟩
      · rw [hc, List.singleton_append, List.cons_prefix_cons] at h
        rw [List.cons_prefix_cons]
        exact ⟨h.1, ih (fun hmem => hp (List.mem_cons_of_mem d hmem)) h.2⟩
      · rw [hc, List.cons_append, List.cons_prefix_cons] at h
        exact absurd (h.1 ▸ List.mem_cons_self) hp

lemma showsPrefix_flatMap_quotedChar {cs : List Char} :
    ShowsPrefix (cs.flatMap quotedChar) ↔ ShowsPrefix cs := by
  constructor
  · intro h
    induction cs with
    | nil => exact h
    | cons c cs ih =>
      rcases quotedChar_eq_or c with hc | ⟨ds, hc, hds⟩
      · rw [ShowsPrefix, List.flatMap_cons, hc, List.singleton_append, List.infix_cons_iff] at h
        rcases h with h | h
        · have hcons : variablePrefix <+: (c :: cs).flatMap quotedChar := by
            rwa [List.flatMap_cons, hc, List.singleton_append]
          exact (prefix_of_prefix_flatMap_quotedChar (by decide) hcons).isInfix
        · exact List.infix_cons (ih h)
      · rw [List.flatMap_cons, hc, showsPrefix_append_left (by simp [hds])] at h
        exact List.infix_cons (ih h)
  · intro h
    exact h.flatMap quotedChar

/-- Quoting a text neither makes the prefix nor breaks it. -/
theorem showsPrefix_quoted (s : String) : ShowsPrefix (quoted s).toList ↔ ShowsPrefix s.toList := by
  rw [quoted, String.toList_ofList, ← List.singleton_append, List.append_assoc,
    showsPrefix_append_left (by decide), showsPrefix_append_right (by decide),
    showsPrefix_flatMap_quotedChar]

/-! ## Tokens and kinds of tokens -/

lemma underscore_not_mem_spelling (m : Mark) : '_' ∉ m.spelling.toList := by
  cases m <;> decide

lemma underscore_not_mem_terminal (t : Terminal) : '_' ∉ t.shown.toList := by
  cases t with
  | mark m =>
    have hspelling := underscore_not_mem_spelling m
    simp [Terminal.shown, hspelling]
  | _ => decide

lemma underscore_not_mem_expectedText (ts : List Terminal) : '_' ∉ (Fault.expectedText ts).toList := by
  have hlist : ∀ ts : List Terminal, '_' ∉ (" or ".intercalate (ts.map Terminal.shown)).toList := by
    intro ts
    induction ts with
    | nil => simp
    | cons t ts ih =>
      have ht := underscore_not_mem_terminal t
      cases ts with
      | nil => simpa using ht
      | cons t' ts =>
        rw [List.map_cons, List.map_cons, String.intercalate_cons_cons, ← List.map_cons]
        simp only [String.toList_append, List.mem_append, not_or]
        exact ⟨⟨ht, by decide⟩, ih⟩
  cases ts with
  | nil => decide
  | cons t ts =>
    have htext := hlist (t :: ts)
    simp only [Fault.expectedText, String.toList_append, List.mem_append, not_or]
    exact ⟨by decide, htext⟩

lemma underscore_not_mem_arity (a : Arity) : '_' ∉ a.shown.toList := by
  cases a with
  | exactly k => exact underscore_not_mem_toString k
  | between lo hi =>
    simp only [Arity.shown, String.toList_append, List.mem_append, not_or]
    exact ⟨⟨underscore_not_mem_toString lo, by decide⟩, underscore_not_mem_toString hi⟩
  | atLeast k =>
    simp only [Arity.shown, String.toList_append, List.mem_append, not_or]
    exact ⟨by decide, underscore_not_mem_toString k⟩

lemma showsPrefix_reference (name : String) :
    ShowsPrefix (Fault.reference name).toList ↔ ShowsPrefix name.toList := by
  rw [Fault.reference, String.toList_append, String.toList_append,
    showsPrefix_append_right (by decide), showsPrefix_append_left (by decide)]

lemma showsPrefix_identifierOf (name : String) : ShowsPrefix (identifierOf name).toList := by
  rw [identifierOf, String.toList_ofList]
  exact List.infix_append_left

end Formulary
