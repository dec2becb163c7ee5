import Formulary.Proofs.Template.Gaps
/-!
# The tokens of a source, gap by gap

A source is woven from its gaps and its references. The text that replaces it has tokens if and only if
each gap has, and these are woven from the tokens of the gaps and the identifiers of the references in
the same way (`tokenize_text_iff_gaps`).
-/

namespace Formulary

/-- Parts one after the other, with the links given between them. -/
def weave {α : Type} : List (List α) → List (List α) → List α
  | part :: parts, link :: links => part ++ link ++ weave parts links
  | parts, _ => parts.flatten

lemma mem_of_char_mem_pieces {c : Char} {cs : List Char} (h : Piece.char c ∈ pieces cs) : c ∈ cs := by
  rw [← source_pieces cs]
  exact List.mem_flatMap.2 ⟨_, h, List.mem_singleton_self c⟩

/-- The names of the links are the references of the source. -/
lemma map_links_name (ps : List Piece) :
    (links ps).map (fun l => String.ofList l.1) = ps.filterMap Piece.name? := by
  induction ps with
  | nil => rfl
  | cons p ps ih =>
    cases p with
    | char c =>
      rw [links, ih]
      rfl
    | reference name =>
      rw [links, List.map_cons, ih]
      rfl

lemma flatMap_links_eq_weave (g : List Char) (ls : List (List Char × List Char)) :
    g ++ ls.flatMap (fun l => (Piece.reference l.1).source ++ l.2) =
      weave (g :: ls.map Prod.snd) (ls.map fun l => (Piece.reference l.1).source) := by
  induction ls generalizing g with
  | nil => simp [weave]
  | cons l ls ih => simp [weave, ← ih]

/-- A source is woven from its gaps and its references. -/
theorem toList_eq_weave (source : String) :
    source.toList = weave (gaps source)
      ((Template.ofSource source).references.map fun n => (Piece.reference n.toList).source) := by
  have hspelled : (pieces source.toList).flatMap Piece.source = source.toList := source_pieces _
  rw [source_eq_gaps, flatMap_links_eq_weave] at hspelled
  simp only [gaps, Template.ofSource, ← map_links_name, List.map_map]
  simpa [Function.comp_def] using hspelled.symm

/-! ## Tokens -/

lemma exists_tokenize_iff {cs : List Char} :
    (∃ ls, tokenize cs = .ok ls) ↔ (tokensOf cs).isSome = true := by
  rw [tokensOf_eq]
  cases tokenize cs <;> simp [unplaced, Except.toOption]

/-- Gaps have tokens together if each has. -/
lemma isSome_joinTokens_links (g : List Char) (ls : List (List Char × List Char)) :
    (joinTokens (tokensOf g) (tokensOfLinks ls)).isSome = true ↔
      ∀ gap ∈ g :: ls.map Prod.snd, (tokensOf gap).isSome = true := by
  induction ls generalizing g with
  | nil => cases hg : tokensOf g <;> simp [tokensOfLinks, joinTokens, hg]
  | cons l ls ih =>
    rw [List.map_cons, List.forall_mem_cons, ← ih l.2, tokensOfLinks]
    cases tokensOf g with
    | none => simp
    | some ts => cases joinTokens (tokensOf l.2) (tokensOfLinks ls) <;> simp [joinTokens]

/-- What gaps have together is woven from what each has. -/
lemma exists_weave_of_joinTokens_links {g : List Char} {ls : List (List Char × List Char)}
    {ts : List Token} (h : joinTokens (tokensOf g) (tokensOfLinks ls) = some ts) :
    ∃ tss, List.Forall₂ (fun gap us => tokensOf gap = some us) (g :: ls.map Prod.snd) tss ∧
      ts = weave tss (ls.map fun l => [.name (identifierOf (String.ofList l.1))]) := by
  induction ls generalizing g ts with
  | nil =>
    obtain ⟨as, bs, has, hbs, rfl⟩ := joinTokens_eq_some.1 h
    obtain rfl := Option.some.inj hbs
    exact ⟨[as], .cons has .nil, by simp [weave]⟩
  | cons l ls ih =>
    obtain ⟨as, bs, has, hbs, rfl⟩ := joinTokens_eq_some.1 h
    obtain ⟨us, hus, rfl⟩ := Option.map_eq_some_iff.1 hbs
    obtain ⟨tss, htss, rfl⟩ := ih hus
    exact ⟨as :: tss, .cons has htss, by simp [weave]⟩

/-- **Replacing references fuses no tokens and splits none.** A source without quotes is woven from its
gaps and its references; what replaces it has tokens if and only if each gap has, and then its tokens
are woven from those of the gaps and one identifier for each reference. -/
theorem tokenize_text_iff_gaps {source : String} (h : ∀ c ∈ source.toList, isQuote c = false) :
    (gaps source).length = (Template.ofSource source).references.length + 1 ∧
    source.toList = weave (gaps source)
      ((Template.ofSource source).references.map fun n => (Piece.reference n.toList).source) ∧
    ((∃ ls, tokenize (Template.ofSource source).text = .ok ls) ↔
      ∀ gap ∈ gaps source, ∃ ls, tokenize gap = .ok ls) ∧
    ∀ ls, tokenize (Template.ofSource source).text = .ok ls →
      ∃ tss, List.Forall₂ (fun gap ts => unplaced (tokenize gap) = some ts) (gaps source) tss ∧
        ls.map Lexeme.token = weave tss
          ((Template.ofSource source).references.map fun n => [.name (identifierOf n)]) := by
  have hreferences : (Template.ofSource source).references =
      (links (pieces source.toList)).map fun l => String.ofList l.1 := (map_links_name _).symm
  have htokens : tokensOf (Template.ofSource source).text = _ :=
    tokensOf_text fun c hc => h c (mem_of_char_mem_pieces hc)
  refine ⟨?_, toList_eq_weave source, ?_, fun ls hls => ?_⟩
  · simp [gaps, hreferences]
  · simp only [exists_tokenize_iff, htokens]
    exact isSome_joinTokens_links _ _
  · rw [tokensOf_of_tokenize hls] at htokens
    obtain ⟨tss, htss, hweave⟩ := exists_weave_of_joinTokens_links htokens.symm
    refine ⟨tss, ?_, ?_⟩
    · simp only [← tokensOf_eq]
      exact htss
    · rw [hweave, hreferences, List.map_map]
      rfl

/-- The letters around a reference stay names of their own. -/
theorem tokenize_text_between_letters :
    ∃ ls, tokenize (Template.ofSource "a\x7b\x7bx\x7d\x7db").text = .ok ls ∧
      ls.map Lexeme.token = [.name "a", .name "__v_x", .name "b"] := by
  have hnone : "a\x7b\x7bx\x7d\x7db".toList.any isQuote = false := rfl
  have hquotes : ∀ c ∈ "a\x7b\x7bx\x7d\x7db".toList, isQuote c = false := by
    simpa only [List.any_eq_false, Bool.not_eq_true] using hnone
  have hgaps : gaps "a\x7b\x7bx\x7d\x7db" = [['a'], ['b']] := by with_unfolding_all rfl
  have hreferences : (Template.ofSource "a\x7b\x7bx\x7d\x7db").references = ["x"] := by
    with_unfolding_all rfl
  have hfirst : tokensOf ['a'] = some [.name "a"] := by with_unfolding_all rfl
  have hsecond : tokensOf ['b'] = some [.name "b"] := by with_unfolding_all rfl
  obtain ⟨-, -, htokens, hweave⟩ := tokenize_text_iff_gaps hquotes
  rw [hgaps] at htokens hweave
  rw [hreferences] at hweave
  obtain ⟨ls, hls⟩ := htokens.2 (by simp [exists_tokenize_iff, hfirst, hsecond])
  obtain ⟨tss, htss, hmap⟩ := hweave ls hls
  -- the tokens of the two gaps are known
  obtain _ | ⟨h, _ | ⟨h', _ | _⟩⟩ := htss
  obtain rfl := Option.some.inj ((h.symm.trans (tokensOf_eq ['a']).symm).trans hfirst)
  obtain rfl := Option.some.inj ((h'.symm.trans (tokensOf_eq ['b']).symm).trans hsecond)
  exact ⟨ls, hls, hmap⟩

end Formulary
