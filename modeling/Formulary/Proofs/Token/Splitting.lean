import Formulary.Proofs.Token.Patterns
/-!
# How a text is split into tokens

Reading goes from left to right: past a blank, or past the longest text of a token (`Reaches`). What
`tokenize` gives are the tokens on the way to the end (`tokenize_eq_ok_iff`), and it fails exactly if
the way ends before that, at a character where no token begins (`Stuck`). So the tokens split the text:
they lie one after the other, each with the text that denotes it, and there are only blanks between
them (`tokenize_splits`).
-/

namespace Formulary

/-- Tokens that lie one after the other, each over some of the text. -/
structure Ordered (ls : List Lexeme) : Prop where
  nonempty : ∀ l ∈ ls, l.span.start < l.span.stop
  apart : ls.Pairwise fun l l' => l.span.stop ≤ l'.span.start

/-- A text is the longest text of a token at its place; `rest` comes after it. -/
def Longest (slice rest : List Char) : Prop :=
  ∀ s ∈ tokenPattern, s <+: slice ++ rest → s.length ≤ slice.length

/-- Reading a source from left to right comes past `before` to `rest`, and past the tokens `ls`. -/
inductive Reaches (source : List Char) : List Char → List Char → List Lexeme → Prop
  | start : Reaches source [] source []
  | blank {before rest : List Char} {c : Char} {ls : List Lexeme} :
    Reaches source before (c :: rest) ls → isTokenBlank c = true →
    Reaches source (before ++ [c]) rest ls
  | token {before slice rest : List Char} {t : Token} {ls : List Lexeme} :
    Reaches source before (slice ++ rest) ls → Denotes slice t → Longest slice rest →
    Reaches source (before ++ slice) rest
      (ls ++ [⟨t, ⟨byteLength before, byteLength (before ++ slice)⟩⟩])

/-- Reading comes to a character that is no blank and where no token begins. -/
def Stuck (source : List Char) : Prop :=
  ∃ before c rest ls, Reaches source before (c :: rest) ls ∧ isTokenBlank c = false ∧
    ∀ s, s ≠ [] → s <+: c :: rest → s ∉ tokenPattern

section
variable {source before slice rest cs : List Char} {c : Char} {t : Token} {ls acc : List Lexeme}
  {position : Nat}

/-! ## One token -/

/-- The longest text of a token is taken off the front. -/
lemma munch_of_longest (ht : Denotes slice t) (hlongest : Longest slice rest)
    (h : slice ++ rest = c :: cs) : munch c cs = .token t slice rest := by
  obtain ⟨t', slice', rest', hmunch, hlength, -⟩ := exists_munch ht h
  have happend := append_of_munch hmunch
  have hfront : slice' <+: slice ++ rest := ⟨rest', happend.trans h.symm⟩
  have hslice' : slice' ∈ tokenPattern := mem_tokenPattern.2 ⟨t', denotes_of_munch hmunch⟩
  have hle := hlongest slice' hslice' hfront
  obtain ⟨rfl, rfl⟩ := List.append_inj (happend.trans h.symm) (le_antisymm hle hlength)
  rw [hmunch, (denotes_of_munch hmunch).unique ht]

/-- What is taken off the front is the longest text of a token there. -/
lemma longest_of_munch (h : munch c cs = .token t slice rest) : Longest slice rest := by
  intro s hs hfront
  rw [append_of_munch h] at hfront
  exact length_le_of_munch h hs hfront

/-! ## From token to token -/

lemma tokensFrom_of_blank (hc : isTokenBlank c = true) :
    tokensFrom position acc (c :: cs) = tokensFrom (position + c.utf8Size) acc cs := by
  rw [tokensFrom, if_pos hc]

lemma tokensFrom_of_munch (h : munch c cs = .token t slice rest) :
    tokensFrom position acc (c :: cs) = tokensFrom (position + byteLength slice)
      (⟨t, position, position + byteLength slice⟩ :: acc) rest := by
  rw [tokensFrom, if_neg (by simp [isTokenBlank_of_munch h])]
  split
  · rename_i hm
    obtain ⟨rfl, rfl, rfl⟩ := Munch.token.inj (h.symm.trans hm)
    rfl
  · rename_i hm
    cases h.symm.trans hm

lemma tokensFrom_of_rejected (hc : isTokenBlank c = false) (h : munch c cs = .rejected slice) :
    tokensFrom position acc (c :: cs) =
      .error ⟨slice, position, position + byteLength slice⟩ := by
  rw [tokensFrom, if_neg (by simp [hc])]
  split
  · rename_i hm
    cases h.symm.trans hm
  · rename_i hm
    rw [Munch.rejected.inj (h.symm.trans hm)]

lemma Reaches.append_eq (h : Reaches source before rest ls) : before ++ rest = source := by
  induction h with
  | start => rfl
  | blank _ _ ih => simpa using ih
  | token _ _ _ ih => simpa using ih

/-- From a place that is reached, reading goes on as it would from the start. -/
theorem Reaches.tokenize_eq (h : Reaches source before rest ls) :
    tokenize source = tokensFrom (byteLength before) ls.reverse rest := by
  induction h with
  | start => rfl
  | blank _ hc ih =>
    rw [ih, tokensFrom_of_blank hc, byteLength_append]
    rfl
  | @token before slice rest t ls _ ht hlongest ih =>
    have hne : slice ++ rest ≠ [] := List.append_ne_nil_of_left_ne_nil ht.ne_nil rest
    obtain ⟨c, cs, hslice⟩ := List.exists_cons_of_ne_nil hne
    rw [ih, hslice, tokensFrom_of_munch (munch_of_longest ht hlongest hslice), byteLength_append,
      List.reverse_concat]

/-- Reading on from a place that is reached comes to the end, or else it gets stuck. -/
theorem Reaches.end_or_stuck (h : Reaches source before cs ls)
    (hposition : position = byteLength before) (hacc : acc = ls.reverse) :
    match tokensFrom position acc cs with
    | .ok ls' => Reaches source source [] ls'
    | .error _ => Stuck source := by
  fun_induction tokensFrom position acc cs generalizing before ls with
  | case1 position acc =>
    have hsource := h.append_eq
    rw [List.append_nil] at hsource
    rw [hsource] at h
    simpa [hacc] using h
  | case2 position acc c cs hc ih =>
    exact ih (h.blank hc) (by simp [hposition, byteLength_append]) hacc
  | case3 position acc c cs hc t slice rest hm stop =>
    rename_i ih
    rw [← append_of_munch hm] at h
    refine ih (h.token (denotes_of_munch hm) (longest_of_munch hm)) ?_ ?_
    · simp [stop, hposition, byteLength_append]
    · simp [stop, hposition, hacc, byteLength_append]
  | case4 position acc c cs hc slice hm =>
    exact ⟨before, c, cs, ls, h, by simpa using hc, fun s _ hs => not_mem_of_rejected hm hs⟩

/-- The tokens of a text are those on the way to its end. -/
theorem tokenize_eq_ok_iff : tokenize source = .ok ls ↔ Reaches source source [] ls := by
  constructor
  · intro h
    have hend := (Reaches.start : Reaches source [] source []).end_or_stuck rfl rfl
    rw [byteLength_nil, List.reverse_nil, ← tokenize, h] at hend
    exact hend
  · intro h
    rw [h.tokenize_eq, tokensFrom, List.reverse_reverse]

/-- A text has no tokens exactly if reading it gets stuck. -/
theorem tokenize_eq_error_iff : (∃ r, tokenize source = .error r) ↔ Stuck source := by
  constructor
  · rintro ⟨r, h⟩
    have hend := (Reaches.start : Reaches source [] source []).end_or_stuck rfl rfl
    rw [byteLength_nil, List.reverse_nil, ← tokenize, h] at hend
    exact hend
  · rintro ⟨before, c, rest, ls, h, hc, hnone⟩
    cases hm : munch c rest with
    | token t slice more =>
      have hslice : slice ∈ tokenPattern := mem_tokenPattern.2 ⟨t, denotes_of_munch hm⟩
      exact absurd hslice (hnone slice (slice_ne_nil_of_munch hm) ⟨more, append_of_munch hm⟩)
    | rejected slice => exact ⟨_, h.tokenize_eq.trans (tokensFrom_of_rejected hc hm)⟩

/-! ## The parts of a text -/

/-- A token lies over a text that denotes it and no other token, and no text of a token at that place is
longer. -/
def Lexeme.TakenFrom (source : List Char) (l : Lexeme) : Prop :=
  ∃ before slice rest, source = before ++ slice ++ rest ∧
    l.span = ⟨byteLength before, byteLength (before ++ slice)⟩ ∧
    (∀ t, Denotes slice t ↔ t = l.token) ∧ Longest slice rest

/-- A character that begins at a position lies outside of all tokens. -/
def Outside (ls : List Lexeme) (position : Nat) : Prop :=
  ∀ l ∈ ls, ¬ (l.span.start ≤ position ∧ position < l.span.stop)

/-- Tokens split a text: they lie one after the other, each over the longest text of a token at its
place, and what lies outside of them is blank. -/
structure Splits (source : List Char) (ls : List Lexeme) : Prop where
  ordered : Ordered ls
  taken : ∀ l ∈ ls, l.TakenFrom source
  blank : ∀ before c rest, source = before ++ c :: rest → Outside ls (byteLength before) →
    isTokenBlank c = true

namespace Reaches

lemma stop_le (h : Reaches source before rest ls) : ∀ l ∈ ls, l.span.stop ≤ byteLength before := by
  induction h with
  | start => simp
  | blank _ _ ih =>
    intro l hl
    rw [byteLength_append]
    exact (ih l hl).trans (Nat.le_add_right _ _)
  | token _ _ _ ih =>
    intro l hl
    rcases List.mem_append.1 hl with hl | hl
    · rw [byteLength_append]
      exact (ih l hl).trans (Nat.le_add_right _ _)
    · rw [List.mem_singleton.1 hl]

lemma ordered (h : Reaches source before rest ls) : Ordered ls := by
  induction h with
  | start => exact ⟨by simp, .nil⟩
  | blank _ _ ih => exact ih
  | @token before slice rest t ls h ht _ ih =>
    have hpos := byteLength_pos ht.ne_nil
    constructor
    · refine List.forall_mem_append.2 ⟨ih.nonempty, fun l hl => ?_⟩
      rw [List.mem_singleton.1 hl]
      simp only [byteLength_append]
      omega
    · refine List.pairwise_append.2 ⟨ih.apart, List.pairwise_singleton _ _, fun l hl l' hl' => ?_⟩
      rw [List.mem_singleton.1 hl']
      exact h.stop_le l hl

lemma taken (h : Reaches source before rest ls) : ∀ l ∈ ls, l.TakenFrom source := by
  induction h with
  | start => simp
  | blank _ _ ih => exact ih
  | @token before slice rest t ls h ht hlongest ih =>
    refine List.forall_mem_append.2 ⟨ih, fun l hl => ?_⟩
    rw [List.mem_singleton.1 hl]
    have hsource : source = before ++ slice ++ rest := by simpa using h.append_eq.symm
    refine ⟨before, slice, rest, hsource, rfl, fun t' => ⟨fun ht' => ht'.unique ht, ?_⟩, hlongest⟩
    rintro rfl
    exact ht

/-- Of what reading has come past, only blanks lie outside of the tokens. -/
lemma isTokenBlank_of_outside (h : Reaches source before rest ls) {before' rest' : List Char}
    (hbefore : before = before' ++ c :: rest') (hout : Outside ls (byteLength before')) :
    isTokenBlank c = true := by
  induction h generalizing rest' with
  | start => simp at hbefore
  | @blank before rest d ls _ hd ih =>
    rcases List.eq_nil_or_concat rest' with rfl | ⟨rest', e, rfl⟩
    · obtain ⟨-, hc⟩ := List.append_inj' hbefore rfl
      obtain rfl := List.singleton_inj.1 hc
      exact hd
    · rw [List.concat_eq_append, ← List.cons_append, ← List.append_assoc] at hbefore
      exact ih (List.append_inj_left' hbefore rfl) hout
  | @token before slice rest t ls _ _ _ ih =>
    obtain ⟨hout, hlast⟩ := List.forall_mem_append.1 hout
    have hinside : ∀ inner, before' = before ++ inner → slice ≠ inner ++ c :: rest' := by
      rintro inner rfl rfl
      refine hlast _ (List.mem_singleton_self _) ?_
      simp only [byteLength_append, byteLength_cons]
      have hc := c.utf8Size_pos
      omega
    rcases List.append_eq_append_iff.1 hbefore with ⟨inner, hinner, hslice⟩ | ⟨more, hmore, hrest'⟩
    · exact absurd hslice (hinside inner hinner)
    · cases more with
      | nil => exact absurd hrest'.symm (hinside [] (by simpa using hmore.symm))
      | cons d more =>
        obtain ⟨rfl, -⟩ := List.cons.inj hrest'
        exact ih hmore hout

theorem splits (h : Reaches source source [] ls) : Splits source ls :=
  ⟨h.ordered, h.taken, fun _ _ _ => h.isTokenBlank_of_outside⟩

end Reaches

end

/-- **The tokens of a text split it.** They lie one after the other, and between them there are only
blanks. Each is what the longest text of a token at its place denotes. There are no tokens exactly if
reading them one after the other comes to a character that is no blank and where none begins. -/
theorem tokenize_splits (source : List Char) :
    (∀ ls, tokenize source = .ok ls → Splits source ls) ∧
      ((∃ r, tokenize source = .error r) ↔ Stuck source) :=
  ⟨fun _ h => (tokenize_eq_ok_iff.1 h).splits, tokenize_eq_error_iff⟩

/-- An exponent without a digit is no exponent, and an equals sign belongs to what comes before it. -/
theorem tokenize_splits_unfinished_exponent : ∃ ls, tokenize "a <=1e+".toList = .ok ls ∧
    ls.map Lexeme.span = [⟨0, 1⟩, ⟨2, 4⟩, ⟨4, 5⟩, ⟨5, 6⟩, ⟨6, 7⟩] ∧ Splits "a <=1e+".toList ls := by
  have hspans : (tokenize "a <=1e+".toList).toOption.map (List.map Lexeme.span) =
      some [⟨0, 1⟩, ⟨2, 4⟩, ⟨4, 5⟩, ⟨5, 6⟩, ⟨6, 7⟩] := by
    decide +kernel
  cases htokens : tokenize "a <=1e+".toList with
  | error r =>
    rw [htokens] at hspans
    cases hspans
  | ok ls =>
    rw [htokens] at hspans
    exact ⟨ls, rfl, Option.some.inj hspans, (tokenize_splits _).1 ls htokens⟩

end Formulary
