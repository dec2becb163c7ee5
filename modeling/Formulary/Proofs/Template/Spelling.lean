import Formulary.Proofs.Template.Gaps
/-!
# Writing a source piece by piece

A source can be put together from pieces, single characters and references. If these are plain, they are
found again when the source is cut (`pieces_flatMap_source`), and the tokens of the text that replaces the
source can be read off the pieces from left to right (`tokensOf_text_of_plain`): a mark, a name, a numeral
or a reference at the front is one token, whatever comes after it that does not continue it.
-/

namespace Formulary

/-! ## Plain pieces -/

/-- A piece stays what it is among others: no brace or quote stands for itself, and a reference has a
name. -/
def Piece.Plain : Piece → Prop
  | char c => c ≠ '{' ∧ isQuote c = false
  | reference name => isNameText name = true

lemma plain_of_mem_map_char {cs : List Char} (h : ∀ c ∈ cs, c ≠ '{' ∧ isQuote c = false) :
    ∀ p ∈ cs.map Piece.char, p.Plain := by
  intro p hp
  obtain ⟨c, hc, rfl⟩ := List.mem_map.1 hp
  exact h c hc

theorem pieces_flatMap_source {ps : List Piece} (h : ∀ p ∈ ps, p.Plain) :
    pieces (ps.flatMap Piece.source) = ps := by
  induction ps with
  | nil => rw [List.flatMap_nil, pieces]
  | cons p ps ih =>
    have hps := ih fun q hq => h q (List.mem_cons_of_mem p hq)
    have hp : p.Plain := h p List.mem_cons_self
    rw [List.flatMap_cons]
    cases p with
    | char c =>
      have hscan : scanReference (c :: ps.flatMap Piece.source) = none := scanReference_eq_none hp.1
      rw [Piece.source, List.singleton_append, pieces]
      split
      · rename_i hsome
        exact absurd (hscan.symm.trans hsome) (by simp)
      · rw [hps]
    | reference name => rw [pieces_reference_append hp, hps]

/-! ## Tokens of pieces -/

/-- The tokens of the text that replaces pieces. -/
def tokensOfPieces (ps : List Piece) : Option (List Token) :=
  joinTokens (tokensOf (lead ps)) (tokensOfLinks (links ps))

theorem tokensOf_text_of_plain {ps : List Piece} (h : ∀ p ∈ ps, p.Plain) :
    tokensOf (Template.ofSource (String.ofList (ps.flatMap Piece.source))).text =
      tokensOfPieces ps := by
  have hpieces : pieces (String.ofList (ps.flatMap Piece.source)).toList = ps := by
    rw [String.toList_ofList, pieces_flatMap_source h]
  rw [tokensOf_text, hpieces, tokensOfPieces]
  intro c hc
  rw [hpieces] at hc
  exact (h _ hc).2

/-- What comes next continues no word: nothing, a reference, or one of three characters. -/
def Ends (ps : List Piece) : Prop :=
  ∀ c ∈ (lead ps).head?, c ∈ [' ', ')', ',']

section
variable {ps : List Piece} {cs : List Char} {ts : List Token}

lemma ends_nil : Ends [] := by
  intro c hc
  exact absurd hc (by simp [lead])

lemma ends_char {c : Char} (h : c ∈ [' ', ')', ',']) : Ends (.char c :: ps) := by
  intro d hd
  obtain rfl : c = d := by simpa [lead] using hd
  exact h

lemma Ends.stops {p : Char → Bool} (hp : [' ', ')', ','].all (fun c => !p c) = true) (h : Ends ps) :
    Stops p (lead ps) := by
  intro c hc
  simpa using List.all_eq_true.1 hp c (h c hc)

lemma tokensOfPieces_nil : tokensOfPieces [] = some [] := by
  simp [tokensOfPieces, lead, links, tokensOfLinks]

/-- Characters that are a token before what comes next are one among pieces. -/
lemma tokensOfPieces_chars {t : Token}
    (h : tokensOf (cs ++ lead ps) = (tokensOf (lead ps)).map (t :: ·)) :
    tokensOfPieces (cs.map .char ++ ps) = (tokensOfPieces ps).map (t :: ·) := by
  rw [tokensOfPieces, lead_map_char_append, links_map_char_append, h, joinTokens_cons]
  rfl

lemma tokensOfPieces_blank : tokensOfPieces (.char ' ' :: ps) = tokensOfPieces ps := by
  rw [tokensOfPieces, lead, links, tokensOf_of_blank rfl]
  rfl

lemma tokensOfPieces_reference {name : List Char} :
    tokensOfPieces (.reference name :: ps) =
      (tokensOfPieces ps).map (.name (identifierOf (String.ofList name)) :: ·) := by
  rw [tokensOfPieces, lead, links, tokensOf_nil, joinTokens_nil, tokensOfLinks]
  rfl

/-! ### Marks -/

/-- A mark before a blank. -/
lemma tokensOf_mark_blank (m : Mark) :
    tokensOf (m.spelling.toList ++ ' ' :: cs) = (tokensOf cs).map (.mark m :: ·) := by
  have hblank : tokensOf (' ' :: cs) = tokensOf cs := tokensOf_of_blank rfl
  rw [← hblank]
  cases m <;> exact tokensOf_of_munch rfl rfl

lemma tokensOfPieces_mark_blank (m : Mark) :
    tokensOfPieces (m.spelling.toList.map .char ++ .char ' ' :: ps) =
      (tokensOfPieces ps).map (.mark m :: ·) := by
  rw [tokensOfPieces_chars, tokensOfPieces_blank]
  rw [lead, tokensOf_mark_blank, tokensOf_of_blank rfl]

/-- A mark of one character that is read alike whatever comes next. -/
lemma tokensOfPieces_mark {c : Char} {m : Mark} (hc : isTokenBlank c = false)
    (h : ∀ cs, munch c cs = .token (.mark m) [c] cs) :
    tokensOfPieces (.char c :: ps) = (tokensOfPieces ps).map (.mark m :: ·) := by
  have hchars : tokensOfPieces ([c].map .char ++ ps) = _ :=
    tokensOfPieces_chars (tokensOf_of_munch hc (h (lead ps)))
  exact hchars

/-- Parentheses and commas. -/
lemma tokensOfPieces_delimiter (c : Char) (m : Mark)
    (h : (c, m) ∈ [('(', .leftParen), (')', .rightParen), (',', .comma)]) :
    tokensOfPieces (.char c :: ps) = (tokensOfPieces ps).map (.mark m :: ·) := by
  simp only [List.mem_cons, Prod.mk.injEq, List.not_mem_nil, or_false] at h
  rcases h with ⟨rfl, rfl⟩ | ⟨rfl, rfl⟩ | ⟨rfl, rfl⟩
  all_goals exact tokensOfPieces_mark rfl fun _ => rfl

/-! ### Names and numerals -/

lemma tokensOfPieces_name {name : List Char} (hname : isNameText name = true)
    (htoken : wordToken name = .name (String.ofList name)) (h : Stops isNameChar (lead ps)) :
    tokensOfPieces (name.map .char ++ ps) =
      (tokensOfPieces ps).map (.name (String.ofList name) :: ·) :=
  tokensOfPieces_chars (tokensOf_name_append hname htoken h)

lemma tokensOfPieces_numeral {n : Numeral} (hscan : Numeral.scan cs = some (n, []))
    (h : Stops Numeral.isNumeralChar (lead ps)) :
    tokensOfPieces (cs.map .char ++ ps) = (tokensOfPieces ps).map (.number n.value.toFloat :: ·) :=
  tokensOfPieces_chars (tokensOf_numeral_append hscan h)

end

end Formulary
