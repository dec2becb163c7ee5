import Formulary.Proofs.Template.Pieces
/-!
# The tokens around references

The references of a source cut it into gaps. When the references are replaced by their identifiers, no
token runs across the border of a gap: the text that comes of it has the tokens that the gaps have
alone, and between them one name for each reference (`tokensOf_text`). So a name among these tokens
that stands for no reference of the source stands bare in it (`standsBare_or_reference`).
-/

namespace Formulary

/-! ## Gaps -/

/-- The characters before the first reference. -/
def lead : List Piece → List Char
  | [] => []
  | .char c :: ps => c :: lead ps
  | .reference _ :: _ => []

/-- The names of the references, each with the characters between it and the next. -/
def links : List Piece → List (List Char × List Char)
  | [] => []
  | .char _ :: ps => links ps
  | .reference name :: ps => (name, lead ps) :: links ps

lemma lead_map_char_append (cs : List Char) (ps : List Piece) :
    lead (cs.map .char ++ ps) = cs ++ lead ps := by
  induction cs with
  | nil => rfl
  | cons c cs ih => rw [List.map_cons, List.cons_append, lead, ih, List.cons_append]

lemma links_map_char_append (cs : List Char) (ps : List Piece) :
    links (cs.map .char ++ ps) = links ps := by
  induction cs with
  | nil => rfl
  | cons c cs ih => rw [List.map_cons, List.cons_append, links, ih]

theorem source_eq_gaps (ps : List Piece) :
    ps.flatMap Piece.source =
      lead ps ++ (links ps).flatMap fun l => (Piece.reference l.1).source ++ l.2 := by
  induction ps with
  | nil => rfl
  | cons p ps ih =>
    cases p with
    | char c => simp [lead, links, Piece.source, ih]
    | reference name => simp [lead, links, ih]

lemma mem_links_name {l : List Char × List Char} {ps : List Piece} (h : l ∈ links ps) :
    Piece.reference l.1 ∈ ps := by
  induction ps with
  | nil => exact absurd h List.not_mem_nil
  | cons p ps ih =>
    cases p with
    | char c => exact List.mem_cons_of_mem _ (ih h)
    | reference name =>
      rcases List.mem_cons.1 h with rfl | h
      · exact List.mem_cons_self
      · exact List.mem_cons_of_mem _ (ih h)

lemma exists_mem_links {name : List Char} {ps : List Piece} (h : Piece.reference name ∈ ps) :
    ∃ l ∈ links ps, l.1 = name := by
  induction ps with
  | nil => exact absurd h List.not_mem_nil
  | cons p ps ih =>
    cases p with
    | char c => exact ih (by simpa using h)
    | reference n =>
      rcases List.mem_cons.1 h with h | h
      · exact ⟨_, List.mem_cons_self, (Piece.reference.inj h).symm⟩
      · obtain ⟨l, hl, hname⟩ := ih h
        exact ⟨l, List.mem_cons_of_mem _ hl, hname⟩

/-- The texts between the references of a source, those before the first and after the last included. -/
def gaps (source : String) : List (List Char) :=
  lead (pieces source.toList) :: (links (pieces source.toList)).map Prod.snd

/-- A source has a name outside of its references: the name is a token of a gap. -/
def StandsBare (source name : String) : Prop :=
  ∃ gap ∈ gaps source, ∃ ts, tokensOf gap = some ts ∧ Token.name name ∈ ts

lemma StandsBare.exists_infix {source name : String} (h : StandsBare source name) :
    ∃ gap ∈ gaps source, name.toList <:+: gap := by
  obtain ⟨gap, hgap, ts, hts, hname⟩ := h
  exact ⟨gap, hgap, name_infix_of_tokensOf hts hname⟩

/-! ## Identifiers -/

lemma isNameChar_of_mem_identifier {name : List Char} (h : isNameText name = true) :
    ∀ c ∈ variablePrefix ++ name, isNameChar c = true := by
  intro c hc
  rcases List.mem_append.1 hc with hc | hc
  · have hprefix : variablePrefix.all isNameChar = true := rfl
    exact List.all_eq_true.1 hprefix c hc
  · exact isNameChar_of_mem_isNameText h c hc

lemma isNameText_identifier {name : List Char} (h : isNameText name = true) :
    isNameText (variablePrefix ++ name) = true := by
  have hchars := isNameChar_of_mem_isNameText h
  simp [isNameText, variablePrefix, isNameStart, isNameChar] at hchars ⊢
  exact hchars

/-- No identifier of a variable is a word of the grammar. -/
lemma wordToken_identifier (name : List Char) :
    wordToken (variablePrefix ++ name) = .name (String.ofList (variablePrefix ++ name)) := by
  simp [wordToken, variablePrefix]

lemma identifierOf_inj {m n : String} (h : identifierOf m = identifierOf n) : m = n := by
  simpa using congrArg variableOf? h

/-! ## The text that replaces a source -/

/-- The characters that are written for pieces that follow the character given. -/
def written (before : Option Char) (ps : List Piece) : List Char :=
  (replacements before ps).flatMap Replacement.characters

/-- What the identifier of a reference ends with, and the blank that may follow it. -/
def writtenEnd (name : List Char) (ps : List Piece) : Option Char :=
  (variablePrefix ++ name ++ separator (nextChar? ps)).getLast?

section
variable {before : Option Char} {ps : List Piece} {name cs : List Char}

@[simp] lemma written_nil : written before [] = [] := rfl

@[simp] lemma written_char (c : Char) :
    written before (.char c :: ps) = c :: written (some c) ps := rfl

lemma written_reference :
    written before (.reference name :: ps) =
      separator before ++ (variablePrefix ++ name ++ (separator (nextChar? ps) ++
        written (writtenEnd name ps) ps)) := by
  simp [written, replacements, Replacement.of, Replacement.characters, writtenEnd]

lemma mem_written {c : Char} (h : Piece.char c ∈ ps) : c ∈ written before ps := by
  induction ps generalizing before with
  | nil => exact absurd h List.not_mem_nil
  | cons p ps ih =>
    cases p with
    | char d =>
      rw [written_char]
      rcases List.mem_cons.1 h with h | h
      · obtain rfl := Piece.char.inj h
        exact List.mem_cons_self
      · exact List.mem_cons_of_mem d (ih h)
    | reference n =>
      have hmem : c ∈ written (writtenEnd n ps) ps := ih (by simpa using h)
      rw [written_reference]
      simp [hmem]

lemma tokensOf_separator_append (c : Option Char) :
    tokensOf (separator c ++ cs) = tokensOf cs := by
  rw [separator]
  split
  · exact tokensOf_of_blank rfl
  · rfl

/-- A reference stays apart from the text before it. -/
lemma apart_reference (h : ∀ c ∈ cs.getLast?, isNameChar c = true → before.any isNameChar = true) :
    Apart cs (written before (.reference name :: ps)) := by
  rw [written_reference, separator]
  split
  · intro c hc
    obtain rfl : ' ' = c := by simpa using hc
    exact .inl rfl
  · rename_i hbefore
    intro c hc
    obtain rfl : '_' = c := by simpa [variablePrefix] using hc
    refine .inr ⟨rfl, fun d hd => ?_⟩
    by_contra hname
    exact hbefore (h d hd (by simpa using hname))

/-- Nothing that follows an identifier runs into it. -/
lemma stops_after_reference (hname : isNameText name = true) :
    Stops isNameChar (separator (nextChar? ps) ++ written (writtenEnd name ps) ps) := by
  cases hnext : (nextChar? ps).any isNameChar with
  | true =>
    simp only [separator, hnext, if_true]
    exact stops_cons.2 (by decide)
  | false =>
    simp only [separator, hnext, Bool.false_eq_true, if_false, List.nil_append]
    cases ps with
    | nil => exact Stops.nil
    | cons p ps =>
      cases p with
      | char c =>
        rw [written_char]
        exact stops_cons.2 (by simpa [nextChar?, Piece.source] using hnext)
      | reference n =>
        -- the next identifier follows at once, and the blank stands before it
        have hend : (writtenEnd name (.reference n :: ps)).any isNameChar = true := by
          have hne : variablePrefix ++ name ≠ [] := by simp [variablePrefix]
          have hlast := isNameChar_of_mem_identifier hname _ (List.getLast_mem hne)
          simp only [writtenEnd, separator, hnext, Bool.false_eq_true, if_false, List.append_nil]
          rw [List.getLast?_eq_some_getLast hne]
          exact hlast
        rw [written_reference, separator, if_pos hend]
        exact stops_cons.2 (by decide)

lemma tokensOf_written_reference (hname : isNameText name = true) :
    tokensOf (written before (.reference name :: ps)) =
      (tokensOf (written (writtenEnd name ps) ps)).map
        (.name (identifierOf (String.ofList name)) :: ·) := by
  rw [written_reference, tokensOf_separator_append,
    tokensOf_name_append (isNameText_identifier hname) (wordToken_identifier name)
      (stops_after_reference hname), tokensOf_separator_append]
  simp [identifierOf]

end

/-! ## Its tokens -/

/-- The names of references, each followed by the tokens of the gap after it. -/
def tokensOfLinks : List (List Char × List Char) → Option (List Token)
  | [] => some []
  | l :: ls =>
    (joinTokens (tokensOf l.2) (tokensOfLinks ls)).map
      (.name (identifierOf (String.ofList l.1)) :: ·)

/-- The tokens of what is written for pieces after a text, if the character before the pieces is known
where it matters. -/
lemma tokensOf_append_written {ps : List Piece} {before : Option Char} {cs : List Char}
    (hnames : ∀ name, Piece.reference name ∈ ps → isNameText name = true)
    (hps : ∀ c, Piece.char c ∈ ps → isQuote c = false) (hcs : ∀ c ∈ cs, isQuote c = false)
    (hbefore : ∀ c ∈ cs.getLast?, isNameChar c = true → before.any isNameChar = true) :
    tokensOf (cs ++ written before ps) =
      joinTokens (tokensOf (cs ++ lead ps)) (tokensOfLinks (links ps)) := by
  -- `cs` is the part of the gap that has been passed; at a reference the next gap begins
  induction ps generalizing before cs with
  | nil =>
    rw [written_nil, lead, List.append_nil, links, tokensOfLinks]
    cases tokensOf cs <;> simp [joinTokens]
  | cons p ps ih =>
    have hnames' : ∀ name, Piece.reference name ∈ ps → isNameText name = true :=
      fun name h => hnames name (List.mem_cons_of_mem p h)
    have hps' : ∀ c, Piece.char c ∈ ps → isQuote c = false :=
      fun c h => hps c (List.mem_cons_of_mem p h)
    cases p with
    | char c =>
      -- the character joins the text before
      have hrest : tokensOf ((cs ++ [c]) ++ written (some c) ps) = _ := ih hnames' hps'
        (fun d hd => (List.mem_append.1 hd).elim (hcs d) fun hd => by
          obtain rfl := List.mem_singleton.1 hd
          exact hps d List.mem_cons_self)
        (fun d hd hname => by
          obtain rfl : c = d := by simpa using hd
          exact hname)
      simpa [lead, links] using hrest
    | reference name =>
      have hname := hnames name List.mem_cons_self
      have hrest : tokensOf ([] ++ written (writtenEnd name ps) ps) = _ := ih hnames' hps'
        (fun d hd => absurd hd List.not_mem_nil) (fun d hd => absurd hd (by simp))
      rw [List.nil_append, List.nil_append] at hrest
      rw [tokensOf_append hcs (apart_reference hbefore), tokensOf_written_reference hname, hrest,
        lead, List.append_nil, links, tokensOfLinks]

/-- **Replacing the references of a source fuses and splits no tokens**: if no quote stands between the
references, the text that comes of it has the tokens of the gaps, and one name for each reference
between them. -/
theorem tokensOf_text {source : String}
    (h : ∀ c, Piece.char c ∈ pieces source.toList → isQuote c = false) :
    tokensOf (Template.ofSource source).text =
      joinTokens (tokensOf (lead (pieces source.toList)))
        (tokensOfLinks (links (pieces source.toList))) := by
  have htext : tokensOf ([] ++ written none (pieces source.toList)) = _ :=
    tokensOf_append_written (fun name hname => isNameText_of_mem_pieces hname) h
      (fun d hd => absurd hd List.not_mem_nil) (fun d hd => absurd hd (by simp))
  rwa [List.nil_append, List.nil_append] at htext

/-! ## Names that stand bare -/

lemma name_mem_tokensOfLinks {ls : List (List Char × List Char)} {ts : List Token} {name : String}
    (h : tokensOfLinks ls = some ts) (hname : Token.name name ∈ ts) :
    ∃ l ∈ ls, name = identifierOf (String.ofList l.1) ∨
      ∃ us, tokensOf l.2 = some us ∧ Token.name name ∈ us := by
  induction ls generalizing ts with
  | nil =>
    obtain rfl := Option.some.inj h
    exact absurd hname List.not_mem_nil
  | cons l ls ih =>
    obtain ⟨vs, hvs, rfl⟩ := Option.map_eq_some_iff.1 h
    obtain ⟨as, bs, has, hbs, rfl⟩ := joinTokens_eq_some.1 hvs
    rcases List.mem_cons.1 hname with hname | hname
    · exact ⟨l, List.mem_cons_self, .inl (Token.name.inj hname)⟩
    · rcases List.mem_append.1 hname with hname | hname
      · exact ⟨l, List.mem_cons_self, .inr ⟨as, has, hname⟩⟩
      · obtain ⟨m, hm, hcase⟩ := ih hbs hname
        exact ⟨m, List.mem_cons_of_mem l hm, hcase⟩

/-- A name in the text that replaces a source stands for one of its references, or it stands bare in
the source. -/
theorem standsBare_or_reference {source name : String} {ts : List Token}
    (h : tokensOf (Template.ofSource source).text = some ts) (hts : ∀ s, Token.text s ∉ ts)
    (hname : Token.name name ∈ ts) :
    StandsBare source name ∨ ∃ v ∈ variablesOf source, name = identifierOf v := by
  have hquotes := isQuote_of_tokensOf h hts
  rw [tokensOf_text fun c hc => hquotes c (mem_written hc)] at h
  obtain ⟨as, bs, has, hbs, rfl⟩ := joinTokens_eq_some.1 h
  rcases List.mem_append.1 hname with hname | hname
  · exact .inl ⟨_, List.mem_cons_self, as, has, hname⟩
  · obtain ⟨l, hl, rfl | ⟨us, hus, hname⟩⟩ := name_mem_tokensOfLinks hbs hname
    · refine .inr ⟨_, ?_, rfl⟩
      rw [mem_variablesOf, String.toList_ofList]
      exact mem_links_name hl
    · exact .inl ⟨l.2, List.mem_cons_of_mem _ (List.mem_map.2 ⟨l, hl, rfl⟩), us, hus, hname⟩

/-! ## References -/

lemma identifier_mem_tokensOfLinks {ls : List (List Char × List Char)} {ts : List Token}
    (h : tokensOfLinks ls = some ts) {l : List Char × List Char} (hl : l ∈ ls) :
    Token.name (identifierOf (String.ofList l.1)) ∈ ts := by
  induction ls generalizing ts with
  | nil => exact absurd hl List.not_mem_nil
  | cons m ls ih =>
    obtain ⟨vs, hvs, rfl⟩ := Option.map_eq_some_iff.1 h
    obtain ⟨as, bs, -, hbs, rfl⟩ := joinTokens_eq_some.1 hvs
    rcases List.mem_cons.1 hl with rfl | hl
    · exact List.mem_cons_self
    · exact List.mem_cons_of_mem _ (List.mem_append_right as (ih hbs hl))

/-- Each reference of a source without quoted texts is a name in the text that replaces it. -/
theorem identifier_mem_tokensOf {source v : String} {ts : List Token}
    (h : tokensOf (Template.ofSource source).text = some ts) (hts : ∀ s, Token.text s ∉ ts)
    (hv : v ∈ variablesOf source) : Token.name (identifierOf v) ∈ ts := by
  have hquotes := isQuote_of_tokensOf h hts
  rw [tokensOf_text fun c hc => hquotes c (mem_written hc)] at h
  obtain ⟨as, bs, -, hbs, rfl⟩ := joinTokens_eq_some.1 h
  obtain ⟨l, hl, hname⟩ := exists_mem_links (mem_variablesOf.1 hv)
  have hmem := identifier_mem_tokensOfLinks hbs hl
  rw [hname, String.ofList_toList] at hmem
  exact List.mem_append_right as hmem

end Formulary
