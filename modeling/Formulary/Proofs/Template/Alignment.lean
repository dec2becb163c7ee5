import Formulary.Proofs.Template.Places
/-!
# The source beside the text that replaces it

Between references the source and the text that replaces it run side by side, and each passage takes
both further (`Aligned`), so positions keep their order on the way back (`Aligned.startBefore_mono`,
`Aligned.stopBefore_mono`). Whatever in the text is no character of the source lies in a passage or is a
blank before one (`passage_or_putIn`). Main statement: every span of the text leads back to one of the
source, a span in a passage to the whole reference and kept characters to themselves (`traces_ofSource`).
-/

namespace Formulary

/-! ## Passages in order -/

/-- Passages that follow a position of the source and one of the text, up to the ends of both. What
lies between two passages is the same on both sides, but for a blank before a passage. -/
inductive Aligned (sourceEnd textEnd : Nat) : Nat → Nat → List Passage → Prop
  | nil {source written k : Nat} : sourceEnd = source + k → textEnd = written + k →
    Aligned sourceEnd textEnd source written []
  | cons {source written k gap : Nat} {p : Passage} {ps : List Passage} :
    gap ≤ 1 → p.source.start = source + k → p.written.start = written + k + gap →
    p.source.start < p.source.stop → p.written.start < p.written.stop →
    Aligned sourceEnd textEnd p.source.stop p.written.stop ps →
    Aligned sourceEnd textEnd source written (p :: ps)

namespace Aligned

section
variable {sourceEnd textEnd source written k position mapped : Nat} {p : Passage} {ps : List Passage}

lemma back (h : Aligned sourceEnd textEnd (source + k) (written + k) ps) :
    Aligned sourceEnd textEnd source written ps := by
  cases h with
  | nil hsource htext => exact .nil (hsource.trans (Nat.add_assoc ..)) (htext.trans (Nat.add_assoc ..))
  | cons hgap hsource hwritten hs hw hps =>
    exact .cons hgap (hsource.trans (Nat.add_assoc ..)) (by omega) hs hw hps

lemma le_start (h : Aligned sourceEnd textEnd source written ps) :
    ∀ p ∈ ps, written ≤ p.written.start := by
  induction h with
  | nil => exact fun p hp => absurd hp List.not_mem_nil
  | cons hgap hsource hwritten hs hw hps ih =>
    intro q hq
    rcases List.mem_cons.1 hq with rfl | hq
    · omega
    · have hle := ih q hq
      omega

/-! ## Positions in a passage -/

/-- A start in a passage is taken to where the passage starts. -/
theorem startBefore_of_mem (h : Aligned sourceEnd textEnd source written ps) (hp : p ∈ ps)
    (hstart : p.written.start ≤ position) (hstop : position < p.written.stop) :
    Template.startBefore position mapped ps = p.source.start := by
  induction h generalizing mapped with
  | nil => exact absurd hp List.not_mem_nil
  | cons hgap hsource hwritten hs hw hps ih =>
    rw [Template.startBefore]
    rcases List.mem_cons.1 hp with rfl | hp
    · rw [if_neg (by omega), if_pos hstop]
    · have hle := hps.le_start p hp
      rw [if_neg (by omega), if_neg (by omega)]
      exact ih hp

/-- A stop in a passage is taken to where the passage stops. -/
theorem stopBefore_of_mem (h : Aligned sourceEnd textEnd source written ps) (hp : p ∈ ps)
    (hstart : p.written.start < position) (hstop : position ≤ p.written.stop) :
    Template.stopBefore position mapped ps = p.source.stop := by
  induction h generalizing mapped with
  | nil => exact absurd hp List.not_mem_nil
  | cons hgap hsource hwritten hs hw hps ih =>
    rw [Template.stopBefore]
    rcases List.mem_cons.1 hp with rfl | hp
    · rw [if_neg (by omega), if_pos hstop]
    · have hle := hps.le_start p hp
      rw [if_neg (by omega), if_neg (by omega)]
      exact ih hp

end

/-! ## The order of positions -/

section
variable {sourceEnd textEnd source written position position' mapped mapped' : Nat}
  {ps : List Passage} (h : Aligned sourceEnd textEnd source written ps)
include h

lemma source_le : source ≤ sourceEnd := by
  induction h with
  | nil hsource _ => omega
  | cons hgap hsource hwritten hs hw hps ih => omega

lemma startBefore_written : Template.startBefore written source ps = source := by
  cases h with
  | nil => rfl
  | cons hgap hsource hwritten hs hw hps =>
    rw [Template.startBefore]
    split_ifs <;> omega

section
variable (hle : written ≤ position) (hmapped : mapped + written = position + source)
include hle hmapped

lemma le_startBefore : source ≤ Template.startBefore position mapped ps := by
  induction h generalizing mapped with
  | nil =>
    rw [Template.startBefore]
    omega
  | cons hgap hsource hwritten hs hw hps ih =>
    rw [Template.startBefore]
    split_ifs
    · omega
    · omega
    · exact (show _ ≤ _ by omega).trans (ih (by omega) (by omega))

/-- No position is taken further back as a stop than as a start. -/
lemma startBefore_le_stopBefore :
    Template.startBefore position mapped ps ≤ Template.stopBefore position mapped ps := by
  induction h generalizing mapped with
  | nil => exact Nat.le_refl mapped
  | cons hgap hsource hwritten hs hw hps ih =>
    rw [Template.startBefore, Template.stopBefore]
    split_ifs
    all_goals try omega
    · -- at the end of a passage a start has left it and a stop has not
      rename_i hinside _ hend
      obtain rfl := Nat.le_antisymm hend (Nat.not_lt.1 hinside)
      rw [Nat.sub_self, Nat.zero_add, hps.startBefore_written]
    · exact ih (by omega) (by omega)

lemma le_stopBefore : source ≤ Template.stopBefore position mapped ps :=
  (h.le_startBefore hle hmapped).trans (h.startBefore_le_stopBefore hle hmapped)

lemma stopBefore_le (hend : position ≤ textEnd) :
    Template.stopBefore position mapped ps ≤ sourceEnd := by
  induction h generalizing mapped with
  | nil hsource htext =>
    rw [Template.stopBefore]
    omega
  | cons hgap hsource hwritten hs hw hps ih =>
    have hstop := hps.source_le
    rw [Template.stopBefore]
    split_ifs
    · omega
    · exact hstop
    · exact ih (by omega) (by omega)

variable (hle' : position ≤ position') (hmapped' : mapped' + written = position' + source)
include hle' hmapped'

lemma startBefore_mono :
    Template.startBefore position mapped ps ≤ Template.startBefore position' mapped' ps := by
  induction h generalizing mapped mapped' with
  | nil =>
    rw [Template.startBefore, Template.startBefore]
    omega
  | @cons source written k gap p ps hgap hsource hwritten hs hw hps ih =>
    have hafter : p.written.stop ≤ position' → p.source.stop ≤
        Template.startBefore position' (position' - p.written.stop + p.source.stop) ps :=
      fun hstop => hps.le_startBefore hstop (by omega)
    rw [Template.startBefore, Template.startBefore]
    split_ifs
    all_goals try omega
    exact ih (by omega) (by omega) (by omega)

lemma stopBefore_mono :
    Template.stopBefore position mapped ps ≤ Template.stopBefore position' mapped' ps := by
  induction h generalizing mapped mapped' with
  | nil =>
    rw [Template.stopBefore, Template.stopBefore]
    omega
  | @cons source written k gap p ps hgap hsource hwritten hs hw hps ih =>
    have hafter : p.written.stop ≤ position' → p.source.stop ≤
        Template.stopBefore position' (position' - p.written.stop + p.source.stop) ps :=
      fun hstop => hps.le_stopBefore hstop (by omega)
    rw [Template.stopBefore, Template.stopBefore]
    split_ifs
    all_goals try omega
    exact ih (by omega) (by omega) (by omega)

end

end

end Aligned

/-! ## The passages of a source -/

lemma byteLength_separator_le (c : Option Char) : byteLength (separator c) ≤ 1 := by
  rw [separator]
  split <;> decide

theorem aligned_passagesFrom (before : Option Char) (ps : List Piece) (start position : Nat) :
    Aligned (start + byteLength (ps.flatMap Piece.source)) (position + byteLength (written before ps))
      start position (passagesFrom start position (replacements before ps)) := by
  induction ps generalizing before start position with
  | nil => exact .nil rfl rfl
  | cons p ps ih =>
    cases p with
    | char d =>
      have hrest := ih (some d) (start + d.utf8Size) (position + d.utf8Size)
      rw [passagesFrom_char, written_char]
      refine Aligned.back (k := d.utf8Size) ?_
      simpa [Piece.source, Nat.add_assoc] using hrest
    | reference name =>
      have hsource : 0 < byteLength (Piece.reference name).source :=
        byteLength_pos (by simp [Piece.source])
      have hwritten : 0 < byteLength (variablePrefix ++ name ++ separator (nextChar? ps)) :=
        byteLength_pos (by simp [variablePrefix])
      have hrest := ih (writtenEnd name ps) (start + byteLength (Piece.reference name).source)
        (position + byteLength (separator before) +
          byteLength (variablePrefix ++ name ++ separator (nextChar? ps)))
      rw [passagesFrom_reference, written_reference]
      refine .cons (k := 0) (byteLength_separator_le before) rfl rfl ?_ ?_ ?_
      · exact Nat.lt_add_of_pos_right hsource
      · exact Nat.lt_add_of_pos_right hwritten
      · simpa only [List.flatMap_cons, byteLength_append, Nat.add_assoc] using hrest

/-- A passage leads from a reference to the name in a source to its identifier in a text, with the blank
that may follow it. -/
def Leads (source text : List Char) (p : Passage) (name : String) : Prop :=
  Cuts source p.source (Piece.reference name.toList).source ∧
    ∃ c, Cuts text p.written (variablePrefix ++ name.toList ++ separator c)

lemma leads_passagesFrom (before : Option Char) (ps : List Piece) (source text : List Char) :
    List.Forall₂ (Leads (source ++ ps.flatMap Piece.source) (text ++ written before ps))
      (passagesFrom (byteLength source) (byteLength text) (replacements before ps))
      (ps.filterMap Piece.name?) := by
  induction ps generalizing before source text with
  | nil => exact .nil
  | cons p ps ih =>
    cases p with
    | char d =>
      have hrest := ih (some d) (source ++ [d]) (text ++ [d])
      rw [passagesFrom_char, written_char, List.filterMap_cons_none rfl]
      simpa [Piece.source, byteLength_append] using hrest
    | reference name =>
      have hrest := ih (writtenEnd name ps) (source ++ (Piece.reference name).source)
        (text ++ (separator before ++ (variablePrefix ++ name ++ separator (nextChar? ps))))
      have hnames : (Piece.reference name :: ps).filterMap Piece.name? =
          String.ofList name :: ps.filterMap Piece.name? := rfl
      rw [passagesFrom_reference, written_reference, hnames]
      refine .cons ⟨?_, nextChar? ps, ?_⟩ ?_
      · rw [String.toList_ofList]
        exact ⟨source, ps.flatMap Piece.source, rfl, congrArg (Span.mk _) (byteLength_append ..).symm⟩
      · rw [String.toList_ofList]
        refine ⟨text ++ separator before, written (writtenEnd name ps) ps, ?_, ?_⟩
        · simp
        · simp [byteLength_append, Nat.add_assoc]
      · simpa [byteLength_append, Nat.add_assoc] using hrest

/-! ## Characters that have been kept -/

section
variable {cells : List Cell} {before rest slice after : List Char}

/-- A border that cuts no identifier lies between two cells. -/
lemma exists_cells_of_border (h : textOf cells = before ++ rest)
    (hborder : ∀ pre cell post, cells = pre ++ cell :: post → (∀ c, cell ≠ .char c) →
      byteLength before ≤ byteLength (textOf pre) ∨
        byteLength (textOf (pre ++ [cell])) ≤ byteLength before) :
    ∃ pre post, cells = pre ++ post ∧ textOf pre = before ∧ textOf post = rest := by
  induction cells generalizing before with
  | nil =>
    obtain ⟨rfl, rfl⟩ := List.append_eq_nil_iff.1 h.symm
    exact ⟨[], [], rfl, rfl, rfl⟩
  | cons cell cells ih =>
    cases before with
    | nil => exact ⟨[], cell :: cells, rfl, rfl, h⟩
    | cons d before =>
      have hle : byteLength cell.written ≤ byteLength (d :: before) := by
        by_cases hchar : ∃ c, cell = .char c
        · obtain ⟨c, rfl⟩ := hchar
          obtain ⟨rfl, -⟩ : c = d ∧ _ := by simpa [Cell.written] using h
          exact Nat.le_add_right ..
        · have hpos := byteLength_pos (List.cons_ne_nil d before)
          rcases hborder [] cell cells rfl (not_exists.1 hchar) with hstart | hstop
          · exact absurd hstart (by simpa using hpos.ne')
          · simpa using hstop
      obtain ⟨more, hmore, hrest⟩ := exists_append_of_byteLength_le h hle
      rw [hmore] at hborder ⊢
      obtain ⟨pre, post, rfl, rfl, hpost⟩ := ih hrest fun pre other post hsplit hother => by
        have hother := hborder (cell :: pre) other post (by rw [hsplit, List.cons_append]) hother
        simpa [byteLength_append] using hother
      exact ⟨cell :: pre, post, rfl, rfl, hpost⟩

/-- Characters that share nothing with what has been put in are cells of their own. -/
lemma exists_cells_of_slice (h : textOf cells = slice ++ after)
    (hslice : ∀ pre cell post, cells = pre ++ cell :: post → (∀ c, cell ≠ .char c) →
      byteLength slice ≤ byteLength (textOf pre)) :
    ∃ post, cells = slice.map .char ++ post := by
  induction slice generalizing cells with
  | nil => exact ⟨cells, rfl⟩
  | cons c slice ih =>
    have hpos := byteLength_pos (List.cons_ne_nil c slice)
    cases cells with
    | nil => exact absurd h (by simp)
    | cons cell cells =>
      obtain ⟨d, rfl⟩ : ∃ d, cell = .char d := by
        by_contra hnone
        have hle := hslice [] cell cells rfl (not_exists.1 hnone)
        rw [textOf_nil, byteLength_nil] at hle
        omega
      obtain ⟨rfl, hrest⟩ : d = c ∧ textOf cells = slice ++ after := by
        simpa [Cell.written] using h
      obtain ⟨post, rfl⟩ := ih hrest fun pre cell post hsplit hcell => by
        have hle := hslice (.char d :: pre) cell post (by rw [hsplit, List.cons_append]) hcell
        simpa [Cell.written] using hle
      exact ⟨post, rfl⟩

/-- Characters that nothing put in reaches into are cells of their own, from border to border. -/
lemma exists_cells_of_kept (h : textOf cells = before ++ (slice ++ after)) (hne : slice ≠ [])
    (hapart : ∀ pre cell post, cells = pre ++ cell :: post → (∀ c, cell ≠ .char c) →
      byteLength (before ++ slice) ≤ byteLength (textOf pre) ∨
        byteLength (textOf (pre ++ [cell])) ≤ byteLength before) :
    ∃ pre post, cells = pre ++ (slice.map .char ++ post) ∧ textOf pre = before := by
  have hpos := byteLength_pos hne
  obtain ⟨pre, rest, hcells, rfl, hrest⟩ :=
    exists_cells_of_border h fun pre cell post hsplit hcell => by
      have hcell := hapart pre cell post hsplit hcell
      rw [byteLength_append] at hcell
      omega
  obtain ⟨post, rfl⟩ := exists_cells_of_slice hrest fun more cell post hsplit hcell => by
    have hwritten := byteLength_pos cell.written_ne_nil
    have hcell := hapart (pre ++ more) cell post (by rw [hcells, hsplit, List.append_assoc]) hcell
    simp only [textOf_append, textOf_cons, textOf_nil, List.append_nil, byteLength_append] at hcell
    omega
  exact ⟨pre, post, hcells, rfl⟩

end

/-! ## What has been put in -/

/-- A blank has been put in at a position of the text, before the identifier of a reference. -/
def PutIn (rs : List Replacement) (i : Nat) : Prop :=
  ∃ first r last, rs = first ++ r :: last ∧ r.gap ≠ [] ∧
    i = byteLength (first.flatMap Replacement.characters)

lemma PutIn.append {rs : List Replacement} {i : Nat} (h : PutIn rs i) (first : List Replacement) :
    PutIn (first ++ rs) (byteLength (first.flatMap Replacement.characters) + i) := by
  obtain ⟨more, r, last, rfl, hgap, rfl⟩ := h
  exact ⟨first ++ more, r, last, by simp, hgap, by simp [byteLength_append]⟩

/-- A cell that is no character of the source lies in a passage, or it is a blank before one. -/
lemma passage_or_putIn {before : Option Char} {ps : List Piece} {pre post : List Cell} {cell : Cell}
    (h : cellsOf before ps = pre ++ cell :: post) (hcell : ∀ c, cell ≠ .char c)
    (start position : Nat) :
    (∃ p ∈ passagesFrom start position (replacements before ps),
      p.written.start ≤ position + byteLength (textOf pre) ∧
        position + byteLength (textOf (pre ++ [cell])) ≤ p.written.stop) ∨
      cell = .blank ∧ PutIn (replacements before ps) (byteLength (textOf pre)) := by
  induction ps generalizing before pre start position with
  | nil => exact absurd h (by simp [cellsOf])
  | cons p ps ih =>
    cases p with
    | char d =>
      cases pre with
      | nil => exact absurd (List.cons.inj h).1.symm (hcell d)
      | cons first pre =>
        obtain ⟨rfl, hrest⟩ := List.cons.inj h
        rcases ih hrest (start + d.utf8Size) (position + d.utf8Size)
          with ⟨p, hp, hstart, hstop⟩ | ⟨rfl, hput⟩
        · left
          rw [passagesFrom_char]
          refine ⟨p, hp, ?_, ?_⟩
          · simpa [Cell.written, Nat.add_assoc] using hstart
          · simpa [Cell.written, Nat.add_assoc] using hstop
        · right
          exact ⟨rfl, hput.append [.of before ps (.char d)]⟩
    | reference name =>
      rw [passagesFrom_reference]
      rcases split_at_cell h with ⟨rfl, -, rfl, hc⟩ | ⟨pre, rfl, hrest⟩
      · right
        refine ⟨rfl, [], _, _, rfl, ?_, rfl⟩
        simp [Replacement.of, separator, hc]
      cases pre with
      | nil =>
        obtain ⟨rfl, -⟩ := List.cons.inj hrest
        refine .inl ⟨_, List.mem_cons_self, ?_, ?_⟩
        · simp [textOf_separatorCells]
        · simp only [List.append_nil, textOf_append, textOf_cons, textOf_nil, textOf_separatorCells,
            Cell.written, byteLength_append]
          omega
      | cons first pre =>
        obtain ⟨rfl, hbehind⟩ := List.cons.inj hrest
        rcases split_at_cell hbehind with ⟨rfl, -, rfl, hc⟩ | ⟨pre, rfl, hps⟩
        · -- the blank behind the identifier belongs to the passage
          have hblank : separator (nextChar? ps) = [' '] := by rw [separator, if_pos hc]
          refine .inl ⟨_, List.mem_cons_self, ?_, ?_⟩
          · simp only [textOf_append, textOf_separatorCells, byteLength_append]
            omega
          · simp only [hblank, textOf_append, textOf_cons, textOf_nil, textOf_separatorCells,
              Cell.written, byteLength_append, byteLength_nil]
            omega
        · rcases ih hps (start + byteLength (Piece.reference name).source)
            (position + byteLength (separator before) +
              byteLength (variablePrefix ++ name ++ separator (nextChar? ps)))
            with ⟨p, hp, hstart, hstop⟩ | ⟨rfl, hput⟩
          · refine .inl ⟨p, List.mem_cons_of_mem _ hp, ?_, ?_⟩
            · rw [byteLength_textOf_reference]
              omega
            · simp only [List.append_assoc, List.cons_append]
              rw [byteLength_textOf_reference]
              omega
          · refine .inr ⟨rfl, ?_⟩
            have happend := hput.append [.of before ps (.reference name)]
            change PutIn ([.of before ps (.reference name)] ++ replacements (writtenEnd name ps) ps) _
            rw [byteLength_textOf_reference]
            simpa [Replacement.of, Replacement.characters, byteLength_append, Nat.add_assoc] using happend

/-! ## Spans of the source -/

/-- How the positions of a text lead back to the source that it replaces. -/
structure Template.Traces (t : Template) (source : String) : Prop where
  /-- Spans of the text are taken to spans of the source. -/
  within : ∀ s : Span, s.start ≤ s.stop → s.stop ≤ byteLength t.text →
    (t.toSource s).start ≤ (t.toSource s).stop ∧ (t.toSource s).stop ≤ source.utf8ByteSize
  start_mono : ∀ s s' : Span, s.start ≤ s'.start → (t.toSource s).start ≤ (t.toSource s').start
  stop_mono : ∀ s s' : Span, s.stop ≤ s'.stop → (t.toSource s).stop ≤ (t.toSource s').stop
  /-- Each passage is that of one reference, in order. -/
  leads : List.Forall₂ (Leads source.toList t.text) t.passages t.references
  /-- A span that lies in a passage is taken to the reference. -/
  widens : ∀ p ∈ t.passages, ∀ s : Span, p.written.start ≤ s.start → s.start < p.written.stop →
    p.written.start < s.stop → s.stop ≤ p.written.stop → t.toSource s = p.source
  /-- Characters that have been kept are taken to themselves. -/
  kept : ∀ s slice, Cuts t.text s slice → slice ≠ [] →
    (∀ p ∈ t.passages, s.stop ≤ p.written.start ∨ p.written.stop ≤ s.start) →
    (∀ i, PutIn (replacements none (pieces source.toList)) i → i < s.start ∨ s.stop ≤ i) →
    Cuts source.toList (t.toSource s) slice

lemma aligned_ofSource (source : String) :
    Aligned source.utf8ByteSize (byteLength (Template.ofSource source).text) 0 0
      (Template.ofSource source).passages := by
  have h := aligned_passagesFrom none (pieces source.toList) 0 0
  rw [source_pieces, Nat.zero_add, Nat.zero_add, ← utf8ByteSize_ofList, String.ofList_toList] at h
  exact h

/-- **The way back from the text that replaces a source** is open to every span and keeps the order of
positions, however close the references stand. -/
theorem traces_ofSource (source : String) : (Template.ofSource source).Traces source := by
  have h := aligned_ofSource source
  constructor
  · intro s hle hstop
    refine ⟨?_, h.stopBefore_le (Nat.zero_le _) rfl hstop⟩
    calc _ ≤ Template.startBefore s.stop s.stop _ := h.startBefore_mono (Nat.zero_le _) rfl hle rfl
      _ ≤ _ := h.startBefore_le_stopBefore (Nat.zero_le _) rfl
  · exact fun s s' hle => h.startBefore_mono (Nat.zero_le _) rfl hle rfl
  · exact fun s s' hle => h.stopBefore_mono (Nat.zero_le _) rfl hle rfl
  · have hleads := leads_passagesFrom none (pieces source.toList) [] []
    rwa [source_pieces] at hleads
  · intro p hp s hstart hstart' hstop hstop'
    rw [Template.toSource, h.startBefore_of_mem hp hstart hstart', h.stopBefore_of_mem hp hstop hstop']
  · rintro s slice ⟨first, last, htext, rfl⟩ hne hpassages hput
    dsimp only at hpassages hput
    -- what has been put in stands before the slice or behind it
    have hapart : ∀ pre cell post, sourceCells source = pre ++ cell :: post →
        (∀ c, cell ≠ .char c) →
          byteLength (first ++ slice) ≤ byteLength (textOf pre) ∨
            byteLength (textOf (pre ++ [cell])) ≤ byteLength first := by
      intro pre cell post hsplit hcell
      rcases passage_or_putIn hsplit hcell 0 0 with ⟨p, hp, hstart, hstop⟩ | ⟨rfl, hblank⟩
      · have hp := hpassages p hp
        omega
      · have hi := hput _ hblank
        have hone : byteLength [' '] = 1 := rfl
        simp only [textOf_append, textOf_cons, textOf_nil, Cell.written, byteLength_append,
          List.append_nil] at hi ⊢
        omega
    rw [← textOf_sourceCells] at htext
    obtain ⟨pre, post, hcells, rfl⟩ := exists_cells_of_kept htext hne hapart
    have hcovers := (solid_map_char hne).covers pre post
    rw [← hcells, textOf_append, textOf_map_char] at hcovers
    have hcuts := cuts_toSource hcovers
    rwa [sourceOf_map_char] at hcuts

/-- From within a reference to the digit behind it. -/
example : (Template.ofSource "a\x7b\x7bx\x7d\x7d2").toSource ⟨3, 9⟩ = ⟨1, 7⟩ := by decide +kernel

end Formulary
