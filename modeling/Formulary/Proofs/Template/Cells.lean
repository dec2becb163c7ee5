import Formulary.Proofs.Template.Gaps
import Mathlib.Data.List.Basic
import Mathlib.Data.Set.List
/-!
# The cells of the text that replaces a source

The text that replaces a source is made of cells: characters of the source, identifiers that stand for
references, and blanks that have been put in (`cellsOf`). Positions are taken back cell by cell: the
start of a cell that is no blank lies in the source where what the cell stands for starts
(`startBefore_cells`), and its stop where that stops (`stopBefore_cells`). For a run of cells with no
blank at its borders this makes `Template.toSource` exact (`cuts_toSource`). Blanks stand next to
identifiers only, so a run without references is the slice itself (`Covers.eq_map_char`).
-/

namespace Formulary

/-! ## Cells -/

/-- A part of the text that replaces a source. -/
inductive Cell where
  /-- A character of the source. -/
  | char (c : Char)
  /-- A blank that keeps an identifier apart. -/
  | blank
  /-- The identifier of a reference. -/
  | reference (name : List Char)
deriving DecidableEq

namespace Cell

/-- What stands in the text. -/
def written : Cell → List Char
  | char c => [c]
  | blank => [' ']
  | reference name => variablePrefix ++ name

/-- What it stands for in the source. -/
def source : Cell → List Char
  | char c => [c]
  | blank => []
  | reference name => (Piece.reference name).source

lemma written_ne_nil (cell : Cell) : cell.written ≠ [] := by
  cases cell <;> simp [written, variablePrefix]

end Cell

/-- The text of cells. -/
def textOf (cells : List Cell) : List Char :=
  cells.flatMap Cell.written

/-- What cells stand for in the source. -/
def sourceOf (cells : List Cell) : List Char :=
  cells.flatMap Cell.source

section
variable {cell : Cell} {cells more : List Cell}

@[simp] lemma textOf_nil : textOf [] = [] := rfl

@[simp] lemma textOf_cons : textOf (cell :: cells) = cell.written ++ textOf cells := rfl

@[simp] lemma textOf_append : textOf (cells ++ more) = textOf cells ++ textOf more :=
  List.flatMap_append

@[simp] lemma sourceOf_nil : sourceOf [] = [] := rfl

@[simp] lemma sourceOf_cons : sourceOf (cell :: cells) = cell.source ++ sourceOf cells := rfl

@[simp] lemma sourceOf_append : sourceOf (cells ++ more) = sourceOf cells ++ sourceOf more :=
  List.flatMap_append

lemma textOf_map_char (cs : List Char) : textOf (cs.map .char) = cs := by
  induction cs with
  | nil => rfl
  | cons c cs ih => rw [List.map_cons, textOf_cons, ih, Cell.written, List.singleton_append]

lemma sourceOf_map_char (cs : List Char) : sourceOf (cs.map .char) = cs := by
  induction cs with
  | nil => rfl
  | cons c cs ih => rw [List.map_cons, sourceOf_cons, ih, Cell.source, List.singleton_append]

lemma textOf_ne_nil (h : cells ≠ []) : textOf cells ≠ [] := by
  cases cells with
  | nil => exact absurd rfl h
  | cons cell cells => simp [cell.written_ne_nil]

end

/-! ## The cells of pieces -/

/-- The blank after a character that would run into a name. -/
def separatorCells (c : Option Char) : List Cell :=
  if c.any isNameChar then [.blank] else []

/-- The cells of pieces that follow the character given. -/
def cellsOf (before : Option Char) : List Piece → List Cell
  | [] => []
  | .char c :: ps => .char c :: cellsOf (some c) ps
  | .reference name :: ps =>
    separatorCells before ++ .reference name :: (separatorCells (nextChar? ps) ++
      cellsOf (writtenEnd name ps) ps)

lemma textOf_separatorCells (c : Option Char) : textOf (separatorCells c) = separator c := by
  rw [separatorCells, separator]
  split <;> rfl

lemma sourceOf_separatorCells (c : Option Char) : sourceOf (separatorCells c) = [] := by
  rw [separatorCells]
  split <;> rfl

theorem textOf_cellsOf (before : Option Char) (ps : List Piece) :
    textOf (cellsOf before ps) = written before ps := by
  induction ps generalizing before with
  | nil => rfl
  | cons p ps ih =>
    cases p with
    | char c => rw [cellsOf, textOf_cons, ih, written_char, Cell.written, List.singleton_append]
    | reference name =>
      rw [cellsOf, textOf_append, textOf_cons, textOf_append, ih, textOf_separatorCells,
        textOf_separatorCells, written_reference, Cell.written]

theorem sourceOf_cellsOf (before : Option Char) (ps : List Piece) :
    sourceOf (cellsOf before ps) = ps.flatMap Piece.source := by
  induction ps generalizing before with
  | nil => rfl
  | cons p ps ih =>
    cases p with
    | char c => rw [cellsOf, sourceOf_cons, ih, List.flatMap_cons, Cell.source, Piece.source]
    | reference name =>
      rw [cellsOf, sourceOf_append, sourceOf_cons, sourceOf_append, ih, sourceOf_separatorCells,
        sourceOf_separatorCells, List.flatMap_cons, Cell.source, List.nil_append, List.nil_append]

/-! ## Positions -/

section
variable {before c : Option Char} {ps : List Piece} {cell : Cell} {pre post more : List Cell}
  {source written : Nat}

lemma le_of_mem_passagesFrom {rs : List Replacement} :
    ∀ p ∈ passagesFrom source written rs, written ≤ p.written.start := by
  induction rs generalizing source written with
  | nil => exact fun p hp => absurd hp List.not_mem_nil
  | cons r rs ih =>
    intro p hp
    rw [passagesFrom] at hp
    split at hp
    · have hle := ih p hp
      omega
    · rcases List.mem_cons.1 hp with rfl | hp
      · exact Nat.le_add_right ..
      · have hle := ih p hp
        omega

lemma startBefore_of_lt {position mapped : Nat} {passages : List Passage}
    (h : ∀ p ∈ passages, position < p.written.start) :
    Template.startBefore position mapped passages = mapped := by
  cases passages with
  | nil => rfl
  | cons p passages => rw [Template.startBefore, if_pos (h p List.mem_cons_self)]

lemma stopBefore_of_le {position mapped : Nat} {passages : List Passage}
    (h : ∀ p ∈ passages, position ≤ p.written.start) :
    Template.stopBefore position mapped passages = mapped := by
  cases passages with
  | nil => rfl
  | cons p passages => rw [Template.stopBefore, if_pos (h p List.mem_cons_self)]

lemma passagesFrom_char {d : Char} :
    passagesFrom source written (replacements before (.char d :: ps)) =
      passagesFrom (source + d.utf8Size) (written + d.utf8Size) (replacements (some d) ps) := rfl

lemma passagesFrom_reference {name : List Char} :
    passagesFrom source written (replacements before (.reference name :: ps)) =
      ⟨⟨source, source + byteLength (Piece.reference name).source⟩,
        ⟨written + byteLength (separator before), written + byteLength (separator before) +
          byteLength (variablePrefix ++ name ++ separator (nextChar? ps))⟩⟩ ::
        passagesFrom (source + byteLength (Piece.reference name).source)
          (written + byteLength (separator before) +
            byteLength (variablePrefix ++ name ++ separator (nextChar? ps)))
          (replacements (writtenEnd name ps) ps) := rfl

lemma byteLength_textOf_reference {name : List Char} :
    byteLength (textOf (separatorCells before ++ .reference name :: (separatorCells c ++ pre))) =
      byteLength (separator before) + byteLength (variablePrefix ++ name ++ separator c) +
        byteLength (textOf pre) := by
  simp only [textOf_append, textOf_cons, textOf_separatorCells, Cell.written, byteLength_append]
  omega

lemma byteLength_sourceOf_reference {name : List Char} :
    byteLength (sourceOf (separatorCells before ++ .reference name :: (separatorCells c ++ pre))) =
      byteLength (Piece.reference name).source + byteLength (sourceOf pre) := by
  simp only [sourceOf_append, sourceOf_cons, sourceOf_separatorCells, Cell.source,
    byteLength_append, byteLength_nil]
  omega

lemma getLast?_ne_of_cons (h : (cell :: pre).getLast? ≠ some .blank) : pre.getLast? ≠ some .blank := by
  cases pre with
  | nil => simp
  | cons next pre => rwa [List.getLast?_cons_cons] at h

lemma split_at_cell (h : separatorCells c ++ more = pre ++ cell :: post) :
    pre = [] ∧ post = more ∧ cell = .blank ∧ c.any isNameChar = true ∨
      ∃ pre', pre = separatorCells c ++ pre' ∧ more = pre' ++ cell :: post := by
  rw [separatorCells] at h ⊢
  split at h
  · rename_i hc
    cases pre with
    | nil => exact .inl ⟨rfl, (List.cons.inj h).2.symm, (List.cons.inj h).1.symm, hc⟩
    | cons first pre =>
      obtain ⟨rfl, hmore⟩ := List.cons.inj h
      exact .inr ⟨pre, by simp [hc], hmore⟩
  · rename_i hc
    exact .inr ⟨pre, by simp [hc], h⟩

lemma split_at_start (h : separatorCells c ++ more = pre ++ post)
    (hpost : post.head? ≠ some .blank) : ∃ pre', pre = separatorCells c ++ pre' ∧ more = pre' ++ post := by
  rw [separatorCells] at h ⊢
  split at h
  · rename_i hc
    cases pre with
    | nil =>
      rw [List.nil_append] at h
      rw [← h] at hpost
      exact absurd rfl hpost
    | cons cell pre =>
      obtain ⟨rfl, hmore⟩ := List.cons.inj h
      exact ⟨pre, by simp [hc], hmore⟩
  · rename_i hc
    exact ⟨pre, by simp [hc], h⟩

lemma split_at_stop (h : separatorCells c ++ more = pre ++ post)
    (hpre : pre.getLast? ≠ some .blank) :
    pre = [] ∨ ∃ pre', pre = separatorCells c ++ pre' ∧ more = pre' ++ post ∧ pre' ≠ [] ∧
      pre'.getLast? ≠ some .blank := by
  rw [separatorCells] at h ⊢
  cases pre with
  | nil => exact .inl rfl
  | cons cell pre =>
    right
    split at h
    · rename_i hc
      obtain ⟨rfl, hmore⟩ := List.cons.inj h
      have hne : pre ≠ [] := by
        rintro rfl
        exact hpre rfl
      exact ⟨pre, by simp [hc], hmore, hne, getLast?_ne_of_cons hpre⟩
    · rename_i hc
      exact ⟨cell :: pre, by simp [hc], h, by simp, hpre⟩

/-- **A start that is not in front of a blank lies in the source where its cell does.** -/
theorem startBefore_cells (h : cellsOf before ps = pre ++ post) (hpost : post.head? ≠ some .blank) :
    Template.startBefore (written + byteLength (textOf pre)) (source + byteLength (textOf pre))
        (passagesFrom source written (replacements before ps)) =
      source + byteLength (sourceOf pre) := by
  induction ps generalizing before pre source written with
  | nil =>
    obtain rfl : pre = [] := (List.append_eq_nil_iff.1 h.symm).1
    rfl
  | cons p ps ih =>
    cases p with
    | char d =>
      rw [passagesFrom_char]
      cases pre with
      | nil =>
        refine startBefore_of_lt fun p hp => ?_
        have hle := le_of_mem_passagesFrom p hp
        have hd := d.utf8Size_pos
        simp only [textOf_nil, byteLength_nil]
        omega
      | cons cell pre =>
        obtain ⟨rfl, hrest⟩ := List.cons.inj h
        have hpre := @ih _ _ (source + d.utf8Size) (written + d.utf8Size) hrest
        simpa [Cell.written, Cell.source, Nat.add_assoc] using hpre
    | reference name =>
      rw [passagesFrom_reference, Template.startBefore]
      dsimp only
      have hpos : 0 < byteLength (variablePrefix ++ name ++ separator (nextChar? ps)) :=
        byteLength_pos (by simp [variablePrefix])
      obtain ⟨pre, rfl, hrest⟩ := split_at_start h hpost
      cases pre with
      | nil =>
        -- at the identifier itself
        rw [List.append_nil, textOf_separatorCells, sourceOf_separatorCells, if_neg (by omega),
          if_pos (by omega)]
        rfl
      | cons cell pre =>
        -- after the identifier and the blank that belongs to it
        obtain ⟨rfl, hafter⟩ := List.cons.inj hrest
        obtain ⟨pre, rfl, hps⟩ := split_at_start hafter hpost
        have hpre := @ih _ _ (source + byteLength (Piece.reference name).source)
          (written + byteLength (separator before) +
            byteLength (variablePrefix ++ name ++ separator (nextChar? ps))) hps
        rw [byteLength_textOf_reference, byteLength_sourceOf_reference, if_neg (by omega),
          if_neg (by omega), ← Nat.add_assoc source, ← hpre]
        congr 1 <;> omega

/-- **A stop that is not behind a blank lies in the source where its cell stops.** -/
theorem stopBefore_cells (h : cellsOf before ps = pre ++ post) (hpre : pre.getLast? ≠ some .blank) :
    Template.stopBefore (written + byteLength (textOf pre)) (source + byteLength (textOf pre))
        (passagesFrom source written (replacements before ps)) =
      source + byteLength (sourceOf pre) := by
  induction ps generalizing before pre source written with
  | nil =>
    obtain rfl : pre = [] := (List.append_eq_nil_iff.1 h.symm).1
    rfl
  | cons p ps ih =>
    have hnil : pre = [] → Template.stopBefore (written + byteLength (textOf pre))
        (source + byteLength (textOf pre))
        (passagesFrom source written (replacements before (p :: ps))) =
          source + byteLength (sourceOf pre) := by
      rintro rfl
      exact stopBefore_of_le fun p hp => le_of_mem_passagesFrom p hp
    cases p with
    | char d =>
      cases pre with
      | nil => exact hnil rfl
      | cons cell pre =>
        obtain ⟨rfl, hrest⟩ := List.cons.inj h
        have hpre := @ih _ _ (source + d.utf8Size) (written + d.utf8Size) hrest
          (getLast?_ne_of_cons hpre)
        rw [passagesFrom_char]
        simpa [Cell.written, Cell.source, Nat.add_assoc] using hpre
    | reference name =>
      rcases split_at_stop h hpre with rfl | ⟨pre, rfl, hrest, hne, hpre⟩
      · exact hnil rfl
      rw [passagesFrom_reference, Template.stopBefore]
      dsimp only
      have hidentifier : 0 < byteLength (variablePrefix ++ name) :=
        byteLength_pos (by simp [variablePrefix])
      obtain ⟨cell, pre, rfl⟩ := List.exists_cons_of_ne_nil hne
      obtain ⟨rfl, hafter⟩ := List.cons.inj hrest
      rcases split_at_stop hafter (getLast?_ne_of_cons hpre) with rfl | ⟨pre, rfl, hps, hne, hlast⟩
      · -- at the end of the identifier
        simp only [textOf_append, textOf_cons, textOf_nil, textOf_separatorCells, sourceOf_append,
          sourceOf_cons, sourceOf_nil, sourceOf_separatorCells, Cell.written, Cell.source,
          byteLength_append, byteLength_nil] at hidentifier ⊢
        rw [if_neg (by omega), if_pos (by omega)]
        omega
      · -- after the identifier and the blank that belongs to it
        have hpos := byteLength_pos (textOf_ne_nil hne)
        have hpre := @ih _ _ (source + byteLength (Piece.reference name).source)
          (written + byteLength (separator before) +
            byteLength (variablePrefix ++ name ++ separator (nextChar? ps))) hps hlast
        rw [byteLength_textOf_reference, byteLength_sourceOf_reference, if_neg (by omega),
          if_neg (by omega), ← Nat.add_assoc source, ← hpre]
        congr 1 <;> omega

end

/-! ## Spans -/

/-- A span of a text is that of a slice. -/
def Cuts (cs : List Char) (s : Span) (slice : List Char) : Prop :=
  ∃ before after, cs = before ++ (slice ++ after) ∧
    s = ⟨byteLength before, byteLength (before ++ slice)⟩

lemma Cuts.isInfix {cs slice : List Char} {s : Span} (h : Cuts cs s slice) : slice <:+: cs := by
  obtain ⟨before, after, rfl, -⟩ := h
  exact List.infix_append' ..

lemma eq_nil_of_byteLength_append_le {cs more : List Char}
    (h : byteLength (cs ++ more) ≤ byteLength cs) : more = [] := by
  by_contra hne
  have hpos := byteLength_pos hne
  rw [byteLength_append] at h
  omega

/-- Of two runs of characters that a text begins with, the longer one begins with the shorter. -/
lemma exists_append_of_byteLength_le {as bs cs ds : List Char} (h : as ++ bs = cs ++ ds)
    (hle : byteLength as ≤ byteLength cs) : ∃ more, cs = as ++ more ∧ bs = more ++ ds := by
  rcases List.append_eq_append_iff.1 h with ⟨more, hcs, hbs⟩ | ⟨more, rfl, rfl⟩
  · exact ⟨more, hcs, hbs⟩
  · obtain rfl := eq_nil_of_byteLength_append_le hle
    exact ⟨[], by simp, by simp⟩

/-- Characters of one length that a text begins with are the same. -/
lemma eq_of_byteLength_eq {as bs cs ds : List Char} (h : as ++ bs = cs ++ ds)
    (hlength : byteLength as = byteLength cs) : as = cs ∧ bs = ds := by
  obtain ⟨more, rfl, rfl⟩ := exists_append_of_byteLength_le h hlength.le
  obtain rfl := eq_nil_of_byteLength_append_le hlength.ge
  exact ⟨(List.append_nil as).symm, rfl⟩

/-- A span is that of one slice only. -/
lemma Cuts.unique {cs slice slice' : List Char} {s : Span} (h : Cuts cs s slice)
    (h' : Cuts cs s slice') : slice = slice' := by
  obtain ⟨before, after, hcs, rfl⟩ := h
  obtain ⟨before', after', hcs', hspan⟩ := h'
  obtain ⟨hstart, hstop⟩ := Span.mk.inj hspan
  obtain ⟨rfl, hrest⟩ := eq_of_byteLength_eq (hcs.symm.trans hcs') hstart
  rw [byteLength_append, byteLength_append] at hstop
  exact (eq_of_byteLength_eq hrest (by omega)).1

lemma utf8ByteSize_ofList (cs : List Char) : (String.ofList cs).utf8ByteSize = byteLength cs := by
  induction cs with
  | nil => rfl
  | cons c cs ih =>
    have hcons : String.ofList (c :: cs) = String.singleton c ++ String.ofList cs :=
      String.toList_injective (by simp)
    rw [hcons, String.utf8ByteSize_append, String.utf8ByteSize_singleton, ih, byteLength_cons]

/-- Counting the bytes of characters leads to a border between two of them. -/
lemma isValid_byteLength {source : String} {before after : List Char}
    (h : source.toList = before ++ after) : String.Pos.Raw.IsValid source ⟨byteLength before⟩ := by
  refine String.Pos.Raw.isValid_iff_exists_append.2 ⟨String.ofList before, String.ofList after, ?_, ?_⟩
  · exact String.toList_injective (by simp [h])
  · rw [← utf8ByteSize_ofList]
    rfl

/-- A span of the text of cells is that of a run of them, and no blank that has been put in begins
where it starts or ends where it stops. -/
def Covers (cells : List Cell) (s : Span) (run : List Cell) : Prop :=
  ∃ pre post, cells = pre ++ (run ++ post) ∧ (run ++ post).head? ≠ some .blank ∧
    (pre ++ run).getLast? ≠ some .blank ∧
    s = ⟨byteLength (textOf pre), byteLength (textOf (pre ++ run))⟩

/-- The cells of the text that replaces a source. -/
def sourceCells (source : String) : List Cell :=
  cellsOf none (pieces source.toList)

lemma textOf_sourceCells (source : String) :
    textOf (sourceCells source) = (Template.ofSource source).text :=
  textOf_cellsOf none (pieces source.toList)

lemma sourceOf_sourceCells (source : String) : sourceOf (sourceCells source) = source.toList := by
  rw [sourceCells, sourceOf_cellsOf, source_pieces]

/-- **What a run of cells covers in the text is taken back to what the cells stand for in the source.** -/
theorem cuts_toSource {source : String} {s : Span} {run : List Cell}
    (h : Covers (sourceCells source) s run) :
    Cuts source.toList ((Template.ofSource source).toSource s) (sourceOf run) := by
  obtain ⟨pre, post, hcells, hstart, hstop, rfl⟩ := h
  refine ⟨sourceOf pre, sourceOf post, ?_, ?_⟩
  · rw [← sourceOf_sourceCells, hcells, sourceOf_append, sourceOf_append]
  · have hcells' : sourceCells source = (pre ++ run) ++ post := by rw [List.append_assoc, hcells]
    have hstart' := @startBefore_cells none _ _ _ 0 0 hcells hstart
    have hstop' := @stopBefore_cells none _ _ _ 0 0 hcells' hstop
    simp only [Nat.zero_add] at hstart' hstop'
    rw [← sourceOf_append, ← hstart', ← hstop']
    rfl

/-! ## What stands next to blanks and identifiers -/

/-- Cells are kept apart where they must be: no character of a name stands next to an identifier, and a
blank that has been put in stands before one. -/
def Fenced : List Cell → Prop
  | [] => True
  | .char c :: cells =>
    (isNameChar c = true → ∀ name, cells.head? ≠ some (.reference name)) ∧ Fenced cells
  | .blank :: cells => (∃ c, (textOf cells).head? = some c ∧ isNameChar c = true) ∧ Fenced cells
  | .reference name :: cells =>
    isNameText name = true ∧ Stops isNameChar (textOf cells) ∧ Fenced cells

lemma Fenced.tail {cell : Cell} {cells : List Cell} (h : Fenced (cell :: cells)) : Fenced cells := by
  cases cell with
  | char c => exact h.2
  | blank => exact h.2
  | reference name => exact h.2.2

lemma Fenced.of_append {pre post : List Cell} (h : Fenced (pre ++ post)) : Fenced post := by
  induction pre with
  | nil => exact h
  | cons cell pre ih => exact ih h.tail

lemma Fenced.isNameText {cells : List Cell} {name : List Char} (h : Fenced cells)
    (hname : .reference name ∈ cells) : isNameText name = true := by
  obtain ⟨pre, post, rfl⟩ := List.append_of_mem hname
  exact h.of_append.1

/-- Before what does not continue a name no blank has been put in. -/
lemma Fenced.getLast?_ne_blank {run rest : List Cell} (h : Fenced (run ++ rest))
    (hrest : Stops isNameChar (textOf rest)) : run.getLast? ≠ some .blank := by
  intro hlast
  obtain ⟨pre, rfl⟩ := List.getLast?_eq_some_iff.1 hlast
  rw [List.append_assoc] at h
  obtain ⟨⟨c, hc, hname⟩, -⟩ := h.of_append
  rw [hrest c hc] at hname
  exact absurd hname (by simp)

theorem fenced_cellsOf {before : Option Char} {ps : List Piece}
    (h : ∀ name, Piece.reference name ∈ ps → isNameText name = true) :
    Fenced (cellsOf before ps) := by
  induction ps generalizing before with
  | nil => trivial
  | cons p ps ih =>
    have hps := fun before => @ih before fun name hname =>
      h name (List.mem_cons_of_mem p hname)
    cases p with
    | char c =>
      refine ⟨fun hc name hhead => ?_, hps _⟩
      -- a reference after a character of a name has a blank before it
      cases ps with
      | nil => exact absurd hhead (by simp [cellsOf])
      | cons p ps =>
        cases p with
        | char d => exact absurd hhead (by simp [cellsOf])
        | reference n => exact absurd hhead (by simp [cellsOf, separatorCells, hc])
    | reference name =>
      have hname := h name List.mem_cons_self
      have hstops : Stops isNameChar
          (textOf (separatorCells (nextChar? ps) ++ cellsOf (writtenEnd name ps) ps)) := by
        rw [textOf_append, textOf_separatorCells, textOf_cellsOf]
        exact stops_after_reference hname
      have hafter : Fenced (separatorCells (nextChar? ps) ++ cellsOf (writtenEnd name ps) ps) := by
        rw [separatorCells]
        split
        · rename_i hnext
          refine ⟨?_, hps _⟩
          cases ps with
          | nil => exact absurd hnext (by simp [nextChar?])
          | cons p ps =>
            cases p with
            | char c => exact ⟨c, rfl, hnext⟩
            | reference n => exact absurd hnext (by simp [nextChar?, Piece.source, isNameChar])
        · exact hps _
      rw [cellsOf, separatorCells]
      split
      · exact ⟨⟨'_', rfl, rfl⟩, hname, hstops, hafter⟩
      · exact ⟨hname, hstops, hafter⟩

lemma fenced_sourceCells (source : String) : Fenced (sourceCells source) :=
  fenced_cellsOf fun _ hname => isNameText_of_mem_pieces hname

/-! ## Runs without references -/

/-- A blank that has been put in stands next to an identifier. -/
lemma reference_next_to_blank {before : Option Char} {ps : List Piece} {pre post : List Cell}
    (h : cellsOf before ps = pre ++ .blank :: post) :
    ∃ name, pre.getLast? = some (.reference name) ∨ post.head? = some (.reference name) := by
  induction ps generalizing before pre with
  | nil => exact absurd h (by simp [cellsOf])
  | cons p ps ih =>
    cases p with
    | char c =>
      cases pre with
      | nil => exact absurd (List.cons.inj h).1 (by simp)
      | cons cell pre =>
        obtain ⟨name, hpre | hpost⟩ := ih (List.cons.inj h).2
        · exact ⟨name, .inl (by rw [List.getLast?_cons, hpre, Option.getD_some])⟩
        · exact ⟨name, .inr hpost⟩
    | reference n =>
      rcases split_at_cell h with ⟨-, rfl, -⟩ | ⟨pre, rfl, hrest⟩
      · exact ⟨n, .inr rfl⟩
      · cases pre with
        | nil => exact absurd (List.cons.inj hrest).1 (by simp)
        | cons cell pre =>
          obtain ⟨rfl, hbehind⟩ := List.cons.inj hrest
          rcases split_at_cell hbehind with ⟨rfl, -⟩ | ⟨pre, rfl, hps⟩
          · exact ⟨n, .inl (by simp)⟩
          · obtain ⟨name, hpre | hpost⟩ := ih hps
            · exact ⟨name, .inl (by simp [List.getLast?_append, List.getLast?_cons, hpre])⟩
            · exact ⟨name, .inr hpost⟩

/-- No reference begins at a character that has been kept. -/
lemma scanReference_eq_none_of_cells {before : Option Char} {cs : List Char} {pre post : List Cell}
    {c : Char} (h : cellsOf before (pieces cs) = pre ++ .char c :: post) :
    scanReference (c :: sourceOf post) = none := by
  fun_induction pieces cs generalizing before pre with
  | case1 => exact absurd h (by simp [cellsOf])
  | case2 d cs name rest hscan ih =>
    obtain ⟨pre, rfl, hrest⟩ := split_at_start h (by simp)
    cases pre with
    | nil => exact absurd (List.cons.inj hrest).1 (by simp)
    | cons cell pre =>
      obtain ⟨pre, rfl, hafter⟩ := split_at_start (List.cons.inj hrest).2 (by simp)
      exact ih hafter
  | case3 d cs hscan ih =>
    cases pre with
    | nil =>
      obtain ⟨hchar, rfl⟩ := List.cons.inj h
      obtain rfl := Cell.char.inj hchar
      rwa [sourceOf_cellsOf, source_pieces]
    | cons cell pre => exact ih (List.cons.inj h).2

section
variable {source : String} {s : Span} {run pre post : List Cell}

/-- No blank has been put into a run without references. -/
lemma Covers.blank_not_mem (h : Covers (sourceCells source) s run)
    (hrun : ∀ name, .reference name ∉ run) : .blank ∉ run := by
  obtain ⟨pre, post, hcells, hstart, hstop, -⟩ := h
  intro hmem
  obtain ⟨first, last, rfl⟩ := List.append_of_mem hmem
  -- the blank stands at no border, so what stands next to it belongs to the run
  have hfirst : first ≠ [] := by
    rintro rfl
    exact hstart rfl
  have hlast : last ≠ [] := by
    rintro rfl
    exact hstop (by simp)
  have hsplit : cellsOf none (pieces source.toList) = (pre ++ first) ++ .blank :: (last ++ post) := by
    rw [← sourceCells, hcells]
    simp
  obtain ⟨name, hname | hname⟩ := reference_next_to_blank hsplit
  · rw [List.getLast?_append_of_ne_nil _ hfirst] at hname
    exact hrun name (List.mem_append_left _ (List.mem_of_getLast? hname))
  · rw [List.head?_append_of_ne_nil _ hlast] at hname
    exact hrun name (List.mem_append_right _ (List.mem_cons_of_mem _ (List.mem_of_head? hname)))

/-- No reference is written in characters that have been kept. -/
lemma not_infix_of_cells {cs name : List Char}
    (h : sourceCells source = pre ++ (cs.map .char ++ post)) (hname : isNameText name = true) :
    ¬ (Piece.reference name).source <:+: cs := by
  rintro ⟨first, last, rfl⟩
  have hsplit : cellsOf none (pieces source.toList) = (pre ++ first.map .char) ++
      .char '{' :: (('{' :: name ++ ['}', '}'] ++ last).map .char ++ post) := by
    rw [← sourceCells, h]
    simp [Piece.source]
  have hnone := scanReference_eq_none_of_cells hsplit
  have hsome := scanReference_append hname (last ++ sourceOf post)
  rw [sourceOf_append, sourceOf_map_char, ← List.cons_append] at hnone
  simp only [Piece.source, List.cons_append, List.append_assoc] at hnone hsome
  exact absurd (hnone.symm.trans hsome) (by simp)

/-- **A run without references is the slice of the source that it stands for**, character by
character, and no reference is written in the slice. -/
theorem Covers.eq_map_char (h : Covers (sourceCells source) s run)
    (hrun : ∀ name, .reference name ∉ run) :
    ∃ cs, run = cs.map .char ∧
      ∀ name, isNameText name = true → ¬ (Piece.reference name).source <:+: cs := by
  have hchars : run ∈ Set.range (List.map Cell.char) := by
    rw [Set.range_list_map]
    intro cell hcell
    cases cell with
    | char c => exact ⟨c, rfl⟩
    | blank => exact absurd hcell (h.blank_not_mem hrun)
    | reference name => exact absurd hcell (hrun name)
  obtain ⟨cs, rfl⟩ := hchars
  obtain ⟨pre, post, hcells, -⟩ := h
  exact ⟨cs, rfl, fun name hname => not_infix_of_cells hcells hname⟩

end

end Formulary
