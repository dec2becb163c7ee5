import Formulary.Proofs.Expr.Origins
import Formulary.Proofs.Template.Cells
/-!
# Where tokens stand among cells

Each token of the text that replaces a source takes a run of whole cells, and so does what is rejected
(`lexed_tokensFrom`). A name is written out or stands for one reference; quoted texts can take in
references and blanks, but begin and end with their quotes (`Spells`). Tokens that follow one another
have as their extent the run from the cells of the first to those of the last (`Lies.exists_run`).
-/

namespace Formulary

/-! ## Quoted texts -/

section
variable {q : Char} {taken : List Char}

/-- Characters of names end no quoted text. -/
lemma ne_of_isNameChar {c : Char} (hq : isQuote q = true) (hc : isNameChar c = true) :
    c ≠ q ∧ c ≠ '\\' := by
  constructor
  · rintro rfl
    have hnone := isQuote_eq_false_of (p := isNameChar) rfl rfl hc
    rw [hq] at hnone
    exact absurd hnone (by simp)
  · rintro rfl
    exact absurd hc (by decide)

/-- How a quoted text runs through cells: to a quote of its kind, or else to the end or in front of a
backslash. -/
def RunsThrough (q : Char) (taken : List Char) (cells : List Cell) : Prop :=
  ∃ inner rest,
    (cells = inner ++ .char q :: rest ∧
      quotedRun q taken (textOf cells) = ⟨taken.reverse ++ textOf inner, true, textOf rest⟩) ∨
    (cells = inner ++ rest ∧ (rest = [] ∨ rest.head? = some (.char '\\')) ∧
      quotedRun q taken (textOf cells) = ⟨taken.reverse ++ textOf inner, false, textOf rest⟩)

lemma RunsThrough.append (run : List Cell) {cells : List Cell}
    (h : RunsThrough q ((textOf run).reverse ++ taken) cells)
    (hrun : quotedRun q taken (textOf (run ++ cells)) =
      quotedRun q ((textOf run).reverse ++ taken) (textOf cells)) :
    RunsThrough q taken (run ++ cells) := by
  obtain ⟨inner, rest, ⟨hcells, hclosed⟩ | ⟨hcells, hrest, hopen⟩⟩ := h
  · refine ⟨run ++ inner, rest, .inl ⟨by simp [hcells], ?_⟩⟩
    rw [hrun, hclosed]
    simp
  · refine ⟨run ++ inner, rest, .inr ⟨by simp [hcells], hrest, ?_⟩⟩
    rw [hrun, hopen]
    simp

/-- **A quoted text takes whole cells.** -/
theorem runsThrough (hq : isQuote q = true) : (cells : List Cell) → (taken : List Char) →
    Fenced cells → RunsThrough q taken cells
  | [], taken, _ => ⟨[], [], .inr ⟨rfl, .inl rfl, by simp [quotedRun]⟩⟩
  | .blank :: cells, taken, hf => by
    have hblank : ∀ c ∈ [' '], c ≠ q ∧ c ≠ '\\' := by
      intro c hc
      obtain rfl := List.mem_singleton.1 hc
      refine ⟨?_, by decide⟩
      rintro rfl
      exact absurd hq (by decide)
    exact (runsThrough hq cells _ hf.tail).append [.blank] (quotedRun_append hblank)
  | .reference name :: cells, taken, hf => by
    have hname : ∀ c ∈ variablePrefix ++ name, c ≠ q ∧ c ≠ '\\' := fun c hc =>
      ne_of_isNameChar hq (isNameChar_of_mem_identifier hf.1 c hc)
    exact (runsThrough hq cells _ hf.tail).append [.reference name]
      (by simpa [Cell.written] using quotedRun_append hname)
  | .char c :: cells, taken, hf => by
    by_cases hescape : c = '\\'
    · -- what follows a backslash is taken with it, unless it is a newline
      subst hescape
      cases cells with
      | nil => exact ⟨[], [.char '\\'], .inr ⟨rfl, .inr rfl, by simp [quotedRun, Cell.written]⟩⟩
      | cons cell cells =>
        have hrest := runsThrough hq cells
        cases cell with
        | char d =>
          by_cases hnewline : d = '\n'
          · subst hnewline
            refine ⟨[], _, .inr ⟨rfl, .inr rfl, ?_⟩⟩
            simp [quotedRun, Cell.written]
          · exact (hrest _ hf.tail.tail).append [.char '\\', .char d]
              (quotedRun_escape hnewline (by simp))
        | blank =>
          exact (hrest _ hf.tail.tail).append [.char '\\', .blank]
            (quotedRun_escape (by decide) (by simp))
        | reference name =>
          have hname : ∀ c ∈ ['_', 'v', '_'] ++ name, c ≠ q ∧ c ≠ '\\' := fun c hc =>
            ne_of_isNameChar hq (isNameChar_of_mem_identifier hf.tail.1 c (List.mem_cons_of_mem _ hc))
          have hrun := @quotedRun_escape q taken '_' _ (textOf cells) (by decide) hname
          exact (hrest _ hf.tail.tail).append [.char '\\', .reference name]
            (by simpa [Cell.written, variablePrefix] using hrun)
    · by_cases hclose : c = q
      · subst hclose
        refine ⟨[], cells, .inl ⟨rfl, ?_⟩⟩
        rw [textOf_cons, Cell.written, List.singleton_append, quotedRun, if_pos rfl]
        · simp
        · exact fun h => absurd h hescape
        · exact fun _ _ h => absurd h hescape
      · have hc : ∀ d ∈ [c], d ≠ q ∧ d ≠ '\\' := by
          intro d hd
          obtain rfl := List.mem_singleton.1 hd
          exact ⟨hclose, hescape⟩
        exact (runsThrough hq cells _ hf.tail).append [.char c] (quotedRun_append hc)

end

/-! ## One token -/

/-- No blank that has been put in stands at a border of a run, and the run is not empty. -/
structure Solid (run : List Cell) : Prop where
  ne_nil : run ≠ []
  start : run.head? ≠ some .blank
  stop : run.getLast? ≠ some .blank

/-- A run of cells is one that a token can be read from. -/
def Spells : Token → List Cell → Prop
  | .number _, run => ∃ cs : List Char, run = cs.map .char
  | .text t, run => ∃ q inner, isQuote q = true ∧ run = .char q :: (inner ++ [.char q]) ∧
    t = String.ofList (unescape (textOf inner))
  | .name n, run => run = n.toList.map .char ∨
    ∃ v, run = [.reference v] ∧ n = identifierOf (String.ofList v)
  | .mark m, run => run = m.spelling.toList.map .char

/-- A run of cells is one that can be rejected: a character, or a quoted text without an end. -/
def Rejects (run : List Cell) : Prop :=
  (∃ c, run = [.char c] ∧ isQuote c = false) ∨ ∃ q inner, isQuote q = true ∧ run = .char q :: inner

/-- What is found at the front of the text of cells takes whole cells. -/
inductive Takes (cells : List Cell) : Munch → Prop
  | token {t : Token} {run more : List Cell} : cells = run ++ more → Solid run → Spells t run →
    Takes cells (.token t (textOf run) (textOf more))
  | rejected {run more : List Cell} : cells = run ++ more → Solid run → Rejects run →
    Takes cells (.rejected (textOf run))

lemma solid_map_char {cs : List Char} (h : cs ≠ []) : Solid (cs.map .char) := by
  refine ⟨by simp [h], ?_, ?_⟩
  · cases cs with
    | nil => exact absurd rfl h
    | cons c cs => simp
  · rw [List.getLast?_map, List.getLast?_eq_some_getLast h]
    simp

/-- Characters up to the next cell that is none, which is kept apart from them. -/
lemma exists_apart {c : Char} {cells : List Cell} (hf : Fenced (.char c :: cells)) :
    ∃ cs rest, cells = cs.map .char ++ rest ∧ Apart (c :: cs) (textOf rest) := by
  induction cells generalizing c with
  | nil => exact ⟨[], [], rfl, fun d hd => absurd hd (by simp)⟩
  | cons cell cells ih =>
    cases cell with
    | char d =>
      obtain ⟨cs, rest, hcells, hapart⟩ := ih hf.tail
      refine ⟨d :: cs, rest, by simp [hcells], ?_⟩
      intro e he
      exact (hapart e he).imp id (And.imp id fun hlast x hx => hlast x (by simpa using hx))
    | blank =>
      refine ⟨[], _, rfl, fun d hd => ?_⟩
      exact .inl (by simpa [Cell.written] using hd.symm)
    | reference name =>
      refine ⟨[], _, rfl, fun d hd => .inr ⟨?_, fun e he => ?_⟩⟩
      · simpa [Cell.written, variablePrefix] using hd.symm
      · obtain rfl : c = e := by simpa using he
        rw [Bool.eq_false_iff]
        exact fun hname => hf.1 hname name rfl

lemma spells_wordToken (word : List Char) : Spells (wordToken word) (word.map .char) := by
  unfold wordToken
  split_ifs with hand hor hnot
  · subst hand
    rfl
  · subst hor
    rfl
  · subst hnot
    rfl
  · refine .inl ?_
    rw [String.toList_ofList]

lemma spells_of_munch {c : Char} {cs slice more : List Char} {t : Token} (hc : isQuote c = false)
    (h : munch c cs = .token t slice more) : Spells t (slice.map .char) := by
  unfold munch at h
  split at h
  · obtain ⟨rfl, rfl, -⟩ := Munch.token.inj h
    exact spells_wordToken _
  · rw [if_neg (by simp [hc])] at h
    split at h
    · obtain ⟨rfl, rfl, -⟩ := Munch.token.inj h
      exact ⟨_, rfl⟩
    · split at h
      · obtain ⟨rfl, rfl, -⟩ := Munch.token.inj h
        rfl
      · exact absurd h (by simp)

lemma eq_singleton_of_munch {c : Char} {cs slice : List Char} (hc : isQuote c = false)
    (h : munch c cs = .rejected slice) : slice = [c] := by
  unfold munch at h
  split at h
  · exact absurd h (by simp)
  · rw [if_neg (by simp [hc])] at h
    split at h
    · exact absurd h (by simp)
    · split at h
      · exact absurd h (by simp)
      · exact (Munch.rejected.inj h).symm

lemma takes_quoted {q : Char} {cells : List Cell} (hq : isQuote q = true)
    (hf : Fenced (.char q :: cells)) : Takes (.char q :: cells) (munch q (textOf cells)) := by
  have hstart : isNameStart q = false := by
    rw [Bool.eq_false_iff]
    intro hstart
    have hnone := isQuote_eq_false_of (p := isNameStart) rfl rfl hstart
    rw [hq] at hnone
    exact absurd hnone (by simp)
  obtain ⟨inner, rest, ⟨hcells, hclosed⟩ | ⟨hcells, hrest, hopen⟩⟩ := runsThrough hq cells [] hf.tail
  · have hmunch : munch q (textOf cells) = .token (.text (String.ofList (unescape (textOf inner))))
        (textOf (.char q :: (inner ++ [.char q]))) (textOf rest) := by
      simp [munch, hstart, hq, hclosed, Cell.written]
    rw [hmunch]
    refine .token (by simp [hcells]) ⟨by simp, by simp, ?_⟩ ⟨q, inner, hq, rfl, rfl⟩
    rw [← List.cons_append, List.getLast?_concat]
    simp
  · have hmunch : munch q (textOf cells) = .rejected (textOf (.char q :: inner)) := by
      simp [munch, hstart, hq, hopen, Cell.written]
    rw [hmunch]
    have hsplit : .char q :: cells = (.char q :: inner) ++ rest := by rw [hcells, List.cons_append]
    refine .rejected hsplit ⟨by simp, by simp, ?_⟩ (.inr ⟨q, inner, hq, rfl⟩)
    -- neither the end nor a backslash continues a name
    have hstops : Stops isNameChar (textOf rest) := by
      rcases hrest with rfl | hrest
      · exact Stops.nil
      · obtain ⟨more, rfl⟩ := List.head?_eq_some_iff.1 hrest
        exact stops_cons.2 (by decide)
    rw [hsplit] at hf
    exact hf.getLast?_ne_blank hstops

/-- The identifier of a reference is a token, since nothing runs into it. -/
lemma takes_reference {c : Char} {name cs : List Char} {cells : List Cell}
    (hf : Fenced (.reference name :: cells)) (hcells : textOf (.reference name :: cells) = c :: cs) :
    Takes (.reference name :: cells) (munch c cs) := by
  obtain ⟨hname, hstops, -⟩ := hf
  obtain ⟨ds, hds⟩ : ∃ ds, variablePrefix ++ name = '_' :: ds := ⟨_, rfl⟩
  have hidentifier : '_' :: (ds ++ textOf cells) = c :: cs := by
    rw [← hcells, textOf_cons, Cell.written, hds, List.cons_append]
  obtain ⟨rfl, rfl⟩ := List.cons.inj hidentifier
  have hword : wordToken ('_' :: ds) = .name (identifierOf (String.ofList name)) := by
    rw [← hds, wordToken_identifier, identifierOf, String.toList_ofList]
  rw [munch_name (hds ▸ isNameText_identifier hname) hstops, hword, ← hds]
  have htakes : Takes (.reference name :: cells) (.token (.name (identifierOf (String.ofList name)))
      (textOf [.reference name]) (textOf cells)) :=
    .token rfl ⟨by simp, by simp, by simp⟩ (.inr ⟨name, rfl, rfl⟩)
  rwa [textOf_cons, textOf_nil, List.append_nil, Cell.written] at htakes

/-- A token that is no quoted text takes characters up to the next cell that is none, at most. -/
lemma takes_char {c : Char} {cells : List Cell} (hc : isQuote c = false)
    (hf : Fenced (.char c :: cells)) : Takes (.char c :: cells) (munch c (textOf cells)) := by
  obtain ⟨ds, rest, rfl, hapart⟩ := exists_apart hf
  rw [textOf_append, textOf_map_char, munch_append hc hapart]
  rcases hmunch : munch c ds with ⟨t, slice, more⟩ | slice
  · have hsplit : Cell.char c :: (ds.map Cell.char ++ rest) =
        slice.map Cell.char ++ (more.map Cell.char ++ rest) := by
      rw [← List.append_assoc, ← List.map_append, append_of_munch hmunch, List.map_cons,
        List.cons_append]
    have htakes := Takes.token hsplit (solid_map_char (slice_ne_nil_of_munch hmunch))
      (spells_of_munch hc hmunch)
    rwa [textOf_append, textOf_map_char, textOf_map_char] at htakes
  · obtain rfl := eq_singleton_of_munch hc hmunch
    exact @Takes.rejected _ [.char c] _ rfl ⟨by simp, by simp, by simp⟩ (.inl ⟨c, rfl, hc⟩)

/-- **A token takes whole cells**, and so does what is rejected. -/
theorem takes_munch {c : Char} {cs : List Char} {cells : List Cell} (hf : Fenced cells)
    (hhead : cells.head? ≠ some .blank) (hcells : textOf cells = c :: cs) :
    Takes cells (munch c cs) := by
  cases cells with
  | nil => exact absurd hcells (by simp)
  | cons cell cells =>
    cases cell with
    | blank => exact absurd rfl hhead
    | reference name => exact takes_reference hf hcells
    | char d =>
      obtain ⟨rfl, rfl⟩ : d = c ∧ textOf cells = cs := by simpa [Cell.written] using hcells
      rcases hquote : isQuote d with _ | _
      · exact takes_char hquote hf
      · exact takes_quoted hquote hf

/-! ## All tokens -/

/-- Tokens lie on cells that follow others: each takes a run of them, and between them are blanks. -/
inductive Lies : List Cell → List Cell → List Lexeme → Prop
  | nil {pre : List Cell} : Lies pre [] []
  | skip {pre cells : List Cell} {cell : Cell} {ls : List Lexeme} {c : Char} :
    cell.written = [c] → isTokenBlank c = true → Lies (pre ++ [cell]) cells ls →
    Lies pre (cell :: cells) ls
  | token {pre run cells : List Cell} {t : Token} {ls : List Lexeme} :
    Solid run → Spells t run → Lies (pre ++ run) cells ls →
    Lies pre (run ++ cells)
      (⟨t, byteLength (textOf pre), byteLength (textOf (pre ++ run))⟩ :: ls)

/-- What comes of reading the tokens of cells that follow others. -/
def Lexed (pre cells : List Cell) (before : List Lexeme) : Except Rejection (List Lexeme) → Prop
  | .ok ls => ∃ ls', ls = before.reverse ++ ls' ∧ Lies pre cells ls'
  | .error r => ∃ run, Covers (pre ++ cells) r.span run ∧ r.slice = textOf run ∧ Rejects run

lemma Solid.covers {run : List Cell} (h : Solid run) (pre post : List Cell) :
    Covers (pre ++ (run ++ post)) ⟨byteLength (textOf pre), byteLength (textOf (pre ++ run))⟩ run := by
  refine ⟨pre, post, rfl, ?_, ?_, rfl⟩
  · rw [List.head?_append_of_ne_nil _ h.ne_nil]
    exact h.start
  · rw [List.getLast?_append_of_ne_nil _ h.ne_nil]
    exact h.stop

lemma Solid.append {run gap run' : List Cell} (h : Solid run) (h' : Solid run') :
    Solid (run ++ (gap ++ run')) := by
  refine ⟨by simp [h.ne_nil], ?_, ?_⟩
  · rw [List.head?_append_of_ne_nil _ h.ne_nil]
    exact h.start
  · rw [← List.append_assoc, List.getLast?_append_of_ne_nil _ h'.ne_nil]
    exact h'.stop

lemma head?_ne_blank {c : Char} {cs : List Char} {cells : List Cell} (hcells : textOf cells = c :: cs)
    (hc : ¬ isTokenBlank c = true) : cells.head? ≠ some .blank := by
  intro hhead
  obtain ⟨more, rfl⟩ := List.head?_eq_some_iff.1 hhead
  obtain ⟨rfl, -⟩ := List.cons.inj hcells
  exact hc rfl

lemma Lexed.skip {pre cells : List Cell} {cell : Cell} {before : List Lexeme} {c : Char}
    {result : Except Rejection (List Lexeme)} (h : Lexed (pre ++ [cell]) cells before result)
    (hcell : cell.written = [c]) (hc : isTokenBlank c = true) :
    Lexed pre (cell :: cells) before result := by
  cases result with
  | error r => rwa [Lexed, List.append_assoc] at h
  | ok ls =>
    obtain ⟨ls', hls, hlies⟩ := h
    exact ⟨ls', hls, .skip hcell hc hlies⟩

lemma Lexed.token {pre run cells : List Cell} {before : List Lexeme} {t : Token} {start stop : Nat}
    {result : Except Rejection (List Lexeme)}
    (h : Lexed (pre ++ run) cells (⟨t, start, stop⟩ :: before) result) (hsolid : Solid run)
    (hspells : Spells t run) (hstart : byteLength (textOf pre) = start)
    (hstop : byteLength (textOf (pre ++ run)) = stop) : Lexed pre (run ++ cells) before result := by
  subst hstart hstop
  cases result with
  | error r => rwa [Lexed, List.append_assoc] at h
  | ok ls =>
    obtain ⟨ls', hls, hlies⟩ := h
    exact ⟨_, by simpa using hls, .token hsolid hspells hlies⟩

/-- **The tokens of the text of cells lie on the cells.** -/
theorem lexed_tokensFrom {position : Nat} {before : List Lexeme} {cs : List Char}
    {pre cells : List Cell} (hf : Fenced cells) (hcells : textOf cells = cs)
    (hpre : byteLength (textOf pre) = position) :
    Lexed pre cells before (tokensFrom position before cs) := by
  fun_induction tokensFrom position before cs generalizing pre cells with
  | case1 position before =>
    have hnil : cells = [] := by
      by_contra hne
      exact textOf_ne_nil hne hcells
    subst hnil
    exact ⟨[], by simp, .nil⟩
  | case2 position before c cs hblank ih =>
    cases cells with
    | nil => exact absurd hcells (by simp)
    | cons cell cells =>
      -- a cell that begins with a blank is nothing but a blank
      have hcell : cell.written = [c] ∧ textOf cells = cs := by
        cases cell with
        | char d => simpa [Cell.written] using hcells
        | blank => simpa [Cell.written] using hcells
        | reference name =>
          obtain ⟨rfl, -⟩ := List.cons.inj hcells
          exact absurd hblank (by decide)
      have hposition : byteLength (textOf (pre ++ [cell])) = position + c.utf8Size := by
        simp [hcell.1, hpre, byteLength_append]
      exact (ih hf.tail hcell.2 hposition).skip hcell.1 hblank
  | case3 position before c cs hblank token slice rest hmunch stop =>
    rename_i ih
    have htakes := takes_munch hf (head?_ne_blank hcells hblank) hcells
    rw [hmunch] at htakes
    cases htakes with
    | @token _ run more hsplit hsolid hspells =>
      subst hsplit
      have hstop : byteLength (textOf (pre ++ run)) = stop := by
        rw [textOf_append, byteLength_append, hpre]
      exact (ih hf.of_append rfl hstop).token hsolid hspells hpre hstop
  | case4 position before c cs hblank slice hmunch =>
    have htakes := takes_munch hf (head?_ne_blank hcells hblank) hcells
    rw [hmunch] at htakes
    cases htakes with
    | @rejected run more hsplit hsolid hrejects =>
      subst hsplit
      refine ⟨run, ?_, rfl, hrejects⟩
      have hcovers := hsolid.covers pre more
      rwa [textOf_append, byteLength_append, hpre] at hcovers

lemma lies_of_tokenize {cells : List Cell} {ls : List Lexeme} (hf : Fenced cells)
    (h : tokenize (textOf cells) = .ok ls) : Lies [] cells ls := by
  have hlexed : Lexed [] cells [] (tokensFrom 0 [] (textOf cells)) := lexed_tokensFrom hf rfl rfl
  rw [← tokenize, h] at hlexed
  obtain ⟨ls', rfl, hlies⟩ := hlexed
  exact hlies

lemma covers_of_rejected {cells : List Cell} {r : Rejection} (hf : Fenced cells)
    (h : tokenize (textOf cells) = .error r) :
    ∃ run, Covers cells r.span run ∧ r.slice = textOf run ∧ Rejects run := by
  have hlexed : Lexed [] cells [] (tokensFrom 0 [] (textOf cells)) := lexed_tokensFrom hf rfl rfl
  rwa [← tokenize, h] at hlexed

/-! ## Extents -/

namespace Lies

variable {pre cells : List Cell} {as ms ls : List Lexeme}

/-- A token covers the run of cells that it was read from. -/
lemma covers_token {l : Lexeme} (h : Lies pre cells ls) (hl : l ∈ ls) :
    ∃ run, Covers (pre ++ cells) l.span run ∧ Spells l.token run := by
  induction h with
  | nil => exact absurd hl List.not_mem_nil
  | skip _ _ _ ih =>
    obtain ⟨run, hcovers, hspells⟩ := ih hl
    rw [List.append_assoc] at hcovers
    exact ⟨run, hcovers, hspells⟩
  | @token pre run cells t ls hsolid hspells _ ih =>
    rcases List.mem_cons.1 hl with rfl | hl
    · exact ⟨run, hsolid.covers pre cells, hspells⟩
    · obtain ⟨run', hcovers, hspells⟩ := ih hl
      rw [List.append_assoc] at hcovers
      exact ⟨run', hcovers, hspells⟩

/-- Tokens that come after others lie on cells that come after theirs. -/
lemma exists_after (h : Lies pre cells (as ++ ls)) :
    ∃ gap post, cells = gap ++ post ∧ Lies (pre ++ gap) post ls := by
  generalize hall : as ++ ls = all at h
  induction h generalizing as with
  | nil =>
    obtain ⟨-, rfl⟩ := List.append_eq_nil_iff.1 hall
    exact ⟨[], [], rfl, .nil⟩
  | @skip pre cells cell _ c hcell hc hlies ih =>
    cases as with
    | nil =>
      obtain rfl := hall
      exact ⟨[], _, rfl, by simpa using Lies.skip hcell hc hlies⟩
    | cons l as =>
      obtain ⟨gap, post, rfl, hrest⟩ := ih hall
      exact ⟨cell :: gap, post, rfl, by simpa using hrest⟩
  | @token pre run cells t rest hsolid hspells hlies ih =>
    cases as with
    | nil =>
      obtain rfl := hall
      exact ⟨[], _, rfl, by simpa using Lies.token hsolid hspells hlies⟩
    | cons l as =>
      obtain ⟨gap, post, rfl, hrest⟩ := ih (List.cons.inj hall).2
      exact ⟨run ++ gap, post, by simp, by simpa using hrest⟩

/-- **The extent of tokens goes from the cells of the first to those of the last.** -/
theorem exists_run (h : Lies pre cells (ms ++ ls)) (hms : ms ≠ []) :
    ∃ gap run post, cells = gap ++ (run ++ post) ∧ Solid run ∧
      extentOf ms = ⟨byteLength (textOf (pre ++ gap)), byteLength (textOf (pre ++ gap ++ run))⟩ ∧
      (∀ l ∈ ms.head?, ∃ first, Spells l.token first ∧ first <+: run) ∧
      (∀ l ∈ ms.getLast?, ∃ last, Spells l.token last ∧ last <:+ run) := by
  generalize hall : ms ++ ls = all at h
  induction h generalizing ms with
  | nil => exact absurd (List.append_eq_nil_iff.1 hall).1 hms
  | @skip pre cells cell _ c hcell hc hlies ih =>
    obtain ⟨gap, run, post, rfl, hsolid, hextent, hfirst, hlast⟩ := ih hms hall
    exact ⟨cell :: gap, run, post, rfl, hsolid, by simpa using hextent, hfirst, hlast⟩
  | @token pre run cells t rest hsolid hspells hlies ih =>
    obtain ⟨l, ms, rfl⟩ := List.exists_cons_of_ne_nil hms
    obtain ⟨rfl, hrest⟩ := List.cons.inj hall
    by_cases hnil : ms = []
    · subst hnil
      refine ⟨[], run, cells, rfl, hsolid, by simp [extentOf], ?_, ?_⟩
      · intro l hl
        obtain rfl := Option.some.inj hl
        exact ⟨run, hspells, List.prefix_rfl⟩
      · intro l hl
        obtain rfl := Option.some.inj hl
        exact ⟨run, hspells, List.suffix_rfl⟩
    · obtain ⟨gap, run', post, rfl, hsolid', hextent, -, hlast⟩ := ih hnil hrest
      refine ⟨[], run ++ (gap ++ run'), post, by simp, ?_, ?_, ?_, ?_⟩
      · exact hsolid.append hsolid'
      · rw [extentOf_cons hnil, hextent]
        simp [Span.through]
      · intro l hl
        obtain rfl := Option.some.inj hl
        exact ⟨run, hspells, List.prefix_append ..⟩
      · intro l hl
        obtain ⟨m, ms, rfl⟩ := List.exists_cons_of_ne_nil hnil
        rw [List.getLast?_cons_cons] at hl
        obtain ⟨last, hspells, hsuffix⟩ := hlast l hl
        rw [← List.append_assoc]
        exact ⟨last, hspells, hsuffix.trans (List.suffix_append ..)⟩

/-- The extent of tokens among others covers a run that begins with the cells of the first and ends with
those of the last. -/
theorem covers_extent (h : Lies pre cells ls) (hms : ms <:+: ls) (hne : ms ≠ []) :
    ∃ run, Covers (pre ++ cells) (extentOf ms) run ∧
      (∀ l ∈ ms.head?, ∃ first, Spells l.token first ∧ first <+: run) ∧
      (∀ l ∈ ms.getLast?, ∃ last, Spells l.token last ∧ last <:+ run) := by
  obtain ⟨as, bs, rfl⟩ := hms
  rw [List.append_assoc] at h
  obtain ⟨before, rest, rfl, hlies⟩ := h.exists_after
  obtain ⟨gap, run, post, rfl, hsolid, hextent, hends⟩ := hlies.exists_run hne
  refine ⟨run, ?_, hends⟩
  have hcovers := hsolid.covers (pre ++ before ++ gap) post
  rw [hextent]
  simpa only [List.append_assoc] using hcovers

lemma stops_of_nil (h : Lies pre cells []) : Stops isNameChar (textOf cells) := by
  cases h with
  | nil => exact Stops.nil
  | skip hcell hc _ =>
    rw [textOf_cons, hcell]
    refine stops_cons.2 ?_
    rw [Bool.eq_false_iff]
    intro hname
    rw [isTokenBlank_eq_false_of rfl hname] at hc
    exact absurd hc (by simp)

lemma head?_ne_blank_of_nil (h : Lies pre cells []) (hf : Fenced cells) :
    cells.head? ≠ some .blank := by
  intro hhead
  obtain ⟨cells, rfl⟩ := List.head?_eq_some_iff.1 hhead
  obtain ⟨⟨c, hc, hname⟩, -⟩ := hf
  generalize hcells : Cell.blank :: cells = all at h
  cases h with
  | nil => exact absurd hcells (by simp)
  | skip _ _ hrest =>
    obtain ⟨-, rfl⟩ := List.cons.inj hcells
    rw [hrest.stops_of_nil c hc] at hname
    exact absurd hname (by simp)

/-- The place where the last token stops, or where the cells begin if there is none. -/
theorem covers_end (h : Lies pre cells ls) (hf : Fenced cells)
    (hpre : ls = [] → pre.getLast? ≠ some .blank) :
    Covers (pre ++ cells) (.point (stopAfter (byteLength (textOf pre)) ls)) [] := by
  induction h with
  | @nil pre => exact ⟨pre, [], by simp, by simp, by simpa using hpre rfl, by simp [stopAfter, Span.point]⟩
  | @skip pre cells cell ls c hcell hc hlies ih =>
    cases ls with
    | nil =>
      have hhead := (Lies.skip hcell hc hlies).head?_ne_blank_of_nil hf
      exact ⟨pre, cell :: cells, rfl, hhead, by simpa using hpre rfl, by simp [stopAfter, Span.point]⟩
    | cons l ls =>
      have hcovers := ih hf.tail fun hnil => absurd hnil (by simp)
      rwa [List.append_assoc] at hcovers
  | @token pre run cells t ls hsolid hspells hlies ih =>
    have hlast : (pre ++ run).getLast? ≠ some .blank := by
      rw [List.getLast?_append_of_ne_nil _ hsolid.ne_nil]
      exact hsolid.stop
    have hcovers := ih hf.of_append fun _ => hlast
    rwa [List.append_assoc] at hcovers

end Lies
end Formulary
