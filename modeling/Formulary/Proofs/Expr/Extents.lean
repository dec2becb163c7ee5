import Formulary.Proofs.Expr.Origins
import Formulary.Proofs.Expr.Parsing
import Formulary.Proofs.Token.Splitting
/-!
# What the spans of nodes take in

The span of a node takes in the tokens that the node is written by and no others (`Expr.Delimits`):
parentheses around the node stay outside. The spans of its operands lie in it, one after the other, and
so do those of the name and of the arguments of a call.

All this comes from how spans that go from one token to another (`Span.Over`) lie if the tokens do not
overlap (`Ordered`): the operands of a node line up over its tokens (`Derives.lineUp`).
-/

namespace Formulary

/-- One span lies in another. -/
def Span.Within (s t : Span) : Prop :=
  t.start ≤ s.start ∧ s.stop ≤ t.stop

instance (s t : Span) : Decidable (s.Within t) :=
  inferInstanceAs (Decidable (_ ∧ _))

/-- The tokens that lie in a span. -/
def lexemesIn (s : Span) (ls : List Lexeme) : List Lexeme :=
  ls.filter fun l => l.span.Within s

/-- The spans of the parts of a node, from left to right: those of its operands, or of the name and of
the arguments of a call. -/
def Expr.parts : Expr → List Span
  | number .. | text .. | symbol .. => []
  | binary _ _ l r => [l.span, r.span]
  | unary _ _ e => [e.span]
  | conditional _ c y n => [c.span, y.span, n.span]
  | call _ _ nameSpan args => nameSpan :: args.map span

/-- The span of a node goes from the first to the last of the tokens that the node is written by; these
tokens are a part of all the tokens and no expression between parentheses. The parts of the node lie in
its span, one after the other. -/
structure Expr.Delimits (n : Expr) (ls : List Lexeme) : Prop where
  part : lexemesIn n.span ls <:+: ls
  phrase : ∃ c, Derives c (lexemesIn n.span ls) n
  extent : n.span = extentOf (lexemesIn n.span ls)
  unwrapped : ∀ opening inner closing, lexemesIn n.span ls = opening :: (inner ++ [closing]) →
    opening.token = .mark .leftParen → closing.token = .mark .rightParen → ∀ e, ¬ Writes inner e
  within : ∀ s ∈ n.parts, s.Within n.span
  apart : n.parts.Pairwise fun s s' => s.stop ≤ s'.start

/-! ## Spans over tokens -/

/-- A span goes from one token to another of a list. -/
def Span.Over (s : Span) (ls : List Lexeme) : Prop :=
  ∃ first ∈ ls, ∃ last ∈ ls, s = first.span.through last.span

section
variable {ls ms : List Lexeme} {s : Span}

lemma Span.Over.mono (h : s.Over ms) (hms : ms ⊆ ls) : s.Over ls := by
  obtain ⟨first, hfirst, last, hlast, hs⟩ := h
  exact ⟨first, hms hfirst, last, hms hlast, hs⟩

lemma over_lexeme {l : Lexeme} (h : l ∈ ls) : l.span.Over ls :=
  ⟨l, h, l, h, rfl⟩

lemma over_extentOf (h : ms ≠ []) : (extentOf ms).Over ms := by
  refine ⟨ms.head h, List.head_mem h, ms.getLast h, List.getLast_mem h, ?_⟩
  rw [extentOf, List.head?_eq_some_head h, List.getLast?_eq_some_getLast h]
  rfl

namespace Ordered

lemma of_infix (hls : Ordered ls) (h : ms <:+: ls) : Ordered ms :=
  ⟨fun l hl => hls.nonempty l (h.subset hl), hls.apart.sublist h.sublist⟩

/-- What lies over tokens stops before what lies over later ones begins. -/
lemma stop_le_start {rest : List Lexeme} {t : Span} (hls : Ordered (ls ++ rest)) (hs : s.Over ls)
    (ht : t.Over rest) : s.stop ≤ t.start := by
  obtain ⟨_, -, last, hlast, rfl⟩ := hs
  obtain ⟨first, hfirst, _, -, rfl⟩ := ht
  exact (List.pairwise_append.1 hls.apart).2.2 last hlast first hfirst

/-- Each token lies in the extent of all. -/
lemma within_extentOf (hls : Ordered ls) {l : Lexeme} (hl : l ∈ ls) :
    l.span.Within (extentOf ls) := by
  constructor
  · cases ls with
    | nil => cases hl
    | cons first rest =>
      rcases List.mem_cons.1 hl with rfl | hrest
      · exact le_rfl
      · have hstart := hls.nonempty first List.mem_cons_self
        have hstop := List.rel_of_pairwise_cons hls.apart hrest
        exact hstart.le.trans hstop
  · rcases List.eq_nil_or_concat ls with rfl | ⟨before, last, rfl⟩
    · cases hl
    · rw [List.concat_eq_append] at hls hl ⊢
      have hextent : (extentOf (before ++ [last])).stop = last.span.stop := by simp [extentOf]
      rw [hextent]
      rcases List.mem_append.1 hl with hbefore | hl
      · have hstop := hls.nonempty last (List.mem_append_right _ (List.mem_singleton_self _))
        have hstart : l.span.stop ≤ last.span.start :=
          hls.stop_le_start (over_lexeme hbefore) (over_lexeme (List.mem_singleton_self last))
        exact hstart.trans hstop.le
      · rw [List.mem_singleton.1 hl]

end Ordered

lemma Span.Over.within (h : s.Over ls) (hls : Ordered ls) : s.Within (extentOf ls) := by
  obtain ⟨first, hfirst, last, hlast, rfl⟩ := h
  exact ⟨(hls.within_extentOf hfirst).1, (hls.within_extentOf hlast).2⟩

/-- The tokens in the extent of a part of the tokens are that part. -/
lemma lexemesIn_extentOf (hls : Ordered ls) (hms : ms <:+: ls) (hne : ms ≠ []) :
    lexemesIn (extentOf ms) ls = ms := by
  obtain ⟨before, after, rfl⟩ := hms
  have hover := over_extentOf hne
  have hbefore : lexemesIn (extentOf ms) before = [] := by
    refine List.filter_eq_nil_iff.2 fun l hl => ?_
    have hfront : Ordered (before ++ ms) := hls.of_infix (List.prefix_append _ after).isInfix
    have hstop := hfront.stop_le_start (over_lexeme hl) hover
    have hpos := hls.nonempty l (by simp [hl])
    rw [decide_eq_true_iff]
    rintro ⟨hstart, hstop'⟩
    omega
  have hafter : lexemesIn (extentOf ms) after = [] := by
    refine List.filter_eq_nil_iff.2 fun l hl => ?_
    have hstop := hls.stop_le_start (hover.mono (List.subset_append_right before ms)) (over_lexeme hl)
    have hpos := hls.nonempty l (by simp [hl])
    rw [decide_eq_true_iff]
    rintro ⟨hstart, hstop'⟩
    omega
  have hms : lexemesIn (extentOf ms) ms = ms := by
    refine List.filter_eq_self.2 fun l hl => decide_eq_true ?_
    exact (hls.of_infix ⟨before, after, rfl⟩).within_extentOf hl
  rw [lexemesIn] at *
  rw [List.filter_append, List.filter_append, hbefore, hms, hafter]
  simp

/-! ## The parts of a node -/

/-- Parts lie one after the other over tokens. -/
structure LineUp (spans : List Span) (ls : List Lexeme) : Prop where
  lies : ∀ s ∈ spans, s.Over ls
  apart : spans.Pairwise fun s s' => s.stop ≤ s'.start

namespace LineUp

variable {spans spans' : List Span}

lemma nil : LineUp [] ls :=
  ⟨by simp, .nil⟩

lemma singleton (h : s.Over ls) : LineUp [s] ls :=
  ⟨by simpa using h, List.pairwise_singleton _ _⟩

lemma mono (h : LineUp spans ms) (hms : ms ⊆ ls) : LineUp spans ls :=
  ⟨fun s hs => (h.lies s hs).mono hms, h.apart⟩

lemma append (hls : Ordered (ls ++ ms)) (h : LineUp spans ls) (h' : LineUp spans' ms) :
    LineUp (spans ++ spans') (ls ++ ms) := by
  constructor
  · exact List.forall_mem_append.2 ⟨(h.mono (List.subset_append_left _ _)).lies,
      (h'.mono (List.subset_append_right _ _)).lies⟩
  · refine List.pairwise_append.2 ⟨h.apart, h'.apart, fun s hs s' hs' => ?_⟩
    exact hls.stop_le_start (h.lies s hs) (h'.lies s' hs')

end LineUp

/-- The span of an expression lies over the tokens that write it. -/
lemma Derives.span_over {c : Category} {e : Expr} (h : Derives c ls e) : e.span.Over ls := by
  obtain ⟨-, ms, hms, -, horigin⟩ := h.exists_own
  rw [horigin.span]
  exact (over_extentOf horigin.ne_nil).mono hms.subset

lemma DerivesArguments.lineUp : {ls : List Lexeme} → {args : List Expr} → DerivesArguments ls args →
    Ordered ls → LineUp (args.map Expr.span) ls
  | _, _, .nil, _ => .nil
  | _, _, .last he, _ => .singleton he.span_over
  | _, _, @DerivesArguments.cons ls rest comma _ _ he _ hrest, hls => by
    have hlater := hrest.lineUp (hls.of_infix ⟨ls ++ [comma], [], by simp⟩)
    exact (LineUp.singleton he.span_over).append hls (hlater.mono (List.subset_cons_self comma rest))

/-- The parts of an expression line up over the tokens that write it. -/
lemma Derives.lineUp : {c : Category} → {ls : List Lexeme} → {e : Expr} → Derives c ls e →
    Ordered ls → LineUp e.parts ls
  | _, _, _, .number s x, _ => .nil
  | _, _, _, .text s t, _ => .nil
  | _, _, _, .symbol s name, _ => .nil
  | _, _, _, @Derives.conditional cs ys ns question colon _ _ _ hc _ hy _ hn, hls => by
    have hno := (LineUp.singleton hn.span_over).mono (List.subset_cons_self colon ns)
    have hbranches := (LineUp.singleton hy.span_over).append
      (hls.of_infix ⟨cs ++ [question], [], by simp⟩) hno
    exact (LineUp.singleton hc.span_over).append hls (hbranches.mono (List.subset_cons_self question _))
  | _, _, _, @Derives.binary _ ls rs sign _ _ hl _ hr, hls => by
    have hright := (LineUp.singleton hr.span_over).mono (List.subset_cons_self sign rs)
    exact (LineUp.singleton hl.span_over).append hls hright
  | _, _, _, .unary _ _ he, _ => (LineUp.singleton he.span_over).mono (List.subset_cons_self _ _)
  | _, _, _, .factorial he _, _ => (LineUp.singleton he.span_over).mono (List.subset_append_left _ _)
  | _, _, _, @Derives.call f s opening closing ls _ _ hargs _, hls => by
    have hname : LineUp [s] [⟨.name f, s⟩] := .singleton (over_lexeme (List.mem_singleton_self _))
    have hlater := hargs.lineUp (hls.of_infix ⟨[⟨.name f, s⟩, opening], [closing], by simp⟩)
    have hrest : ls ⊆ opening :: (ls ++ [closing]) :=
      List.subset_cons_of_subset opening (List.subset_append_left ls [closing])
    exact hname.append hls (hlater.mono hrest)
  | _, _, _, @Derives.group opening closing ls _ _ he _, hls => by
    have hinfix : ls <:+: opening :: (ls ++ [closing]) := infix_group List.infix_rfl
    exact (he.lineUp (hls.of_infix hinfix)).mono hinfix.subset
  | _, _, _, .tighter _ h, hls => h.lineUp hls

/-! ## The tokens of a node -/

/-- Tokens of which a node has the extent are not all between parentheses. -/
lemma unwrapped_of_extent {c : Category} {n : Expr} (h : Derives c ms n) (hms : Ordered ms)
    (hspan : n.span = extentOf ms) {opening closing : Lexeme} {inner : List Lexeme} {e : Expr}
    (hgroup : ms = opening :: (inner ++ [closing])) (hopening : opening.token = .mark .leftParen)
    (hclosing : closing.token = .mark .rightParen) : ¬ Writes inner e := by
  intro he
  subst hgroup
  -- the node would be the one between the parentheses, and its span would begin after the first of them
  have hwhole : Writes (opening :: (inner ++ [closing])) e :=
    (Derives.group hopening he hclosing).loosen (Nat.zero_le _)
  have hnode : Writes (opening :: (inner ++ [closing])) n := h.loosen (Nat.zero_le _)
  obtain rfl : n = e := by
    rw [← parse_eq_ok_iff_writes] at hwhole hnode
    exact Except.ok.inj (hnode.symm.trans hwhole)
  have hover : n.span.Over (inner ++ [closing]) := he.span_over.mono (List.subset_append_left _ _)
  have hafter : opening.span.stop ≤ n.span.start :=
    hms.stop_le_start (over_lexeme (List.mem_singleton_self opening)) hover
  have hstart : n.span.start = opening.span.start := by
    rw [hspan]
    rfl
  have hpos := hms.nonempty opening List.mem_cons_self
  omega

/-- **The span of a node delimits it.** -/
theorem Derives.delimits {c : Category} {e : Expr} (hls : Ordered ls) (h : Derives c ls e) :
    ∀ n ∈ e.nodes, n.Delimits ls := by
  intro n hn
  obtain ⟨d, ms, hms, hphrase⟩ := h.exists_phrase n hn
  obtain ⟨d', own, hown, hphrase', horigin⟩ := hphrase.exists_own
  have hordered : Ordered own := hls.of_infix (hown.trans hms)
  have htokens : lexemesIn n.span ls = own := by
    rw [horigin.span]
    exact lexemesIn_extentOf hls (hown.trans hms) horigin.ne_nil
  have hparts := hphrase'.lineUp hordered
  constructor
  · rw [htokens]
    exact hown.trans hms
  · rw [htokens]
    exact ⟨d', hphrase'⟩
  · rw [htokens]
    exact horigin.span
  · intro opening inner closing hgroup hopening hclosing e
    rw [htokens] at hgroup
    exact unwrapped_of_extent hphrase' hordered horigin.span hgroup hopening hclosing
  · intro s hs
    rw [horigin.span]
    exact (hparts.lies s hs).within hordered
  · exact hparts.apart

end

/-- **The spans of an expression delimit its nodes.** If tokens that do not overlap are read as an
expression, the span of each node goes from the first to the last token that the node is written by,
without parentheses around it, and its parts lie in it, one after the other. -/
theorem parse_delimits {ls : List Lexeme} {e : Expr} (hls : Ordered ls) (h : parse ls = .ok e) :
    ∀ n ∈ e.nodes, n.Delimits ls :=
  (parse_eq_ok_iff_writes.1 h).delimits hls

/-- The tokens of `f(x, (y+z))`. -/
def groupedArgument : List Lexeme :=
  [⟨.name "f", ⟨0, 1⟩⟩, ⟨.mark .leftParen, ⟨1, 2⟩⟩, ⟨.name "x", ⟨2, 3⟩⟩, ⟨.mark .comma, ⟨3, 4⟩⟩,
    ⟨.mark .leftParen, ⟨5, 6⟩⟩, ⟨.name "y", ⟨6, 7⟩⟩, ⟨.mark .plus, ⟨7, 8⟩⟩, ⟨.name "z", ⟨8, 9⟩⟩,
    ⟨.mark .rightParen, ⟨9, 10⟩⟩, ⟨.mark .rightParen, ⟨10, 11⟩⟩]

/-- The sum in it. -/
def groupedSum : Expr :=
  .binary ⟨6, 9⟩ .add (.symbol ⟨6, 7⟩ "y") (.symbol ⟨8, 9⟩ "z")

/-- The parentheses around the sum belong to the call. -/
theorem parse_groupedArgument_delimits : Ordered groupedArgument ∧
    parse groupedArgument =
      .ok (.call ⟨0, 11⟩ "f" ⟨0, 1⟩ [.symbol ⟨2, 3⟩ "x", groupedSum]) ∧
    groupedSum.Delimits groupedArgument := by
  have hordered : Ordered groupedArgument := ⟨by decide, by decide⟩
  have hparse : parse groupedArgument =
      .ok (.call ⟨0, 11⟩ "f" ⟨0, 1⟩ [.symbol ⟨2, 3⟩ "x", groupedSum]) := rfl
  refine ⟨hordered, hparse, parse_delimits hordered hparse groupedSum ?_⟩
  exact Expr.mem_nodes_call.2 (.inr ⟨groupedSum, by simp, Expr.self_mem_nodes groupedSum⟩)

end Formulary
