import Formulary.Proofs.Expr.Parsing
import Formulary.Proofs.Formula.Name
import Formulary.Proofs.Template.Places
/-!
# Where the faults of a source lie

Tokens are read from a text in which references have been replaced, and faults are reported in the
source. The span of every fault is that of a slice of the source, and the slice is what the fault is
about: the name, the reference, the quoted text or the call (`Formula.faults_point_into_source`).

What can be wrong with a text is told once (`Fails`, and for an expression that has been read
`Expr.Offends`). A fault is first placed on the cells of the text (`Fault.PlacedOn`): the tokens lie on
the cells, so the nodes of an expression do (`Expr.LiesOn`), and a fault lies where a node or a token
does.
-/

namespace Formulary

open Result

/-! ## What a fault points at -/

/-- A slice of a source is what a fault is about. -/
def Fault.Shows (slice : List Char) : Fault → Prop
  | unknownSymbol name _ _ => slice = name.toList
  | unbound name _ _ => slice = (reference name).toList ∨ slice = (identifierOf name).toList
  | notFunction name _ =>
    slice = name.toList ∨ slice = (reference name).toList ∨ slice = (identifierOf name).toList
  | quotedText _ => ∃ q inner, isQuote q = true ∧ slice = q :: (inner ++ [q])
  | wrongCount function _ _ _ => ∃ inner, slice = function.toList ++ (inner ++ [')'])
  | badCharacter .. | unexpected .. | unexpectedEnd .. | tooDeep _ | blank | notFinite _
  | badTree _ => True

/-- The span of a fault, if it has one, goes from one border between characters of the source to
another, and the slice between them is what the fault is about. -/
def Fault.PointsInto (source : String) (fault : Fault) : Prop :=
  ∀ s, fault.span? = some s → s.start ≤ s.stop ∧ String.Pos.Raw.IsValid source ⟨s.start⟩ ∧
    String.Pos.Raw.IsValid source ⟨s.stop⟩ ∧
    ∃ slice, Cuts source.toList s slice ∧ fault.Shows slice

/-- The span of a fault, if it has one, covers cells that stand for what the fault is about. -/
def Fault.PlacedOn (cells : List Cell) (fault : Fault) : Prop :=
  ∀ s, fault.span? = some s → ∃ run, Covers cells s run ∧ fault.Shows (sourceOf run)

lemma Fault.shows_mapSpan {slice : List Char} {fault : Fault} {f : Span → Span} :
    (fault.mapSpan f).Shows slice ↔ fault.Shows slice := by
  cases fault <;> exact Iff.rfl

lemma Fault.PlacedOn.of_covers {cells run : List Cell} {s : Span} {fault : Fault}
    (hspan : fault.span? = some s) (hcovers : Covers cells s run) (hshows : fault.Shows (sourceOf run)) :
    fault.PlacedOn cells := by
  intro s' hs'
  obtain rfl := Option.some.inj (hspan.symm.trans hs')
  exact ⟨run, hcovers, hshows⟩

lemma Fault.PlacedOn.pointsInto {source : String} {fault : Fault}
    (h : fault.PlacedOn (sourceCells source)) :
    (fault.mapSpan (Template.ofSource source).toSource).PointsInto source := by
  intro s hs
  rw [Fault.span?_mapSpan] at hs
  obtain ⟨written, hwritten, rfl⟩ := Option.map_eq_some_iff.1 hs
  obtain ⟨run, hcovers, hshows⟩ := h written hwritten
  have hcuts := cuts_toSource hcovers
  obtain ⟨before, after, hsource, hspan⟩ := id hcuts
  rw [hspan] at hcuts ⊢
  have hstop : source.toList = (before ++ sourceOf run) ++ after := by rw [List.append_assoc, hsource]
  refine ⟨?_, isValid_byteLength hsource, isValid_byteLength hstop, sourceOf run, hcuts,
    shows_mapSpan.2 hshows⟩
  rw [byteLength_append]
  exact Nat.le_add_right ..

/-! ## Expressions on cells -/

/-- The atoms and the nodes of an expression cover runs of cells. -/
structure Expr.LiesOn (e : Expr) (cells : List Cell) : Prop where
  atom : ∀ l ∈ e.atoms, ∃ run, Covers cells l.span run ∧ Spells l.token run
  node : ∀ n ∈ e.nodes, ∃ run, Covers cells n.span run
  /-- A call begins with the name of its function and ends with a parenthesis. -/
  call : ∀ s f nameSpan args, .call s f nameSpan args ∈ e.nodes → ∃ run, Covers cells s run ∧
    (∃ first, Spells (.name f) first ∧ first <+: run) ∧ [.char ')'] <:+ run

variable {cells : List Cell} {ls : List Lexeme} {e : Expr}

lemma liesOn_of_parse (hf : Fenced cells) (hls : tokenize (textOf cells) = .ok ls)
    (he : parse ls = .ok e) : e.LiesOn cells where
  atom l hl := by
    rw [atoms_of_parse he] at hl
    exact (lies_of_tokenize hf hls).covers_token (List.mem_filter.1 hl).1
  node n hn := by
    obtain ⟨ms, hms, horigin⟩ := (parse_eq_ok_iff_writes.1 he).exists_origin n hn
    obtain ⟨run, hcovers, -⟩ := (lies_of_tokenize hf hls).covers_extent hms horigin.ne_nil
    rw [← horigin.span] at hcovers
    exact ⟨run, hcovers⟩
  call s f nameSpan args hn := by
    obtain ⟨ms, hms, horigin⟩ := (parse_eq_ok_iff_writes.1 he).exists_origin _ hn
    obtain ⟨run, hcovers, hfirst, hlast⟩ :=
      (lies_of_tokenize hf hls).covers_extent hms horigin.ne_nil
    rw [← horigin.span] at hcovers
    obtain ⟨opening, inner, closing, hclosing, rfl⟩ := horigin.call _ _ _ _ rfl
    have hclosing' : (⟨.name f, nameSpan⟩ :: opening :: (inner ++ [closing])).getLast? =
        some closing := by
      rw [← List.cons_append, ← List.cons_append, List.getLast?_concat]
    obtain ⟨last, hspells, hsuffix⟩ := hlast closing hclosing'
    rw [hclosing] at hspells
    obtain rfl : last = [.char ')'] := hspells
    exact ⟨run, hcovers, hfirst _ rfl, hsuffix⟩

/-- A name that is no identifier of a variable is written out. -/
lemma eq_map_char_of_spells {name : String} {run : List Cell} (h : Spells (.name name) run)
    (hname : variableOf? name = none) : run = name.toList.map .char := by
  rcases h with h | ⟨v, -, rfl⟩
  · exact h
  · exact absurd hname (by simp)

/-- The identifier of a variable is written out or stands for a reference. -/
lemma sourceOf_of_spells_identifier {v : String} {run : List Cell}
    (h : Spells (.name (identifierOf v)) run) :
    sourceOf run = (Fault.reference v).toList ∨ sourceOf run = (identifierOf v).toList := by
  rcases h with rfl | ⟨name, rfl, heq⟩
  · exact .inr (sourceOf_map_char _)
  · obtain rfl := identifierOf_inj heq
    left
    rw [toList_reference, String.toList_ofList]
    simp [Cell.source]

/-! ## Offences -/

namespace Expr

variable {n : Expr} {fault : Fault}

/-- What can keep an expression from being resolved: a name that is not known, a quoted text, or a call
of what is no function or with a wrong number of arguments. -/
inductive Offends (e : Expr) : Fault → Prop
  | unknown {name : String} {s : Span} : ⟨.name name, s⟩ ∈ e.atoms → variableOf? name = none →
    Offends e (unknownFault name s)
  | quoted {t : String} {s : Span} : ⟨.text t, s⟩ ∈ e.atoms → Offends e (.quotedText s)
  | notFunction {f : String} {s : Span} : ⟨.name f, s⟩ ∈ e.atoms →
    Offends e (.notFunction ((variableOf? f).getD f) s)
  | wrongCount {s nameSpan : Span} {f : String} {args : List Expr} {b : Builtin} :
    .call s f nameSpan args ∈ e.nodes → builtin? f = some b →
    Offends e (.wrongCount f b.arity args.length s)

lemma ownAtom?_of_symbol? {name : String} {s : Span} (h : n.symbol? = some (name, s)) :
    n.ownAtom? = some ⟨.name name, s⟩ := by
  cases n <;> simp [symbol?] at h <;> simp [ownAtom?, h]

lemma offends_of_callFault? (hn : n ∈ e.nodes) (h : n.callFault? = some fault) : e.Offends fault := by
  cases n with
  | call s f nameSpan args =>
    simp only [callFault?, callee] at h
    rcases hb : builtin? f with _ | b
    · simp only [hb, Option.some.injEq] at h
      rw [← h]
      exact .notFunction (mem_atoms.2 ⟨_, hn, rfl⟩)
    · simp only [hb] at h
      split at h
      · rename_i cause hcause
        split at hcause
        · exact absurd hcause (by simp)
        · obtain rfl := Except.error.inj hcause
          obtain rfl := Option.some.inj h
          exact .wrongCount hn hb
      · exact absurd h (by simp)
  | _ => exact absurd h (by simp [callFault?])

theorem offends_of_resolutionFault? (h : e.resolutionFault? = some fault) : e.Offends fault := by
  unfold resolutionFault? firstUnknown? at h
  rw [first?_eq, first?_eq, first?_eq] at h
  split at h
  · rename_i name s hunknown
    obtain rfl := Option.some.inj h
    obtain ⟨n, hn, hname⟩ := List.exists_of_findSome?_eq_some hunknown
    obtain ⟨hsymbol, hknown⟩ := Option.filter_eq_some_iff.1 hname
    refine .unknown (mem_atoms.2 ⟨n, hn, ownAtom?_of_symbol? hsymbol⟩) ?_
    rcases hv : variableOf? name with _ | v
    · rfl
    · simp [isKnown, hv] at hknown
  · split at h
    · rename_i s hquoted
      obtain rfl := Option.some.inj h
      obtain ⟨n, hn, hs⟩ := List.exists_of_findSome?_eq_some hquoted
      cases n with
      | text s' t =>
        obtain rfl : s' = s := Option.some.inj hs
        exact .quoted (mem_atoms.2 ⟨_, hn, rfl⟩)
      | _ => exact absurd hs (by simp [quotedText?])
    · obtain ⟨n, hn, hcall⟩ := List.exists_of_findSome?_eq_some h
      exact offends_of_callFault? hn hcall

end Expr

/-! ## Faults of an expression -/

namespace Expr.LiesOn

variable {scope : Scope} {fault : Fault}

lemma getLast?_ne_of_builtin? {word : String} {b : Builtin} (h : builtin? word = some b) :
    word.toList.getLast? ≠ some ')' := by
  have hwords : ∀ entry ∈ vocabulary, entry.1.toList.getLast? ≠ some ')' := by decide
  unfold builtin? at h
  split at h
  · rename_i hmeaning
    exact hwords _ (mem_of_lookup hmeaning)
  · exact absurd h (by simp)

lemma placed_notFunction {s : Span} {f : String} (h : e.LiesOn cells)
    (hf : (⟨.name f, s⟩ : Lexeme) ∈ e.atoms) :
    (Fault.notFunction ((variableOf? f).getD f) s).PlacedOn cells := by
  obtain ⟨run, hcovers, hspells⟩ := h.atom _ hf
  refine .of_covers rfl hcovers ?_
  rcases hv : variableOf? f with _ | v
  · left
    rw [eq_map_char_of_spells hspells hv, sourceOf_map_char, Option.getD_none]
  · obtain rfl := identifierOf_of_variableOf? hv
    exact .inr (sourceOf_of_spells_identifier hspells)

lemma placed_wrongCount {s nameSpan : Span} {f : String} {args : List Expr} {b : Builtin} {count : Nat}
    (h : e.LiesOn cells) (hn : .call s f nameSpan args ∈ e.nodes) (hb : builtin? f = some b) :
    (Fault.wrongCount f b.arity count s).PlacedOn cells := by
  obtain ⟨run, hcovers, ⟨first, hspells, more, rfl⟩, hlast⟩ := h.call _ _ _ _ hn
  refine .of_covers rfl hcovers ?_
  have hname : variableOf? f = none := by
    rcases hv : variableOf? f with _ | v
    · rfl
    · obtain rfl := identifierOf_of_variableOf? hv
      rw [builtin?_identifierOf] at hb
      exact absurd hb (by simp)
  obtain rfl := eq_map_char_of_spells hspells hname
  rw [sourceOf_append, sourceOf_map_char]
  -- the parenthesis belongs to no function, so there is more than the name
  rcases List.eq_nil_or_concat more with rfl | ⟨init, last, rfl⟩
  · obtain ⟨pre, hpre⟩ := hlast
    have hparen := congrArg List.getLast? hpre
    rw [List.getLast?_concat, List.append_nil, List.getLast?_map] at hparen
    obtain ⟨c, hc, hchar⟩ := Option.map_eq_some_iff.1 hparen.symm
    obtain rfl := Cell.char.inj hchar
    exact absurd hc (getLast?_ne_of_builtin? hb)
  · obtain ⟨pre, hpre⟩ := hlast
    rw [List.concat_eq_append] at hpre ⊢
    have hparen := congrArg List.getLast? hpre
    rw [← List.append_assoc, List.getLast?_concat, List.getLast?_concat] at hparen
    obtain rfl := Option.some.inj hparen
    exact ⟨sourceOf init, by simp [Cell.source]⟩

/-- What keeps an expression from being resolved lies on its cells. -/
theorem placed_offence (h : e.LiesOn cells) (hfault : e.Offends fault) : fault.PlacedOn cells := by
  cases hfault with
  | @unknown name s hatom hname =>
    obtain ⟨run, hcovers, hspells⟩ := h.atom _ hatom
    refine .of_covers rfl hcovers ?_
    rw [eq_map_char_of_spells hspells hname]
    exact sourceOf_map_char _
  | @quoted t s hatom =>
    obtain ⟨run, hcovers, q, inner, hq, rfl, -⟩ := h.atom _ hatom
    exact .of_covers rfl hcovers ⟨q, sourceOf inner, hq, by simp [Cell.source]⟩
  | notFunction hatom => exact h.placed_notFunction hatom
  | wrongCount hcall hb => exact h.placed_wrongCount hcall hb

/-- What goes wrong in the evaluation of a resolved expression lies on its cells. -/
theorem placed_evaluate (h : e.LiesOn cells) (he : e.Resolved)
    (hfault : e.evaluate scope = .error fault) : fault.PlacedOn cells := by
  have houtcome := evaluate_of_resolved he scope
  rw [hfault] at houtcome
  cases houtcome with
  | notFinite _ => exact fun s hs => absurd hs (by simp [Fault.span?])
  | reserved hsymbol =>
    obtain ⟨run, hcovers, hspells⟩ := h.atom _ (mem_atoms_of_symbol hsymbol)
    refine .of_covers rfl hcovers ?_
    rw [eq_map_char_of_spells hspells rfl]
    exact sourceOf_map_char _
  | unbound hsymbol _ =>
    obtain ⟨run, hcovers, hspells⟩ := h.atom _ (mem_atoms_of_symbol hsymbol)
    exact .of_covers rfl hcovers (sourceOf_of_spells_identifier hspells)

end Expr.LiesOn

/-! ## Faults of a source -/

/-- What can be wrong with the text of cells: a run of them is rejected, a token cannot stand where it
does or the end comes too soon; or the text has an expression, which is too deep or cannot be
resolved. -/
inductive Fails (cells : List Cell) : Fault → Prop
  | rejected {run : List Cell} {s : Span} : Covers cells s run → Rejects run →
    Fails cells (.badCharacter (String.ofList (textOf run)) s)
  | unexpected {run : List Cell} {t : Token} {s : Span} {expected : List Terminal} :
    Covers cells s run → Spells t run → Fails cells (.unexpected t expected s)
  | unexpectedEnd {s : Span} {expected : List Terminal} : Covers cells s [] →
    Fails cells (.unexpectedEnd expected s)
  | tooDeep {run : List Cell} {s : Span} : Covers cells s run → Fails cells (.tooDeep s)
  | unresolved {e : Expr} {fault : Fault} : e.LiesOn cells → e.Offends fault → Fails cells fault

theorem fails_of_text {settings : Settings} {fault : Fault} (hf : Fenced cells)
    (h : (Expr.ofText (textOf cells) >>= Expr.checked settings) = .error fault) :
    Fails cells fault := by
  rcases bind_eq_error.1 h with h | ⟨e, he, h⟩
  · rcases bind_eq_error.1 h with h | ⟨ls, hls, h⟩
    · -- no token begins
      obtain ⟨r, hr, rfl⟩ := mapError_eq_error.1 h
      obtain ⟨run, hcovers, hslice, hrejects⟩ := covers_of_rejected hf hr
      rw [Rejection.fault, hslice]
      exact .rejected hcovers hrejects
    · have hlies := lies_of_tokenize hf (mapError_eq_ok.1 hls)
      rcases ParserState.fault_of_run h with ⟨l, hl, expected, rfl⟩ | ⟨expected, rfl⟩
      · obtain ⟨run, hcovers, hspells⟩ := hlies.covers_token hl
        exact .unexpected hcovers hspells
      · exact .unexpectedEnd (hlies.covers_end hf (by simp))
  · obtain ⟨ls, hls, hparse⟩ := Expr.ofText_eq_ok_iff.1 he
    have hlies := liesOn_of_parse hf hls hparse
    rw [Expr.checked] at h
    split at h
    · obtain rfl := Except.error.inj h
      obtain ⟨run, hcovers⟩ := hlies.node e e.self_mem_nodes
      exact .tooDeep hcovers
    · split at h
      · rename_i cause hcause
        obtain rfl := Except.error.inj h
        exact .unresolved hlies (Expr.offends_of_resolutionFault? hcause)
      · exact absurd h (by simp)

/-- What is wrong with the text of cells lies on the cells. -/
theorem Fails.placed {fault : Fault} (h : Fails cells fault) : fault.PlacedOn cells := by
  cases h with
  | rejected hcovers _ => exact .of_covers rfl hcovers trivial
  | unexpected hcovers _ => exact .of_covers rfl hcovers trivial
  | unexpectedEnd hcovers => exact .of_covers rfl hcovers trivial
  | tooDeep hcovers => exact .of_covers rfl hcovers trivial
  | unresolved he hfault => exact he.placed_offence hfault

namespace Formula

/-- **Faults point at the source.** If a source has no formula, or its formula no value in some scope,
then the span that is reported, if there is one, is that of a slice of the source which the fault is
about. -/
theorem faults_point_into_source (settings : Settings) (source : String) :
    (∀ fault, ofSource settings source = .error fault → fault.PointsInto source) ∧
    ∀ f, ofSource settings source = .ok f → ∀ scope fault, f.evaluate scope = .error fault →
      fault.PointsInto source := by
  have hfenced := fenced_sourceCells source
  have htext := textOf_sourceCells source
  constructor
  · intro fault h
    rcases ofSource_eq_error_iff.1 h with ⟨-, rfl⟩ | ⟨-, cause, hcause, rfl⟩
    · exact fun s hs => absurd hs (by simp [Fault.span?])
    · rw [← htext] at hcause
      exact (fails_of_text hfenced hcause).placed.pointsInto
  · intro f hf scope fault h
    obtain ⟨-, ls, e, hls, hparse, -, hresolved, rfl⟩ := ofSource_eq_ok_iff.1 hf
    obtain ⟨cause, hcause, rfl⟩ := mapError_eq_error.1 h
    rw [← htext] at hls
    exact ((liesOn_of_parse hfenced hls hparse).placed_evaluate hresolved hcause).pointsInto

theorem faults_of_max_and_reference :
    (∃ fault, ofSource .standard "\x7b\x7bx\x7d\x7d + max()" = .error fault ∧
      fault.span? = some ⟨8, 13⟩ ∧ fault.PointsInto "\x7b\x7bx\x7d\x7d + max()") ∧
    ∃ f fault, ofSource .standard "\x7b\x7bx\x7d\x7d" = .ok f ∧ f.evaluate .empty = .error fault ∧
      fault.PointsInto "\x7b\x7bx\x7d\x7d" := by
  constructor
  · have htokens : tokenize (Template.ofSource "\x7b\x7bx\x7d\x7d + max()").text =
        .ok [⟨.name "__v_x", ⟨0, 5⟩⟩, ⟨.mark .plus, ⟨6, 7⟩⟩, ⟨.name "max", ⟨8, 11⟩⟩,
          ⟨.mark .leftParen, ⟨11, 12⟩⟩, ⟨.mark .rightParen, ⟨12, 13⟩⟩] := by with_unfolding_all rfl
    have hspan : (Template.ofSource "\x7b\x7bx\x7d\x7d + max()").toSource ⟨8, 13⟩ = ⟨8, 13⟩ := by
      with_unfolding_all rfl
    have hcause : (Expr.ofText (Template.ofSource "\x7b\x7bx\x7d\x7d + max()").text >>=
        Expr.checked .standard) = .error (.wrongCount "max" (.atLeast 1) 0 ⟨8, 13⟩) := by
      rw [Expr.ofText, htokens]
      rfl
    have hfault := ofSource_eq_error_iff.2 (.inr ⟨rfl, _, hcause, rfl⟩)
    refine ⟨_, hfault, ?_, (faults_point_into_source _ _).1 _ hfault⟩
    rw [Fault.span?_mapSpan]
    exact congrArg some hspan
  · have hf : ofSource .standard "\x7b\x7bx\x7d\x7d" = .ok _ :=
      ofSource_reference (v := "x") rfl (by decide)
    have hread : Scope.empty.read (identifierOf "x") (identifierSpan "x") =
        .error (Scope.empty.unboundFault "x" (identifierSpan "x")) := by
      rw [Scope.read, variableOf?_identifierOf]
      rfl
    have hfault : Formula.evaluate ⟨.symbol (identifierSpan "x") (identifierOf "x"),
        Template.ofSource (Fault.reference "x"), ["x"]⟩ .empty =
        .error ((Scope.empty.unboundFault "x" (identifierSpan "x")).mapSpan
          (Template.ofSource (Fault.reference "x")).toSource) := by
      simp only [evaluate, Expr.evaluate, Expr.value, hread, mapError_error]
    exact ⟨_, _, hf, hfault, (faults_point_into_source _ _).2 _ hf .empty _ hfault⟩

end Formula
end Formulary
