import Formulary.Proofs.Formula.Diagnostics
import Formulary.Proofs.Token.Display
/-!
# What messages show of identifiers

A message that names a variable names it as the user does. A message that quotes a text does not: it
shows the text in which the references have been replaced, and what its escapes stand for. So the
message of a fault shows the identifier of a variable exactly if the fault quotes a text that holds a
reference, or one whose escapes make up the prefix (`messages_show_prefix_iff`).
-/

namespace Formulary

open Result

/-- A reference is written in a slice of a source. -/
def HoldsReference (cs : List Char) : Prop :=
  ∃ name, isName name = true ∧ (Fault.reference name).toList <:+: cs

/-- A fault quotes a text of the source that holds a reference, or whose escapes make up the prefix of
identifiers. -/
def Fault.Leaks (source : String) : Fault → Prop
  | badCharacter _ s => ∃ q inner, isQuote q = true ∧ Cuts source.toList s (q :: inner) ∧
    HoldsReference inner
  | unexpected (.text _) _ s => ∃ q inner, isQuote q = true ∧
    Cuts source.toList s (q :: (inner ++ [q])) ∧ (HoldsReference inner ∨ ShowsPrefix (unescape inner))
  | _ => False

/-! ## Messages about a slice -/

/-- What stands in a source that does not show the prefix does not show it. -/
lemma Covers.not_showsPrefix {source : String} {s : Span} {run : List Cell}
    (h : Covers (sourceCells source) s run) (hsource : ¬ ShowsPrefix source.toList) :
    ¬ ShowsPrefix (sourceOf run) :=
  fun hrun => hsource (hrun.trans (cuts_toSource h).isInfix)

namespace Fault

variable {slice : List Char} {source : String} {fault : Fault}

/-- A message that quotes no text shows no more than the slice that the fault is about. -/
lemma not_showsPrefix_of_shows (h : fault.Shows slice) (hslice : ¬ ShowsPrefix slice)
    (hkind : fault.kind ≠ .parse) : ¬ ShowsPrefix fault.message.toList := by
  have hreference : ∀ name, slice = (reference name).toList ∨ slice = (identifierOf name).toList →
      ¬ ShowsPrefix name.toList := by
    rintro name (rfl | rfl)
    · rwa [showsPrefix_reference] at hslice
    · exact absurd (showsPrefix_identifierOf name) hslice
  cases fault with
  | unknownSymbol name s suggestion =>
    obtain rfl : slice = name.toList := h
    show ¬ ShowsPrefix ("Unknown symbol \"" ++ name ++ "\". Reference inputs as " ++ reference name ++
      ".").toList
    simp only [String.toList_append]
    rw [showsPrefix_append_right (by simp), showsPrefix_append_between (c := '"') (by simp) (by simp)
      (by decide), showsPrefix_append_left (by simp), showsPrefix_reference, or_self]
    exact hslice
  | unbound name s suggestion =>
    show ¬ ShowsPrefix ("No value for " ++ reference name ++ " in scope").toList
    simp only [String.toList_append]
    rw [showsPrefix_append_right (by simp), showsPrefix_append_left (by simp), showsPrefix_reference]
    exact hreference name h
  | notFunction name s =>
    show ¬ ShowsPrefix ("\"" ++ name ++ "\" is not a function").toList
    simp only [String.toList_append]
    rw [showsPrefix_append_right (by simp), showsPrefix_append_left (by simp)]
    rcases h with rfl | h
    · exact hslice
    · exact hreference name h
  | wrongCount function arity count s =>
    show ¬ ShowsPrefix ("Function " ++ function ++ " expects " ++ arity.shown ++
      " argument(s), got " ++ toString count).toList
    simp only [String.toList_append]
    rw [showsPrefix_append_right (underscore_not_mem_toString count),
      showsPrefix_append_right (by simp), showsPrefix_append_right (underscore_not_mem_arity arity),
      showsPrefix_append_right (by simp), showsPrefix_append_left (by simp)]
    obtain ⟨inner, rfl⟩ := h
    exact fun hfunction => hslice (List.infix_append_of_infix_left hfunction)
  | quotedText s =>
    show ¬ ShowsPrefix "Expressions must resolve to numeric values, not quoted text.".toList
    exact not_showsPrefix_of_not_mem (by simp)
  | blank =>
    show ¬ ShowsPrefix "No expression".toList
    exact not_showsPrefix_of_not_mem (by simp)
  | notFinite x =>
    show ¬ ShowsPrefix "Expression did not resolve to a finite number".toList
    exact not_showsPrefix_of_not_mem (by simp)
  | badCharacter _ _ => exact absurd rfl hkind
  | unexpected _ _ _ => exact absurd rfl hkind
  | unexpectedEnd _ _ => exact absurd rfl hkind
  | tooDeep _ => exact absurd rfl hkind
  | badTree _ => exact absurd rfl hkind

/-- In a source that does not show the prefix, neither does the message of a fault that quotes no
text. -/
lemma PlacedOn.not_showsPrefix {s : Span} (h : fault.PlacedOn (sourceCells source))
    (hspan : fault.span? = some s) (hkind : fault.kind ≠ .parse)
    (hsource : ¬ ShowsPrefix source.toList) : ¬ ShowsPrefix fault.message.toList := by
  obtain ⟨run, hcovers, hshows⟩ := h s hspan
  exact not_showsPrefix_of_shows hshows (hcovers.not_showsPrefix hsource) hkind

lemma Leaks.kind (h : fault.Leaks source) : fault.kind = .parse := by
  cases fault with
  | badCharacter _ _ => rfl
  | unexpected _ _ _ => rfl
  | _ => exact h.elim

lemma Leaks.exists_quote (h : fault.Leaks source) : ∃ q ∈ source.toList, isQuote q = true := by
  have hmem : ∀ {q s rest}, Cuts source.toList s (q :: rest) → q ∈ source.toList :=
    fun hcut => hcut.isInfix.subset List.mem_cons_self
  cases fault with
  | badCharacter _ s =>
    obtain ⟨q, inner, hq, hcut, -⟩ := h
    exact ⟨q, hmem hcut, hq⟩
  | unexpected t _ s =>
    cases t with
    | text t =>
      obtain ⟨q, inner, hq, hcut, -⟩ := h
      exact ⟨q, hmem hcut, hq⟩
    | _ => exact h.elim
  | _ => exact h.elim

lemma leaks_suggestFrom {scope : Scope} :
    (fault.suggestFrom scope).Leaks source ↔ fault.Leaks source := by
  cases fault with
  | unknownSymbol name s suggestion =>
    rw [suggestFrom]
    split <;> exact Iff.rfl
  | _ => exact Iff.rfl

end Fault

/-! ## Quoted texts -/

lemma showsPrefix_textOf {run : List Cell} {name : List Char} (h : .reference name ∈ run) :
    ShowsPrefix (textOf run) := by
  obtain ⟨first, last, rfl⟩ := List.append_of_mem h
  exact ⟨textOf first, name ++ textOf last, by simp [Cell.written]⟩

lemma holdsReference_sourceOf {run : List Cell} {name : List Char} (hname : isNameText name = true)
    (h : .reference name ∈ run) : HoldsReference (sourceOf run) := by
  obtain ⟨first, last, rfl⟩ := List.append_of_mem h
  refine ⟨String.ofList name, by rwa [isName, String.toList_ofList], sourceOf first, sourceOf last, ?_⟩
  rw [toList_reference, String.toList_ofList]
  simp [Cell.source]

/-- Undoing the escapes of a text leaves the prefix in it. -/
lemma showsPrefix_unescape {cs : List Char} (h : ShowsPrefix cs) : ShowsPrefix (unescape cs) := by
  obtain ⟨first, last, rfl⟩ := h
  rw [List.append_assoc]
  fun_induction unescape first with
  | case1 c first ih => exact List.infix_cons ih
  | case2 c first hc ih =>
    by_cases hescape : c = '\\'
    · -- a backslash in front of the prefix takes its first character with it
      subst hescape
      cases first with
      | nil => exact ⟨[], unescape last, rfl⟩
      | cons d first => exact absurd rfl (hc d first rfl)
    · rw [List.cons_append, unescape]
      · exact List.infix_cons ih
      · exact fun d _ h => absurd h hescape
  | case3 => exact ⟨[], unescape last, rfl⟩

/-- Either a quoted text holds a reference, and shows the prefix, or it shows what stands in the
source. -/
lemma Covers.quoted_cases {source : String} {s : Span} {q : Char} (inner : List Cell)
    (closing : List Char)
    (h : Covers (sourceCells source) s (.char q :: (inner ++ closing.map .char))) :
    (ShowsPrefix (textOf inner) ∧ HoldsReference (sourceOf inner)) ∨
      (textOf inner = sourceOf inner ∧ ¬ HoldsReference (sourceOf inner) ∧
        q :: (sourceOf inner ++ closing) <:+: source.toList) := by
  have hcut := cuts_toSource h
  by_cases hinner : ∃ name, .reference name ∈ inner
  · obtain ⟨name, hname⟩ := hinner
    obtain ⟨pre, post, hcells, -⟩ := h
    have hmem : .reference name ∈ sourceCells source := by
      rw [hcells]
      simp [hname]
    have hvalid := (fenced_sourceCells source).isNameText hmem
    exact .inl ⟨showsPrefix_textOf hname, holdsReference_sourceOf hvalid hname⟩
  · have hrun : ∀ name, .reference name ∉ Cell.char q :: (inner ++ closing.map .char) := by
      intro name hname
      exact hinner ⟨name, by simpa using hname⟩
    obtain ⟨cs, hcs, hnone⟩ := h.eq_map_char hrun
    have htext := congrArg textOf hcs
    have hsource := congrArg sourceOf hcs
    rw [textOf_map_char] at htext
    rw [sourceOf_map_char] at hsource
    subst htext
    simp only [textOf_cons, textOf_append, textOf_map_char, sourceOf_cons, sourceOf_append,
      sourceOf_map_char, Cell.written, Cell.source, List.singleton_append, List.cons.injEq,
      List.append_cancel_right_eq, true_and] at hsource hnone hcut
    refine .inr ⟨hsource.symm, ?_, ?_⟩
    · rintro ⟨name, hname, hinfix⟩
      rw [toList_reference, hsource] at hinfix
      exact hnone _ hname (List.infix_cons (List.infix_append_of_infix_left hinfix))
    · exact hcut.isInfix

/-! ## Faults that quote -/

section
variable {source : String} {s : Span} {q : Char} {inner : List Char} {t : String}
  {expected : List Terminal}

lemma showsPrefix_badCharacter {slice : String} :
    ShowsPrefix (Fault.badCharacter slice s).message.toList ↔ ShowsPrefix slice.toList := by
  show ShowsPrefix ("Unexpected character " ++ quoted slice).toList ↔ _
  rw [String.toList_append, showsPrefix_append_left (by simp), showsPrefix_quoted]

lemma showsPrefix_unexpected {t : Token} :
    ShowsPrefix (Fault.unexpected t expected s).message.toList ↔ ShowsPrefix t.shown.toList := by
  show ShowsPrefix ("Unexpected `" ++ t.shown ++ "`" ++ Fault.expectedText expected).toList ↔ _
  simp only [String.toList_append]
  rw [showsPrefix_append_right (underscore_not_mem_expectedText expected),
    showsPrefix_append_right (by simp), showsPrefix_append_left (by simp)]

lemma leaks_badCharacter_iff {slice : String} (hq : isQuote q = true)
    (h : Cuts source.toList s (q :: inner)) :
    (Fault.badCharacter slice s).Leaks source ↔ HoldsReference inner := by
  constructor
  · rintro ⟨q', inner', -, h', hinner⟩
    obtain ⟨-, rfl⟩ := List.cons.inj (h.unique h')
    exact hinner
  · exact fun hinner => ⟨q, inner, hq, h, hinner⟩

lemma leaks_text_iff (hq : isQuote q = true) (h : Cuts source.toList s (q :: (inner ++ [q]))) :
    (Fault.unexpected (.text t) expected s).Leaks source ↔
      HoldsReference inner ∨ ShowsPrefix (unescape inner) := by
  constructor
  · rintro ⟨q', inner', -, h', hinner⟩
    obtain ⟨rfl, hclosed⟩ := List.cons.inj (h.unique h')
    obtain rfl := List.append_cancel_right hclosed
    exact hinner
  · exact fun hinner => ⟨q, inner, hq, h, hinner⟩

end

/-! ## Faults of a source -/

/-- An offence lies somewhere, and no token is out of place. -/
lemma Expr.Offends.span {e : Expr} {fault : Fault} (h : e.Offends fault) :
    ∃ s, fault.span? = some s ∧ fault.kind ≠ .parse := by
  cases h with
  | unknown _ _ => exact ⟨_, rfl, nofun⟩
  | quoted _ => exact ⟨_, rfl, nofun⟩
  | notFunction _ => exact ⟨_, rfl, nofun⟩
  | wrongCount _ _ => exact ⟨_, rfl, nofun⟩

section
variable {source : String} {s : Span} {run : List Cell} {fault : Fault}

/-- A name is shown as it stands in the source. -/
lemma not_showsPrefix_shownName {name : String} (hsource : ¬ ShowsPrefix source.toList)
    (hcovers : Covers (sourceCells source) s run) (hspells : Spells (.name name) run) :
    ¬ ShowsPrefix (shownName name).toList := by
  have hslice := hcovers.not_showsPrefix hsource
  rcases hspells with rfl | ⟨v, rfl, rfl⟩
  · rw [sourceOf_map_char] at hslice
    rw [shownName]
    split
    · rename_i v hv
      rw [← identifierOf_of_variableOf? hv] at hslice
      exact absurd (showsPrefix_identifierOf v) hslice
    · exact hslice
  · have hshown : (shownName (identifierOf (String.ofList v))).toList = sourceOf [.reference v] := by
      rw [shownName, variableOf?_identifierOf]
      simp [Cell.source, Piece.source]
    rwa [hshown]

lemma showsPrefix_rejected_iff (hsource : ¬ ShowsPrefix source.toList)
    (hcovers : Covers (sourceCells source) s run) (hrejects : Rejects run) :
    ShowsPrefix (Fault.badCharacter (String.ofList (textOf run)) s).message.toList ↔
      (Fault.badCharacter (String.ofList (textOf run)) ((Template.ofSource source).toSource s)).Leaks
        source := by
  have hcut := cuts_toSource hcovers
  rw [showsPrefix_badCharacter, String.toList_ofList]
  rcases hrejects with ⟨c, rfl, hc⟩ | ⟨q, inner, hq, rfl⟩
  · -- one character, and no quote
    have hshort : ¬ ShowsPrefix [c] := fun hshows => absurd hshows.length_le (by simp [variablePrefix])
    refine iff_of_false hshort ?_
    rintro ⟨q, inner, hq, h', -⟩
    obtain ⟨rfl, -⟩ := List.cons.inj (hcut.unique h')
    rw [hq] at hc
    exact absurd hc (by simp)
  · have hcases := Covers.quoted_cases inner [] (by simpa using hcovers)
    rw [leaks_badCharacter_iff hq hcut]
    rcases hcases with ⟨hshows, hholds⟩ | ⟨htext, hnone, hinfix⟩
    · exact iff_of_true (List.infix_cons hshows) hholds
    · refine iff_of_false (fun hshows => hsource (hshows.trans ?_)) hnone
      simpa [Cell.written, htext] using hinfix

lemma showsPrefix_unexpected_iff {t : Token} {expected : List Terminal}
    (hsource : ¬ ShowsPrefix source.toList) (hcovers : Covers (sourceCells source) s run)
    (hspells : Spells t run) :
    ShowsPrefix (Fault.unexpected t expected s).message.toList ↔
      (Fault.unexpected t expected ((Template.ofSource source).toSource s)).Leaks source := by
  rw [showsPrefix_unexpected]
  cases t with
  | number x => exact iff_of_false (not_showsPrefix_of_not_mem (underscore_not_mem_numberText x)) id
  | mark m => exact iff_of_false (not_showsPrefix_of_not_mem (underscore_not_mem_spelling m)) id
  | name n => exact iff_of_false (not_showsPrefix_shownName hsource hcovers hspells) id
  | text t =>
    obtain ⟨q, inner, hq, rfl, rfl⟩ := hspells
    have hcut : Cuts source.toList ((Template.ofSource source).toSource s)
        (q :: (sourceOf inner ++ [q])) := by
      simpa [Cell.source] using cuts_toSource hcovers
    have hcases := Covers.quoted_cases inner [q] (by simpa using hcovers)
    rw [leaks_text_iff hq hcut, Token.shown, showsPrefix_quoted, String.toList_ofList]
    rcases hcases with ⟨hshows, hholds⟩ | ⟨htext, hnone, -⟩
    · exact iff_of_true (showsPrefix_unescape hshows) (.inl hholds)
    · rw [htext]
      exact (or_iff_right hnone).symm

/-- **What is wrong with a text shows the prefix exactly if it leaks.** -/
theorem Fails.showsPrefix_iff (h : Fails (sourceCells source) fault)
    (hsource : ¬ ShowsPrefix source.toList) :
    ShowsPrefix fault.message.toList ↔
      (fault.mapSpan (Template.ofSource source).toSource).Leaks source := by
  cases h with
  | rejected hcovers hrejects => exact showsPrefix_rejected_iff hsource hcovers hrejects
  | unexpected hcovers hspells => exact showsPrefix_unexpected_iff hsource hcovers hspells
  | @unexpectedEnd s expected hcovers =>
    refine iff_of_false (not_showsPrefix_of_not_mem ?_) id
    have hexpected := underscore_not_mem_expectedText expected
    show '_' ∉ ("Unexpected end of expression" ++ Fault.expectedText expected).toList
    simp [hexpected]
  | tooDeep _ =>
    refine iff_of_false (not_showsPrefix_of_not_mem ?_) id
    show '_' ∉ "expression nested too deeply".toList
    simp
  | unresolved he hfault =>
    obtain ⟨s, hspan, hkind⟩ := hfault.span
    refine iff_of_false ((he.placed_offence hfault).not_showsPrefix hspan hkind hsource) ?_
    intro hleaks
    exact hkind (by simpa using hleaks.kind)

/-- What goes wrong in an evaluation neither shows the prefix nor leaks. -/
lemma Expr.LiesOn.not_showsPrefix {e : Expr} {scope : Scope} (h : e.LiesOn (sourceCells source))
    (he : e.Resolved) (hsource : ¬ ShowsPrefix source.toList)
    (hfault : e.evaluate scope = .error fault) :
    fault.kind ≠ .parse ∧ ¬ ShowsPrefix fault.message.toList := by
  have hplaced := h.placed_evaluate he hfault
  have houtcome := evaluate_of_resolved he scope
  rw [hfault] at houtcome
  cases houtcome with
  | notFinite _ =>
    refine ⟨nofun, not_showsPrefix_of_not_mem ?_⟩
    show '_' ∉ "Expression did not resolve to a finite number".toList
    simp
  | reserved _ => exact ⟨nofun, hplaced.not_showsPrefix rfl nofun hsource⟩
  | unbound _ _ => exact ⟨nofun, hplaced.not_showsPrefix rfl nofun hsource⟩

end

/-- The message of a source that has no formula shows the prefix exactly if the fault leaks. -/
theorem Formula.showsPrefix_of_source_iff {settings : Settings} {source : String} {fault : Fault}
    (h : ofSource settings source = .error fault) (hsource : ¬ ShowsPrefix source.toList) :
    ShowsPrefix fault.message.toList ↔ fault.Leaks source := by
  rcases ofSource_eq_error_iff.1 h with ⟨-, rfl⟩ | ⟨-, cause, hcause, rfl⟩
  · refine iff_of_false (not_showsPrefix_of_not_mem ?_) id
    show '_' ∉ "No expression".toList
    simp
  · rw [← textOf_sourceCells] at hcause
    rw [Fault.message_mapSpan]
    exact (fails_of_text (fenced_sourceCells source) hcause).showsPrefix_iff hsource

/-- The message of a formula of a source that has no value in a scope never shows the prefix. -/
theorem Formula.not_showsPrefix_of_evaluate {settings : Settings} {source : String} {f : Formula}
    {scope : Scope} {fault : Fault} (hf : ofSource settings source = .ok f)
    (h : f.evaluate scope = .error fault) (hsource : ¬ ShowsPrefix source.toList) :
    fault.kind ≠ .parse ∧ ¬ ShowsPrefix fault.message.toList := by
  obtain ⟨-, ls, e, hls, hparse, -, hresolved, rfl⟩ := ofSource_eq_ok_iff.1 hf
  obtain ⟨cause, hcause, rfl⟩ := mapError_eq_error.1 h
  rw [← textOf_sourceCells] at hls
  rw [Fault.kind_mapSpan, Fault.message_mapSpan]
  exact (liesOn_of_parse (fenced_sourceCells source) hls hparse).not_showsPrefix hresolved hsource hcause

/-- **A message shows the prefix of identifiers exactly if it quotes a text that holds a reference**, or
one whose escapes make up the prefix. This is so, unless the source writes the prefix itself, for what
an analysis reports and for what an evaluation reports in any scope. A source without quotes leaks
nothing. -/
theorem messages_show_prefix_iff (settings : Settings) (source : String)
    (hsource : ¬ ShowsPrefix source.toList) :
    (∀ message, (analyze settings source).error = some message →
      (ShowsPrefix message.toList ↔
        ∃ fault, Formula.ofSource settings source = .error fault ∧ fault.Leaks source)) ∧
    (∀ scope fault, evaluateSource settings source scope = .error fault →
      (ShowsPrefix fault.message.toList ↔ fault.Leaks source)) ∧
    ((∀ c ∈ source.toList, isQuote c = false) → ∀ fault : Fault, ¬ fault.Leaks source) := by
  refine ⟨?_, ?_, ?_⟩
  · intro message hmessage
    obtain ⟨fault, hfault, rfl⟩ := exists_fault_of_analyze hmessage
    rw [Formula.showsPrefix_of_source_iff hfault hsource, hfault]
    simp
  · intro scope fault h
    rw [evaluateSource] at h
    split at h
    · rename_i cause hcause
      obtain rfl := Except.error.inj h
      rw [Fault.message_suggestFrom, Fault.leaks_suggestFrom]
      exact Formula.showsPrefix_of_source_iff hcause hsource
    · rename_i f hf
      obtain ⟨hkind, hshows⟩ := Formula.not_showsPrefix_of_evaluate hf h hsource
      exact iff_of_false hshows fun hleaks => hkind hleaks.kind
  · intro hquotes fault hleaks
    obtain ⟨q, hmem, hq⟩ := hleaks.exists_quote
    rw [hquotes q hmem] at hq
    exact absurd hq (by simp)

theorem reference_shown_in_text :
    ∃ fault, evaluateSource .standard "x '\x7b\x7by\x7d\x7d'" .empty = .error fault ∧
      ShowsPrefix fault.message.toList := by
  have htokens : tokenize (Template.ofSource "x '\x7b\x7by\x7d\x7d'").text =
      .ok [⟨.name "x", ⟨0, 1⟩⟩, ⟨.text "__v_y", ⟨2, 9⟩⟩] := by with_unfolding_all rfl
  have hspan : (Template.ofSource "x '\x7b\x7by\x7d\x7d'").toSource ⟨2, 9⟩ = ⟨2, 9⟩ := by
    with_unfolding_all rfl
  obtain ⟨expected, hcause⟩ : ∃ expected,
      (Expr.ofText (Template.ofSource "x '\x7b\x7by\x7d\x7d'").text >>= Expr.checked .standard) =
        .error (.unexpected (.text "__v_y") expected ⟨2, 9⟩) := by
    rw [Expr.ofText, htokens]
    exact ⟨_, rfl⟩
  have hsource := Formula.ofSource_eq_error_iff.2 (.inr ⟨rfl, _, hcause, rfl⟩)
  rw [Fault.mapSpan, hspan] at hsource
  have hfault : evaluateSource .standard "x '\x7b\x7by\x7d\x7d'" .empty =
      .error (.unexpected (.text "__v_y") expected ⟨2, 9⟩) := by
    rw [evaluateSource, hsource]
    rfl
  refine ⟨_, hfault, ((messages_show_prefix_iff _ _ (by decide)).2.1 _ _ hfault).2 ?_⟩
  exact ⟨'\'', "\x7b\x7by\x7d\x7d".toList, rfl, ⟨"x ".toList, [], rfl, rfl⟩, .inl ⟨"y", rfl, [], [], rfl⟩⟩

theorem identifier_shown_in_unfinished_text :
    ¬ ShowsPrefix "\"\x7b\x7bx\x7d\x7d".toList ∧
      (analyze .standard "\"\x7b\x7bx\x7d\x7d").error =
        some "Unexpected character \"\\\"__v_x\"" ∧
      ShowsPrefix "Unexpected character \"\\\"__v_x\"".toList := by
  have htokens : tokenize (Template.ofSource "\"\x7b\x7bx\x7d\x7d").text =
      .error ⟨"\"__v_x".toList, ⟨0, 6⟩⟩ := by with_unfolding_all rfl
  have hcause : (Expr.ofText (Template.ofSource "\"\x7b\x7bx\x7d\x7d").text >>=
      Expr.checked .standard) = .error (.badCharacter "\"__v_x" ⟨0, 6⟩) := by
    rw [Expr.ofText, htokens]
    rfl
  have hsource := Formula.ofSource_eq_error_iff.2 (.inr ⟨rfl, _, hcause, rfl⟩)
  refine ⟨by decide, ?_, by decide⟩
  rw [analyze, hsource]
  rfl

end Formulary
