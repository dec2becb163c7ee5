import Formulary.Proofs.Formula.Compilation
/-!
# Sources with one name

The formula of a reference by itself, and that of an identifier that stands bare by itself. Both have the
same expression, but only the reference is listed as a variable (`Formula.ofSource_reference`,
`Formula.ofSource_identifier`).
-/

namespace Formulary

open Result

lemma toList_identifierOf (v : String) : (identifierOf v).toList = variablePrefix ++ v.toList :=
  String.toList_ofList

/-- The span of an identifier at the beginning of a text. -/
def identifierSpan (v : String) : Span :=
  ⟨0, byteLength (identifierOf v).toList⟩

/-! ## Identifiers and references as texts -/

section
variable {v : String}

lemma ne_brace_of_mem_identifier (hv : isName v = true) : ∀ c ∈ (identifierOf v).toList, c ≠ '{' := by
  intro c hc
  rw [toList_identifierOf] at hc
  have hchar := isNameChar_of_mem_identifier hv c hc
  rintro rfl
  exact absurd hchar (by decide)

lemma pieces_identifier (hv : isName v = true) :
    pieces (identifierOf v).toList = (identifierOf v).toList.map .char :=
  pieces_of_no_brace (ne_brace_of_mem_identifier hv)

lemma written_map_char (before : Option Char) (cs : List Char) : written before (cs.map .char) = cs := by
  induction cs generalizing before with
  | nil => rfl
  | cons c cs ih => rw [List.map_cons, written_char, ih]

lemma toList_reference (v : String) :
    (Fault.reference v).toList = (Piece.reference v.toList).source := by
  simp [Fault.reference, Piece.source]

lemma pieces_reference (hv : isName v = true) :
    pieces (Fault.reference v).toList = [.reference v.toList] := by
  have h := pieces_reference_append hv []
  rw [List.append_nil, pieces] at h
  rw [toList_reference, h]

lemma gaps_identifier (hv : isName v = true) :
    gaps (identifierOf v) = [(identifierOf v).toList] := by
  have hlead := lead_map_char_append (identifierOf v).toList []
  have hlinks := links_map_char_append (identifierOf v).toList []
  rw [List.append_nil] at hlead hlinks
  rw [gaps, pieces_identifier hv, hlead, hlinks, lead, List.append_nil, links, List.map_nil]

lemma gaps_reference (hv : isName v = true) : gaps (Fault.reference v) = [[], []] := by
  rw [gaps, pieces_reference hv]
  rfl

lemma variablesOf_identifier (hv : isName v = true) : variablesOf (identifierOf v) = [] := by
  refine List.eq_nil_iff_forall_not_mem.2 fun n hn => ?_
  rw [mem_variablesOf, pieces_identifier hv, List.mem_map] at hn
  obtain ⟨c, -, hc⟩ := hn
  exact absurd hc (by simp)

lemma variablesOf_reference (hv : isName v = true) : variablesOf (Fault.reference v) = [v] := by
  rw [variablesOf, pieces_reference hv]
  simp [Piece.name?, sortedNames, insertName]

lemma isBlankText_identifier (v : String) : isBlankText (identifierOf v) = false := by
  rw [isBlankText, toList_identifierOf]
  rfl

lemma isBlankText_reference (v : String) : isBlankText (Fault.reference v) = false := by
  rw [isBlankText, toList_reference]
  rfl

/-! ## Names that stand bare -/

/-- A name stands bare in an identifier exactly if it is the identifier. -/
lemma standsBare_identifier_iff (hv : isName v = true) {n : String} :
    StandsBare (identifierOf v) n ↔ n = identifierOf v := by
  have htokens : tokensOf (identifierOf v).toList = some [.name (identifierOf v)] := by
    have h := tokensOf_name_append (isNameText_identifier hv) (wordToken_identifier v.toList)
      Stops.nil
    rw [List.append_nil, tokensOf_nil] at h
    rw [toList_identifierOf, h]
    rfl
  rw [StandsBare, gaps_identifier hv]
  constructor
  · rintro ⟨gap, hgap, ts, hts, hn⟩
    obtain rfl := List.mem_singleton.1 hgap
    obtain rfl := Option.some.inj (htokens.symm.trans hts)
    exact Token.name.inj (List.mem_singleton.1 hn)
  · rintro rfl
    exact ⟨_, List.mem_singleton.2 rfl, _, htokens, List.mem_singleton.2 rfl⟩

lemma not_standsBare_reference (hv : isName v = true) (n : String) :
    ¬ StandsBare (Fault.reference v) n := by
  rw [StandsBare, gaps_reference hv]
  rintro ⟨gap, hgap, ts, hts, hn⟩
  obtain rfl : gap = [] := by simpa using hgap
  rw [tokensOf_nil] at hts
  obtain rfl := Option.some.inj hts
  exact absurd hn List.not_mem_nil

/-! ## Their formulas -/

/-- The formula of a source that is turned into an identifier. -/
lemma Formula.ofSource_of_text {settings : Settings} {source : String} (hv : isName v = true)
    (hblank : isBlankText source = false) (hdepth : 0 < settings.maxDepth)
    (htext : (Template.ofSource source).text = (identifierOf v).toList) :
    ofSource settings source = .ok ⟨.symbol (identifierSpan v) (identifierOf v),
      Template.ofSource source, variablesOf source⟩ := by
  have htokens : tokenize (Template.ofSource source).text =
      .ok [⟨.name (identifierOf v), identifierSpan v⟩] := by
    rw [htext, identifierSpan, toList_identifierOf]
    exact tokenize_name (isNameText_identifier hv) (wordToken_identifier v.toList)
  refine ofSource_eq_ok_iff.2 ⟨hblank, _, _, htokens, rfl, ?_, ⟨?_, ?_, ?_⟩, rfl⟩
  · rw [Expr.exceeds]
    exact decide_eq_false (by omega)
  · simp [Expr.unknown?, Expr.symbol?, isKnown]
  · simp [Expr.quotedText?]
  · simp [Expr.callFault?]

/-- A reference by itself is a formula, and its variable is listed. -/
theorem Formula.ofSource_reference {settings : Settings} (hv : isName v = true)
    (hdepth : 0 < settings.maxDepth) :
    ofSource settings (Fault.reference v) = .ok ⟨.symbol (identifierSpan v) (identifierOf v),
      Template.ofSource (Fault.reference v), [v]⟩ := by
  have htext : (Template.ofSource (Fault.reference v)).text = (identifierOf v).toList := by
    change written none (pieces (Fault.reference v).toList) = _
    rw [pieces_reference hv, written_reference, toList_identifierOf]
    simp [separator, nextChar?]
  rw [ofSource_of_text hv (isBlankText_reference v) hdepth htext, variablesOf_reference hv]

/-- An identifier by itself is a formula with the same expression, but no variable is listed. -/
theorem Formula.ofSource_identifier {settings : Settings} (hv : isName v = true)
    (hdepth : 0 < settings.maxDepth) :
    ofSource settings (identifierOf v) = .ok ⟨.symbol (identifierSpan v) (identifierOf v),
      Template.ofSource (identifierOf v), []⟩ := by
  have htext : (Template.ofSource (identifierOf v)).text = (identifierOf v).toList := by
    change written none (pieces (identifierOf v).toList) = _
    rw [pieces_identifier hv, written_map_char]
  rw [ofSource_of_text hv (isBlankText_identifier v) hdepth htext, variablesOf_identifier hv]

/-! ## What a reference and an identifier come to -/

/-- A reference by itself comes to the number that its variable is bound to, if it is finite. -/
lemma evaluateSource_reference {settings : Settings} {scope : Scope} {x : Float}
    (hv : isName v = true) (hdepth : 0 < settings.maxDepth) (hget : scope.get? v = some x)
    (hx : x.isFinite = true) : evaluateSource settings (Fault.reference v) scope = .ok x := by
  have hread : scope.read (identifierOf v) (identifierSpan v) = .ok x := by
    rw [Scope.read, variableOf?_identifierOf]
    simp only [hget]
  rw [evaluateSource, Formula.ofSource_reference hv hdepth]
  simp only [Formula.evaluate, Expr.evaluate, Expr.value, hread, hx, if_true, mapError_ok]

lemma passagesFrom_map_char (source position : Nat) (before : Option Char) (cs : List Char) :
    passagesFrom source position (replacements before (cs.map .char)) = [] := by
  induction cs generalizing source position before with
  | nil => rfl
  | cons c cs ih =>
    rw [List.map_cons, replacements, passagesFrom]
    exact ih _ _ _

lemma toSource_identifier (hv : isName v = true) (s : Span) :
    (Template.ofSource (identifierOf v)).toSource s = s := by
  have hpassages : (Template.ofSource (identifierOf v)).passages = [] := by
    change passagesFrom 0 0 (replacements none (pieces (identifierOf v).toList)) = []
    rw [pieces_identifier hv, passagesFrom_map_char]
  rw [Template.toSource, hpassages]
  rfl

/-- In a scope without the variable, evaluation of a bare identifier reports it where it stands. -/
lemma evaluateSource_identifier {settings : Settings} {scope : Scope} (hv : isName v = true)
    (hdepth : 0 < settings.maxDepth) (hfree : scope.get? v = none) :
    evaluateSource settings (identifierOf v) scope =
      .error (scope.unboundFault v (identifierSpan v)) := by
  have hread : scope.read (identifierOf v) (identifierSpan v) =
      .error (scope.unboundFault v (identifierSpan v)) := by
    rw [Scope.read, variableOf?_identifierOf]
    simp only [hfree]
  rw [evaluateSource, Formula.ofSource_identifier hv hdepth]
  simp only [Formula.evaluate, Expr.evaluate, Expr.value, hread, mapError_error,
    Scope.unboundFault, Fault.mapSpan, Option.map_some, toSource_identifier hv]

end

end Formulary
