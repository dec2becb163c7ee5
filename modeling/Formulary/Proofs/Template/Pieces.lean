import Formulary.Proofs.Token.Juxtaposition
import Formulary.Template
/-!
# The pieces of a source

A reference that is written out is found again (`pieces_reference_append`), what begins with no brace is
no reference (`pieces_of_no_brace`), and each reference that is found has a name
(`isNameText_of_mem_pieces`). The names of the references are the variables of the source
(`mem_variablesOf`).
-/

namespace Formulary

/-! ## What the pieces of a text are -/

lemma scanReference_append {name : List Char} (hname : isNameText name = true) (rest : List Char) :
    scanReference ((Piece.reference name).source ++ rest) = some (name, rest) := by
  have hchars := isNameChar_of_mem_isNameText hname
  have hstops : Stops isNameChar ('}' :: '}' :: rest) := stops_cons.2 rfl
  have htake : (name ++ '}' :: '}' :: rest).takeWhile isNameChar = name := by
    rw [takeWhile_append_of_stops fun _ => hstops, List.takeWhile_eq_self_iff.2 hchars]
  have hdrop : (name ++ '}' :: '}' :: rest).dropWhile isNameChar = '}' :: '}' :: rest := by
    rw [dropWhile_append_of_stops fun _ => hstops, List.dropWhile_eq_nil_iff.2 hchars,
      List.nil_append]
  simp [scanReference, Piece.source, htake, hdrop, hname]

lemma scanReference_eq_none {c : Char} {cs : List Char} (h : c ≠ '{') :
    scanReference (c :: cs) = none := by
  unfold scanReference
  split
  · rename_i heq
    exact absurd (List.cons.inj heq).1 h
  · rfl

lemma pieces_reference_append {name : List Char} (hname : isNameText name = true)
    (rest : List Char) :
    pieces ((Piece.reference name).source ++ rest) = .reference name :: pieces rest := by
  have hscan := scanReference_append hname rest
  have hcons : (Piece.reference name).source ++ rest = '{' :: ('{' :: name ++ ['}', '}'] ++ rest) := rfl
  rw [hcons] at hscan ⊢
  rw [pieces]
  split
  · rename_i n more h
    obtain ⟨rfl, rfl⟩ := Prod.mk.inj (Option.some.inj (hscan.symm.trans h))
    rfl
  · rename_i h
    exact absurd (hscan.symm.trans h) (by simp)

lemma pieces_of_no_brace {cs : List Char} (h : ∀ c ∈ cs, c ≠ '{') : pieces cs = cs.map .char := by
  induction cs with
  | nil => rw [pieces, List.map_nil]
  | cons c cs ih =>
    have hscan : scanReference (c :: cs) = none := scanReference_eq_none (h c List.mem_cons_self)
    rw [pieces, List.map_cons]
    split
    · rename_i n more hsome
      exact absurd (hscan.symm.trans hsome) (by simp)
    · rw [ih fun d hd => h d (List.mem_cons_of_mem c hd)]

/-! ## The references of a source -/

lemma isNameText_of_mem_pieces {name cs : List Char} (h : Piece.reference name ∈ pieces cs) :
    isNameText name = true := by
  fun_induction pieces cs with
  | case1 => exact absurd h List.not_mem_nil
  | case2 c cs n rest hscan ih =>
    rcases List.mem_cons.1 h with h | h
    · obtain rfl := Piece.reference.inj h
      exact isNameText_of_scanReference hscan
    · exact ih h
  | case3 c cs _ ih =>
    rcases List.mem_cons.1 h with h | h
    · exact absurd h (by simp)
    · exact ih h

lemma mem_filterMap_name? {ps : List Piece} {name : String} :
    name ∈ ps.filterMap Piece.name? ↔ Piece.reference name.toList ∈ ps := by
  rw [List.mem_filterMap]
  constructor
  · rintro ⟨p, hp, hname⟩
    cases p with
    | char c => exact absurd hname (by simp [Piece.name?])
    | reference n =>
      obtain rfl : String.ofList n = name := by simpa [Piece.name?] using hname
      rwa [String.toList_ofList]
  · intro h
    exact ⟨_, h, by simp [Piece.name?]⟩

lemma mem_variablesOf {source name : String} :
    name ∈ variablesOf source ↔ Piece.reference name.toList ∈ pieces source.toList := by
  rw [variablesOf, mem_sortedNames, mem_filterMap_name?]

end Formulary
