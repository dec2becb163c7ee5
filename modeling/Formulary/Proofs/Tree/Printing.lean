import Formulary.Proofs.Expr.Writing
import Formulary.Proofs.Template.Spelling
import Formulary.Proofs.Text.Trimming
import Formulary.Proofs.Tree.Mentions
/-!
# Trees as sources

A tree can be written as a source with all its parentheses (`Tree.source`): a variable as a reference, a
constant as its word, a chain of operands grouped to the left, and any other operation as its operator or
as a call. Each operation stands in parentheses, so that it writes its expression wherever it stands
(`Tree.prints_of_toExpr`).
-/

namespace Formulary

open Result

namespace Tree

/-! ## The source of a tree -/

/-- The characters of a text as pieces. -/
def chars (s : String) : List Piece :=
  s.toList.map .char

def inParentheses (ps : List Piece) : List Piece :=
  .char '(' :: (ps ++ [.char ')'])

/-- A prefix before its operand. -/
def unarySource (op : UnaryOp) (operand : List Piece) : List Piece :=
  inParentheses (chars op.mark.spelling ++ .char ' ' :: operand)

/-- An operator between its operands. -/
def binarySource (op : BinaryOp) (left right : List Piece) : List Piece :=
  inParentheses (left ++ .char ' ' :: (chars op.mark.spelling ++ .char ' ' :: right))

def conditionalSource (condition yes no : List Piece) : List Piece :=
  inParentheses (condition ++ .char ' ' :: (chars Mark.question.spelling ++ .char ' ' :: (yes ++
    .char ' ' :: (chars Mark.colon.spelling ++ .char ' ' :: no))))

/-- Arguments with commas between them. -/
def argumentsSource : List (List Piece) → List Piece
  | [] => []
  | [argument] => argument
  | argument :: arguments => argument ++ .char ',' :: .char ' ' :: argumentsSource arguments

def callSource (function : String) (arguments : List (List Piece)) : List Piece :=
  chars function ++ inParentheses (argumentsSource arguments)

/-- The source of a head that is applied to operands, if their number is right. -/
def Head.source : Head → List (List Piece) → List Piece
  | single op, [operand] => unarySource op operand
  | difference, [operand] => unarySource .neg operand
  | difference, [left, right] => binarySource .sub left right
  | pair op, [left, right] => binarySource op left right
  | chain op, operand :: operands => operands.foldl (binarySource op) operand
  | conditional, [condition, yes, no] => conditionalSource condition yes no
  | function name, operands => callSource name operands
  | _, _ => []

mutual

/-- The pieces of the source of a tree, in which numbers are written by `literal`. -/
def print (literal : Json.Number → List Char) : Json → List Piece
  | .number n => (literal n).map .char
  | .string name =>
    match constants.lookup name with
    | some word => chars word
    | none => [.reference name.toList]
  | .array (.string head :: operands) =>
    match heads.lookup head with
    | some h => h.source (printAll literal operands)
    | none => []
  | _ => []

/-- The pieces of the sources of operands. -/
def printAll (literal : Json.Number → List Char) : List Json → List (List Piece)
  | [] => []
  | v :: vs => print literal v :: printAll literal vs

end

/-- The source of a tree, in which numbers are written by `literal`. -/
def source (literal : Json.Number → List Char) (v : Json) : String :=
  String.ofList ((print literal v).flatMap Piece.source)

mutual

/-- The numbers in a tree, in order. -/
def numbers : Json → List Json.Number
  | .number n => [n]
  | .array items => numbersOfAll items
  | _ => []

/-- The numbers in trees, in order. -/
def numbersOfAll : List Json → List Json.Number
  | [] => []
  | v :: vs => numbers v ++ numbersOfAll vs

end

end Tree

/-- Characters are a numeral that stands for a number. -/
def Numeral.StandsFor (cs : List Char) (x : Float) : Prop :=
  ∃ n, Numeral.scan cs = some (n, []) ∧ n.value.toFloat = x

namespace Tree

/-! ## Pieces that spell tokens -/

/-- Pieces are found again in a source, and have tokens before anything that continues no word. -/
structure Spells (ps : List Piece) (ts : List Token) : Prop where
  plain : ∀ p ∈ ps, p.Plain
  tokens : ∀ rest, Ends rest → tokensOfPieces (ps ++ rest) = (tokensOfPieces rest).map (ts ++ ·)

lemma plain_chars {s : String} (h : s.toList.all (fun c => c != '{' && !isQuote c) = true) :
    ∀ p ∈ chars s, p.Plain := by
  refine plain_of_mem_map_char fun c hc => ?_
  simpa using List.all_eq_true.1 h c hc

lemma plain_char {c : Char} (h : c ∈ [' ', '(', ')', ',']) : (Piece.char c).Plain := by
  have hall : [' ', '(', ')', ','].all (fun d => d != '{' && !isQuote d) = true := rfl
  simpa [Piece.Plain] using List.all_eq_true.1 hall c h

namespace Spells

variable {ps qs : List Piece} {ts us : List Token}

lemma nil : Spells [] [] where
  plain := by simp
  tokens rest _ := by simp

lemma reference {name : List Char} (h : isNameText name = true) :
    Spells [.reference name] [.name (identifierOf (String.ofList name))] where
  plain := by simpa [Piece.Plain] using h
  tokens rest _ := tokensOfPieces_reference

lemma numeral {cs : List Char} {x : Float} (h : Numeral.StandsFor cs x) :
    Spells (cs.map .char) [.number x] where
  plain := by
    obtain ⟨n, hscan, rfl⟩ := h
    have htext := Numeral.text_of_scan hscan
    rw [List.append_nil] at htext
    refine plain_of_mem_map_char fun c hc => ?_
    have hchar : Numeral.isNumeralChar c = true := Numeral.isNumeralChar_of_mem_scan hscan c (htext ▸ hc)
    refine ⟨?_, isQuote_eq_false_of rfl rfl hchar⟩
    rintro rfl
    exact absurd hchar (by decide)
  tokens rest hrest := by
    obtain ⟨n, hscan, rfl⟩ := h
    exact tokensOfPieces_numeral hscan (hrest.stops rfl)

/-- One after the other, with a blank between them. -/
lemma append_blank (h : Spells ps ts) (h' : Spells qs us) :
    Spells (ps ++ .char ' ' :: qs) (ts ++ us) where
  plain := by
    rw [List.forall_mem_append, List.forall_mem_cons]
    exact ⟨h.plain, plain_char (by decide), h'.plain⟩
  tokens rest hrest := by
    rw [List.append_assoc, List.cons_append, h.tokens _ (ends_char (by decide)),
      tokensOfPieces_blank, h'.tokens rest hrest]
    simp [Function.comp_def]

/-- One after the other, with a comma between them. -/
lemma append_comma (h : Spells ps ts) (h' : Spells qs us) :
    Spells (ps ++ .char ',' :: .char ' ' :: qs) (ts ++ .mark .comma :: us) where
  plain := by
    rw [List.forall_mem_append, List.forall_mem_cons, List.forall_mem_cons]
    exact ⟨h.plain, plain_char (by decide), plain_char (by decide), h'.plain⟩
  tokens rest hrest := by
    rw [List.append_assoc, List.cons_append, List.cons_append, h.tokens _ (ends_char (by decide)),
      tokensOfPieces_delimiter ',' .comma (by decide), tokensOfPieces_blank, h'.tokens rest hrest]
    simp [Function.comp_def]

/-- A mark before something, with a blank between them. -/
lemma mark_blank (m : Mark) (h : Spells ps ts) :
    Spells (chars m.spelling ++ .char ' ' :: ps) (.mark m :: ts) where
  plain := by
    rw [List.forall_mem_append, List.forall_mem_cons]
    exact ⟨plain_chars (by cases m <;> rfl), plain_char (by decide), h.plain⟩
  tokens rest hrest := by
    rw [List.append_assoc, List.cons_append, chars, tokensOfPieces_mark_blank, h.tokens rest hrest]
    simp [Function.comp_def]

lemma inParentheses (h : Spells ps ts) :
    Spells (inParentheses ps) (.mark .leftParen :: (ts ++ [.mark .rightParen])) where
  plain := by
    rw [Tree.inParentheses, List.forall_mem_cons, List.forall_mem_append, List.forall_mem_singleton]
    exact ⟨plain_char (by decide), h.plain, plain_char (by decide)⟩
  tokens rest hrest := by
    rw [Tree.inParentheses, List.cons_append, List.append_assoc, List.singleton_append,
      tokensOfPieces_delimiter '(' .leftParen (by decide), h.tokens _ (ends_char (by decide)),
      tokensOfPieces_delimiter ')' .rightParen (by decide)]
    simp [Function.comp_def]

end Spells

/-! ### Words -/

/-- A word can be written and is a name. -/
def IsNameWord (word : String) : Prop :=
  isName word = true ∧ wordToken word.toList = .name word

lemma IsNameWord.tokens {word : String} (h : IsNameWord word) {rest : List Piece}
    (hrest : Stops isNameChar (lead rest)) :
    tokensOfPieces (chars word ++ rest) = (tokensOfPieces rest).map (.name word :: ·) := by
  have htoken : wordToken word.toList = .name (String.ofList word.toList) := by
    rw [String.ofList_toList, h.2]
  have htokens := tokensOfPieces_name h.1 htoken hrest
  rwa [String.ofList_toList] at htokens

lemma IsNameWord.plain {word : String} (h : IsNameWord word) : ∀ p ∈ chars word, p.Plain := by
  refine plain_of_mem_map_char fun c hc => ?_
  have hchar := isNameChar_of_mem_isNameText h.1 c hc
  refine ⟨?_, isQuote_eq_false_of rfl rfl hchar⟩
  rintro rfl
  exact absurd hchar (by decide)

lemma Spells.word {word : String} (h : IsNameWord word) : Spells (chars word) [.name word] where
  plain := h.plain
  tokens _ hrest := h.tokens (hrest.stops rfl)

/-- A word before an opening parenthesis. -/
lemma Spells.word_inParentheses {word : String} {ps : List Piece} {ts : List Token}
    (hword : IsNameWord word) (h : Spells ps ts) :
    Spells (chars word ++ Tree.inParentheses ps)
      (.name word :: .mark .leftParen :: (ts ++ [.mark .rightParen])) where
  plain := List.forall_mem_append.2 ⟨hword.plain, h.inParentheses.plain⟩
  tokens rest hrest := by
    have hstops : Stops isNameChar (lead (Tree.inParentheses ps ++ rest)) := stops_cons.2 rfl
    rw [List.append_assoc, hword.tokens hstops, h.inParentheses.tokens rest hrest]
    simp [Function.comp_def]

/-! ## Pieces that write expressions -/

/-- Pieces are not blank, and write an expression as an operand. -/
structure Prints (ps : List Piece) (e : Expr) : Prop where
  visible : ∃ c ∈ ps.flatMap Piece.source, isBlank c = false
  writes : ∃ ts, Spells ps ts ∧ WritesAs .atom ts e

/-- Pieces write the arguments of a call. -/
def PrintsArguments (ps : List Piece) (es : List Expr) : Prop :=
  ∃ ts, Spells ps ts ∧ WritesArguments ts es

namespace Prints

variable {ps qs rs : List Piece} {e l r y n : Expr}

/-- What stands in parentheses is an operand. -/
lemma inParentheses {ts : List Token} (h : Spells ps ts) (he : WritesAs .conditional ts e) :
    Prints (inParentheses ps) e where
  visible := ⟨'(', by simp [Tree.inParentheses, Piece.source], by decide⟩
  writes := ⟨_, h.inParentheses, he.group⟩

lemma unary {op : UnaryOp} (hop : op ≠ .factorial) (h : Prints ps e) :
    Prints (unarySource op ps) (.unary origin op e) := by
  obtain ⟨-, ts, hspells, he⟩ := h
  have hwrites := WritesAs.unary hop (he.loosen (by decide))
  exact inParentheses (hspells.mark_blank op.mark) (hwrites.loosen (by decide))

lemma binary (op : BinaryOp) (hl : Prints ps l) (hr : Prints qs r) :
    Prints (binarySource op ps qs) (.binary origin op l r) := by
  obtain ⟨-, ts, hps, hl⟩ := hl
  obtain ⟨-, us, hqs, hr⟩ := hr
  have hwrites : WritesAs op.category _ (.binary origin op l r) :=
    .binary (hl.loosen (by cases op <;> decide)) (hr.loosen (by cases op <;> decide))
  exact inParentheses (hps.append_blank (hqs.mark_blank op.mark)) (hwrites.loosen (Nat.zero_le _))

lemma conditional (hc : Prints ps e) (hy : Prints qs y) (hn : Prints rs n) :
    Prints (conditionalSource ps qs rs) (.conditional origin e y n) := by
  obtain ⟨-, ts, hps, hc⟩ := hc
  obtain ⟨-, us, hqs, hy⟩ := hy
  obtain ⟨-, vs, hrs, hn⟩ := hn
  have hwrites := WritesAs.conditional (hc.loosen (by decide)) (hy.loosen (by decide))
    (hn.loosen (by decide))
  exact inParentheses
    (hps.append_blank ((hqs.append_blank (hrs.mark_blank .colon)).mark_blank .question)) hwrites

/-- Operands in a chain are grouped to the left. -/
lemma chain (op : BinaryOp) (h : Prints ps e) {pss : List (List Piece)} {es : List Expr}
    (hs : List.Forall₂ Prints pss es) :
    Prints (pss.foldl (binarySource op) ps) (es.foldl (.binary origin op) e) := by
  induction hs generalizing ps e with
  | nil => exact h
  | cons hd _ ih => exact ih (binary op h hd)

end Prints

lemma PrintsArguments.of_forall₂ {pss : List (List Piece)} {es : List Expr}
    (h : List.Forall₂ Prints pss es) : PrintsArguments (argumentsSource pss) es := by
  induction h with
  | nil => exact ⟨[], .nil, .nil⟩
  | cons hd htail ih =>
    obtain ⟨-, ts, hps, he⟩ := hd
    cases htail with
    | nil => exact ⟨ts, hps, .last (he.loosen (by decide))⟩
    | cons hd' htail =>
      obtain ⟨us, hqs, hes⟩ := ih
      exact ⟨_, hps.append_comma hqs, .cons (he.loosen (by decide)) hes⟩

lemma Prints.call {function : String} {pss : List (List Piece)} {es : List Expr}
    (hfunction : IsNameWord function) (h : List.Forall₂ Prints pss es) :
    Prints (callSource function pss) (.call origin function origin es) := by
  obtain ⟨ts, hps, hes⟩ := PrintsArguments.of_forall₂ h
  refine ⟨⟨'(', ?_, by decide⟩, _, .word_inParentheses hfunction hps, .call hes⟩
  simp [callSource, Tree.inParentheses, Piece.source]

/-! ## Trees -/

/-- What the source of a head relies on. -/
def Head.Writable : Head → Prop
  | single op => op ≠ .factorial
  | function name => IsNameWord name
  | _ => True

lemma writable_of_heads {head : String} {h : Head} (hh : heads.lookup head = some h) :
    h.Writable := by
  have hall : ∀ entry ∈ heads, entry.2.Writable := by
    simp only [heads, List.forall_mem_cons]
    repeat' first
      | exact trivial | exact ⟨rfl, rfl⟩ | exact List.forall_mem_nil _ | exact UnaryOp.noConfusion
      | constructor
  exact hall _ (mem_of_lookup hh)

/-- A head that is applied to operands prints as its source. -/
lemma Head.prints {h : Head} {pss : List (List Piece)} {es : List Expr} {e : Expr}
    (hh : h.Writable) (hs : List.Forall₂ Prints pss es) (he : h.apply es = .ok e) :
    Prints (h.source pss) e := by
  cases h with
  | single op =>
    obtain _ | ⟨hd, _ | _⟩ := hs <;> cases he
    exact .unary hh hd
  | difference =>
    obtain _ | ⟨hd, _ | ⟨hd', _ | _⟩⟩ := hs <;> cases he
    · exact .unary (by decide) hd
    · exact .binary .sub hd hd'
  | pair op =>
    obtain _ | ⟨hd, _ | ⟨hd', _ | _⟩⟩ := hs <;> cases he
    exact .binary op hd hd'
  | chain op =>
    obtain _ | ⟨hd, _ | ⟨hd', htail⟩⟩ := hs <;> cases he
    exact .chain op hd (.cons hd' htail)
  | conditional =>
    obtain _ | ⟨hc, _ | ⟨hy, _ | ⟨hn, _ | _⟩⟩⟩ := hs <;> cases he
    exact .conditional hc hy hn
  | function name =>
    cases he
    exact .call hh hs

lemma isNameWord_of_constants {name word : String} (h : constants.lookup name = some word) :
    IsNameWord word := by
  have hall : ∀ entry ∈ constants, IsNameWord entry.2 := by
    simp only [constants, List.forall_mem_cons]
    repeat' first | exact ⟨rfl, rfl⟩ | exact List.forall_mem_nil _ | constructor
  exact hall _ (mem_of_lookup h)

lemma flatMap_source_map_char (cs : List Char) : (cs.map .char).flatMap Piece.source = cs := by
  induction cs with
  | nil => rfl
  | cons c cs ih => rw [List.map_cons, List.flatMap_cons, ih, Piece.source, List.singleton_append]

lemma visible_of_constants {name word : String} (h : constants.lookup name = some word) :
    ∃ c ∈ (chars word).flatMap Piece.source, isBlank c = false := by
  have hall : constants.all (fun entry => entry.2.toList.any fun c => !isBlank c) = true := rfl
  rw [chars, flatMap_source_map_char]
  simpa using List.all_eq_true.1 hall _ (mem_of_lookup h)

lemma isBlank_of_isDigit {c : Char} (h : c.isDigit = true) : isBlank c = false :=
  isBlank_eq_false_of_val (by grind [Char.isDigit]) (by grind [Char.isDigit])

lemma visible_of_standsFor {cs : List Char} {x : Float} (h : Numeral.StandsFor cs x) :
    ∃ c ∈ (cs.map .char).flatMap Piece.source, isBlank c = false := by
  obtain ⟨n, hscan, -⟩ := h
  rw [flatMap_source_map_char]
  cases cs with
  | nil => exact absurd hscan (by simp [Numeral.scan])
  | cons c cs =>
    refine ⟨c, List.mem_cons_self, ?_⟩
    rcases Numeral.isDigit_or_point_of_scan hscan with hdigit | rfl
    · exact isBlank_of_isDigit hdigit
    · decide

lemma prints_leaf {literal : Json.Number → List Char} {name : String} {e : Expr}
    (he : leaf name = .ok e) : Prints (print literal (.string name)) e := by
  rcases hword : constants.lookup name with _ | word
  · by_cases hname : isName name = true
    · simp only [leaf, hword, hname, if_true] at he
      obtain rfl := Except.ok.inj he
      simp only [print, hword]
      refine ⟨⟨'{', by simp [Piece.source], by decide⟩, _, .reference hname, ?_⟩
      rw [String.ofList_toList]
      exact .symbol (identifierOf name)
    · simp only [leaf, hword, hname] at he
      exact absurd he (by simp)
  · simp only [leaf, hword] at he
    obtain rfl := Except.ok.inj he
    simp only [print, hword]
    exact ⟨visible_of_constants hword, _, .word (isNameWord_of_constants hword), .symbol word⟩

lemma prints_operands {literal : Json.Number → List Char} {operands : List Json} {es : List Expr}
    (h : List.Forall₂ (fun t e => (∀ n ∈ numbers t, Numeral.StandsFor (literal n) n.toFloat) →
      Prints (print literal t) e) operands es)
    (hliteral : ∀ n ∈ numbersOfAll operands, Numeral.StandsFor (literal n) n.toFloat) :
    List.Forall₂ Prints (printAll literal operands) es := by
  induction h with
  | nil =>
    rw [printAll]
    exact .nil
  | cons hd _ ih =>
    rw [printAll]
    refine .cons (hd fun n hn => hliteral n ?_) (ih fun n hn => hliteral n ?_)
    · simp [numbersOfAll, hn]
    · simp [numbersOfAll, hn]

/-- The source of a tree that can be read writes its expression. -/
theorem prints_of_toExpr {literal : Json.Number → List Char} (t : Json) {e : Expr}
    (hliteral : ∀ n ∈ numbers t, Numeral.StandsFor (literal n) n.toFloat) (he : toExpr t = .ok e) :
    Prints (print literal t) e := by
  revert hliteral
  refine toExpr_induct ?number ?leaf ?operation he
  case number =>
    intro n hliteral
    have hn := hliteral n (by simp [numbers])
    exact ⟨visible_of_standsFor hn, _, .numeral hn, .number n.toFloat⟩
  case leaf => exact fun name e hleaf _ => prints_leaf hleaf
  case operation =>
    intro head operands es e hoperands hoperation hliteral
    have hprints := prints_operands hoperands
      fun n hn => hliteral n (by simp [numbers, numbersOfAll, hn])
    rcases hh : heads.lookup head with _ | h
    · simp only [operation, hh] at hoperation
      exact absurd hoperation (by simp)
    · simp only [operation, hh] at hoperation
      simp only [print, hh]
      exact Head.prints (writable_of_heads hh) hprints (mapError_eq_ok.1 hoperation)

end Tree
end Formulary
