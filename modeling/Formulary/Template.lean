import Formulary.Text.Name
import Formulary.Text.Span
/-!
# References in a source

A user writes a variable as `{{name}}`. Before the tokens of a source are read, each reference is
replaced by the identifier that stands for the variable, kept apart by a blank from a neighbour that
would run into it. A `Template` holds the text that comes of this, and where each reference went, so
that positions in it can be taken back to the source.

The source is first cut into pieces, references and single characters (`pieces`), which together
spell it again (`source_pieces`).
-/

namespace Formulary

/-- A part of a source. -/
inductive Piece where
  | char (c : Char)
  | reference (name : List Char)
deriving DecidableEq

namespace Piece

/-- How a piece is written. -/
def source : Piece → List Char
  | char c => [c]
  | reference name => '{' :: '{' :: name ++ ['}', '}']

/-- The name that a piece refers to. -/
def name? : Piece → Option String
  | char _ => none
  | reference name => some (String.ofList name)

end Piece

/-! ## Cutting a source -/

/-- Takes a reference off the front, if one stands there. -/
def scanReference : List Char → Option (List Char × List Char)
  | '{' :: '{' :: cs =>
    let name := cs.takeWhile isNameChar
    match cs.dropWhile isNameChar with
    | '}' :: '}' :: rest => if isNameText name then some (name, rest) else none
    | _ => none
  | _ => none

theorem append_of_scanReference {cs name rest : List Char}
    (h : scanReference cs = some (name, rest)) : (Piece.reference name).source ++ rest = cs := by
  unfold scanReference at h
  split at h
  · rename_i cs
    have hcs := List.takeWhile_append_dropWhile (p := isNameChar) (l := cs)
    dsimp only at h
    split at h
    · rename_i more hd
      split at h
      · obtain ⟨rfl, rfl⟩ : _ ∧ _ := by simpa using h
        rw [hd] at hcs
        simp [Piece.source, hcs]
      · simp at h
    · simp at h
  · simp at h

theorem isNameText_of_scanReference {cs name rest : List Char}
    (h : scanReference cs = some (name, rest)) : isNameText name = true := by
  unfold scanReference at h
  split at h
  · dsimp only at h
    split at h
    · split at h
      · rename_i hn
        obtain ⟨rfl, -⟩ : _ ∧ _ := by simpa using h
        exact hn
      · simp at h
    · simp at h
  · simp at h

theorem length_rest_of_scanReference {cs name rest : List Char}
    (h : scanReference cs = some (name, rest)) : rest.length < cs.length := by
  have happ := congrArg List.length (append_of_scanReference h)
  simp only [Piece.source, List.length_append, List.length_cons] at happ
  omega

/-- The pieces of a source, from left to right. -/
def pieces : List Char → List Piece
  | [] => []
  | c :: cs =>
    match _h : scanReference (c :: cs) with
    | some (name, rest) =>
      .reference name :: pieces rest
    | none => .char c :: pieces cs
termination_by cs => cs.length
decreasing_by
  · exact length_rest_of_scanReference _h
  · exact Nat.lt_succ_self _

theorem source_pieces (cs : List Char) : (pieces cs).flatMap Piece.source = cs := by
  fun_induction pieces cs with
  | case1 => rfl
  | case2 c cs name rest h ih => simpa [ih] using append_of_scanReference h
  | case3 c cs _ ih => simp [Piece.source, ih]

/-! ## Replacing the references -/

/-- A blank after a character that would run into a name. -/
def separator (c : Option Char) : List Char :=
  if c.any isNameChar then [' '] else []

/-- The character that the rest of a source begins with. -/
def nextChar? : List Piece → Option Char
  | [] => none
  | p :: _ => p.source.head?

/-- What is written for a piece: a blank that keeps it apart from what stands before it, and its
text, with a blank that keeps it apart from what follows. -/
structure Replacement where
  piece : Piece
  gap : List Char
  text : List Char

namespace Replacement

/-- What is written for a piece after the character given, if there is one, and before the pieces
given. -/
def of (before : Option Char) (rest : List Piece) : Piece → Replacement
  | .char c => ⟨.char c, [], [c]⟩
  | .reference name =>
    ⟨.reference name, separator before, variablePrefix ++ name ++ separator (nextChar? rest)⟩

/-- All the characters of a replacement. -/
def characters (r : Replacement) : List Char :=
  r.gap ++ r.text

end Replacement

/-- What is written for pieces that follow the character given. -/
def replacements (before : Option Char) : List Piece → List Replacement
  | [] => []
  | p :: ps =>
    let r := Replacement.of before ps p
    r :: replacements r.text.getLast? ps

/-! ## Where the references went -/

/-- Where a reference stands in the source, and where its identifier, with the blank after it, stands
in the text that replaces the source. -/
structure Passage where
  source : Span
  written : Span

/-- The passages among replacements that begin at a position of the source and one of the text. -/
def passagesFrom (source written : Nat) : List Replacement → List Passage
  | [] => []
  | r :: rs =>
    let sourceStop := source + byteLength r.piece.source
    let start := written + byteLength r.gap
    let stop := start + byteLength r.text
    let rest := passagesFrom sourceStop stop rs
    match r.piece with
    | .char _ => rest
    | .reference _ => ⟨⟨source, sourceStop⟩, ⟨start, stop⟩⟩ :: rest

/-- A source whose references have been replaced. -/
structure Template where
  /-- The text that replaces the source. -/
  text : List Char
  passages : List Passage
  /-- The names of the references, in order. -/
  references : List String

namespace Template

/-- Replaces the references of a source. -/
def ofSource (source : String) : Template :=
  let ps := pieces source.toList
  let rs := replacements none ps
  ⟨rs.flatMap Replacement.characters, passagesFrom 0 0 rs, ps.filterMap Piece.name?⟩

/-- The distinct names of the references, in the order in which they first appear. -/
def variableNames (t : Template) : List String :=
  t.references.eraseDups

/-- Where a start lies in the source: inside a replaced reference at its beginning. The second position
is the answer when no reference is left that begins before. -/
def startBefore (position mapped : Nat) : List Passage → Nat
  | [] => mapped
  | p :: ps =>
    if position < p.written.start then mapped
    else if position < p.written.stop then p.source.start
    else startBefore position (position - p.written.stop + p.source.stop) ps

/-- Where a stop lies in the source: inside a replaced reference at its end. The second position is the
answer when no reference is left that begins before. -/
def stopBefore (position mapped : Nat) : List Passage → Nat
  | [] => mapped
  | p :: ps =>
    if position ≤ p.written.start then mapped
    else if position ≤ p.written.stop then p.source.stop
    else stopBefore position (position - p.written.stop + p.source.stop) ps

/-- The span of the source that a span of the text stands for; a part of an identifier stands for the
whole reference. -/
def toSource (t : Template) (s : Span) : Span :=
  ⟨startBefore s.start s.start t.passages, stopBefore s.stop s.stop t.passages⟩

end Template

/-- The distinct names that a source refers to, in ascending order. -/
def variablesOf (source : String) : List String :=
  sortedNames ((pieces source.toList).filterMap Piece.name?)

end Formulary
