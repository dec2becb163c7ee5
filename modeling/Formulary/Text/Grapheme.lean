import Formulary.Text.Grapheme.Bounds
import Formulary.Text.Ranges
/-!
# Grapheme clusters

What a reader takes for one character may be several: a letter and its accents, a syllable of Hangul, a
flag, pictographs that are joined. `clusters` cuts a text into such clusters. Whether there is a cut
between two characters depends on their classes, and in three cases on what comes before: flags are pairs
of regional indicators, a joiner ties pictographs only, and a linker consonants only.
-/

namespace Formulary

/-- The part that a character plays in clusters. -/
inductive Grapheme.Class where
  | control | extend | joiner | spacing | prepend | regional | pictograph
  /-- The parts of syllables of Hangul: consonants in front, vowels, and consonants at the end. -/
  | leading | vowel | trailing
  /-- Syllables of Hangul without and with a consonant at the end. -/
  | openSyllable | closedSyllable
  | other
deriving DecidableEq

namespace Grapheme

/-- The class of the letters of Hangul. -/
def hangulClass? (n : Nat) : Option Class :=
  if 0x1100 ≤ n && n < 0x1160 || 0xA960 ≤ n && n < 0xA97D then some .leading
  else if 0x1160 ≤ n && n < 0x11A8 || 0xD7B0 ≤ n && n < 0xD7C7 then some .vowel
  else if 0x11A8 ≤ n && n < 0x1200 || 0xD7CB ≤ n && n < 0xD7FC then some .trailing
  else if 0xAC00 ≤ n && n < 0xD7A4 then
    some (if (n - 0xAC00) % 28 = 0 then .openSyllable else .closedSyllable)
  else if n = 0x16D63 || 0x16D67 ≤ n && n < 0x16D6B then some .vowel
  else none

/-- The class of a character. -/
def classOf (c : Char) : Class :=
  if isWithin controlBounds c then .control
  else if isWithin extendBounds c then .extend
  else if c = '\u200d' then .joiner
  else if isWithin spacingBounds c then .spacing
  else if isWithin prependBounds c then .prepend
  else if 0x1F1E6 ≤ c.toNat && c.toNat < 0x1F200 then .regional
  else if isWithin pictographBounds c then .pictograph
  else (hangulClass? c.toNat).getD .other

/-- How far a run of linked consonants has come: a consonant has been read, and perhaps a linker since. -/
inductive Link where
  | none | consonant | linked
deriving DecidableEq

/-- What a cut depends on of the characters before it. -/
structure Context where
  last : Class
  /-- Whether the last character is the first of a pair of regional indicators. -/
  half : Bool
  /-- Whether a pictograph has been read, with nothing but extensions since. -/
  pictograph : Bool
  /-- Whether a joiner comes last, and before it a pictograph with nothing but extensions since. -/
  joined : Bool
  link : Link

/-- The run of linked consonants after one more character of a class. -/
def Link.step (l : Link) (c : Char) (class_ : Class) : Link :=
  if isWithin consonantBounds c then .consonant
  else if isWithin linkerBounds c then if l = .none then .none else .linked
  else if class_ = .joiner || class_ = .extend && c ≠ '\u200c' then l
  else .none

namespace Context

/-- The context at the start of a text. -/
def start : Context :=
  ⟨.control, false, false, false, .none⟩

/-- The context after one more character. -/
def step (s : Context) (c : Char) : Context :=
  let class_ := classOf c
  { last := class_
    half := class_ = .regional && !s.half
    pictograph := class_ = .pictograph || class_ = .extend && s.pictograph
    joined := class_ = .joiner && s.pictograph
    link := s.link.step c class_ }

/-- Whether a character belongs to the cluster before it. -/
def continues (s : Context) (c : Char) : Bool :=
  match s.last, classOf c with
  | .control, _ | _, .control => false
  | _, .extend | _, .joiner | _, .spacing | .prepend, _ => true
  | .leading, .leading | .leading, .vowel | .leading, .openSyllable | .leading, .closedSyllable => true
  | .openSyllable, .vowel | .vowel, .vowel | .openSyllable, .trailing | .vowel, .trailing => true
  | .closedSyllable, .trailing | .trailing, .trailing => true
  | .regional, .regional => s.half
  | .joiner, .pictograph => s.joined
  | _, _ => s.link = .linked && isWithin consonantBounds c

end Context

/-- The clusters of a text after a context in which a cluster is open, of which the characters read are
given, last first. -/
def clustersFrom (s : Context) (opened : List Char) : List Char → List (List Char)
  | [] => if opened = [] then [] else [opened.reverse]
  | c :: cs =>
    if s.continues c then clustersFrom (s.step c) (c :: opened) cs
    else
      let rest := clustersFrom (s.step c) [c] cs
      if opened = [] then rest else opened.reverse :: rest

/-- The clusters of a text. -/
def clusters (cs : List Char) : List (List Char) :=
  clustersFrom .start [] cs

/-- The clusters of a text spell the text. -/
theorem flatten_clustersFrom (s : Context) (opened cs : List Char) :
    (clustersFrom s opened cs).flatten = opened.reverse ++ cs := by
  induction cs generalizing s opened with
  | nil =>
    unfold clustersFrom
    split <;> simp_all
  | cons c cs ih =>
    unfold clustersFrom
    split
    · simp [ih]
    · dsimp only
      split <;> simp_all

theorem flatten_clusters (cs : List Char) : (clusters cs).flatten = cs := by
  simp [clusters, flatten_clustersFrom]

end Grapheme

end Formulary
