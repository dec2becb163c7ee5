/-!
# Names

The identifiers of the language: an ASCII letter or underscore, then ASCII letters, digits and
underscores. A name that an expression refers to as a variable is carried, among the tokens, by an
identifier that begins with `variablePrefix`.
-/

namespace Formulary

/-- Characters that may begin a name. -/
def isNameStart (c : Char) : Bool :=
  c.isAlpha || c = '_'

/-- Characters that may continue a name. -/
def isNameChar (c : Char) : Bool :=
  c.isAlphanum || c = '_'

/-- Whether a run of characters is a name. -/
def isNameText : List Char → Bool
  | [] => false
  | c :: cs => isNameStart c && cs.all isNameChar

/-- Whether a text is a name. -/
def isName (s : String) : Bool :=
  isNameText s.toList

/-- What an identifier that stands for a variable begins with; no word of the vocabulary does. -/
def variablePrefix : List Char :=
  ['_', '_', 'v', '_']

/-- The identifier that stands for a variable. -/
def identifierOf (name : String) : String :=
  String.ofList (variablePrefix ++ name.toList)

/-- The variable that an identifier stands for, if it stands for one. -/
def variableOf? (identifier : String) : Option String :=
  match identifier.toList with
  | '_' :: '_' :: 'v' :: '_' :: name => some (String.ofList name)
  | _ => none

@[simp] theorem variableOf?_identifierOf (name : String) :
    variableOf? (identifierOf name) = some name := by
  simp [variableOf?, identifierOf, variablePrefix]

theorem identifierOf_of_variableOf? {identifier name : String}
    (h : variableOf? identifier = some name) : identifierOf name = identifier := by
  unfold variableOf? at h
  split at h
  · rename_i rest hid
    obtain rfl : String.ofList rest = name := by simpa using h
    rw [identifierOf, String.toList_ofList]
    exact String.toList_injective (by simp [variablePrefix, hid])
  · simp at h

/-! ## Sorted names -/

/-- Names in ascending order with one more, unless it is there already. -/
def insertName (name : String) : List String → List String
  | [] => [name]
  | n :: ns =>
    if name < n then name :: n :: ns else if name = n then n :: ns else n :: insertName name ns

/-- The distinct names of a list in ascending order. -/
def sortedNames (names : List String) : List String :=
  names.foldr insertName []

theorem mem_insertName {name n : String} {ns : List String} :
    n ∈ insertName name ns ↔ n = name ∨ n ∈ ns := by
  induction ns with
  | nil => simp [insertName]
  | cons m ms ih =>
    unfold insertName
    split
    · simp
    · split
      · rename_i h
        subst h
        simp
      · simp only [List.mem_cons, ih]
        grind

@[simp] theorem mem_sortedNames {n : String} {names : List String} :
    n ∈ sortedNames names ↔ n ∈ names := by
  induction names with
  | nil => simp [sortedNames]
  | cons m ms ih => simpa [sortedNames, mem_insertName] using or_congr_right ih

end Formulary
