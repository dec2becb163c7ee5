/-!
# Edit distance and the closest name

The distance of two texts is the least number of insertions, deletions and substitutions of single
characters that turn one into the other. It is computed row by row: the row of a text against `bs`
lists the distances from the text to each prefix of `bs`, shortest first, and `nextRow` is the row of
the text with one more character at its end. No other row is needed for it.
-/

namespace Formulary

/-- The cells of a row behind its first, from left to right: each is found from the cell to the left of
it and from the two cells of the row above that stand over these. -/
def nextCells (a : Char) : Nat → List Nat → List Char → List Nat
  | left, diagonal :: above :: cells, b :: bs =>
    let cell := min (min (above + 1) (left + 1)) (diagonal + if a = b then 0 else 1)
    cell :: nextCells a cell (above :: cells) bs
  | _, _, _ => []

/-- The row of a text with one more character, from the row of the text. -/
def nextRow (bs : List Char) (row : List Nat) (a : Char) : List Nat :=
  match row with
  | [] => []
  | cell :: _ => (cell + 1) :: nextCells a (cell + 1) row bs

/-- The distances from `as` to each prefix of `bs`, shortest first. -/
def distanceRow (as bs : List Char) : List Nat :=
  as.foldl (nextRow bs) (List.range (bs.length + 1))

/-- The least number of single-character edits that turn one text into the other. -/
def editDistance (s t : String) : Nat :=
  (distanceRow s.toList t.toList).getLast?.getD 0

/-- The better of the candidate held so far and a new one: nearer than it, within the threshold, and
not the name itself. -/
def nearer (name : String) (threshold : Nat) (held : Option (Nat × String)) (candidate : String) :
    Option (Nat × String) :=
  let d := editDistance name candidate
  if 0 < d && d ≤ threshold && held.all (fun h => d < h.1) then some (d, candidate) else held

/-- The candidate nearest to a name, the earliest among equals, if one lies within the threshold;
never the name itself. -/
def closest? (name : String) (candidates : List String) (threshold : Nat) : Option String :=
  (candidates.foldl (nearer name threshold) none).map Prod.snd

end Formulary
