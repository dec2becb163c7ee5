import Formulary.Text.EditDistance
import Mathlib.Order.Bounds.Defs
import Mathlib.Order.MinMax
import Mathlib.Tactic.Common
/-!
# Scripts of edits

A script turns one text into another by edits of single characters, one after the other. The edit
distance of two texts is the length of their shortest script (`editDistance_isLeast`).

Between the two stands the recurrence on first characters, `distance`. No script is shorter than it says,
since one edit changes the distance from any text by one at most (`distance_le_of_edit`); and the choices
of the recurrence make a script that is as short (`edits_distance`). The rows keep to the same recurrence
on last characters: with each character of the one text a row becomes the row of distances to the
prefixes of the other (`nextRow_distances`).
-/

namespace Formulary

/-! ## Scripts -/

/-- One edit: a character is inserted, deleted or replaced. -/
inductive Edit : List Char → List Char → Prop
  | insertion (before after : List Char) (c : Char) : Edit (before ++ after) (before ++ c :: after)
  | deletion (before after : List Char) (c : Char) : Edit (before ++ c :: after) (before ++ after)
  | substitution (before after : List Char) (c d : Char) :
    Edit (before ++ c :: after) (before ++ d :: after)

/-- A number of edits, one after the other, turn one text into another. -/
inductive Edits : Nat → List Char → List Char → Prop
  | none (cs : List Char) : Edits 0 cs cs
  | step {n : Nat} {cs ds es : List Char} : Edit cs ds → Edits n ds es → Edits (n + 1) cs es

variable {as bs cs ds : List Char} {n : Nat}

lemma Edit.cons (x : Char) (h : Edit cs ds) : Edit (x :: cs) (x :: ds) := by
  cases h with
  | insertion before after c => exact .insertion (x :: before) after c
  | deletion before after c => exact .deletion (x :: before) after c
  | substitution before after c d => exact .substitution (x :: before) after c d

lemma Edit.reverse (h : Edit cs ds) : Edit cs.reverse ds.reverse := by
  cases h with
  | insertion before after c => simpa using Edit.insertion after.reverse before.reverse c
  | deletion before after c => simpa using Edit.deletion after.reverse before.reverse c
  | substitution before after c d => simpa using Edit.substitution after.reverse before.reverse c d

lemma Edits.cons (x : Char) (h : Edits n cs ds) : Edits n (x :: cs) (x :: ds) := by
  induction h with
  | none cs => exact .none (x :: cs)
  | step hedit _ ih => exact .step (hedit.cons x) ih

lemma Edits.reverse (h : Edits n cs ds) : Edits n cs.reverse ds.reverse := by
  induction h with
  | none cs => exact .none cs.reverse
  | step hedit _ ih => exact .step hedit.reverse ih

lemma edits_reverse_iff : Edits n cs.reverse ds.reverse ↔ Edits n cs ds :=
  ⟨fun h => by simpa using h.reverse, Edits.reverse⟩

/-! ## The recurrence on first characters -/

/-- What it costs that two characters come to stand for one another. -/
def substitutionCost (a b : Char) : Nat :=
  if a = b then 0 else 1

lemma substitutionCost_le_one (a b : Char) : substitutionCost a b ≤ 1 := by
  unfold substitutionCost
  split <;> omega

/-- The least number of edits, by what becomes of the first characters: one of them is deleted or
inserted, or they come to stand for one another. -/
def distance : List Char → List Char → Nat
  | [], bs => bs.length
  | as, [] => as.length
  | a :: as, b :: bs =>
    min (min (distance as (b :: bs) + 1) (distance (a :: as) bs + 1))
      (distance as bs + substitutionCost a b)
termination_by as bs => as.length + bs.length

@[simp] lemma distance_nil_left (bs : List Char) : distance [] bs = bs.length := by
  rw [distance]

@[simp] lemma distance_nil_right (as : List Char) : distance as [] = as.length := by
  cases as <;> simp [distance]

lemma distance_cons_cons (a b : Char) (as bs : List Char) : distance (a :: as) (b :: bs) =
    min (min (distance as (b :: bs) + 1) (distance (a :: as) bs + 1))
      (distance as bs + substitutionCost a b) := by
  rw [distance]

lemma distance_self (cs : List Char) : distance cs cs = 0 := by
  induction cs with
  | nil => simp
  | cons c cs ih => simp [distance_cons_cons, substitutionCost, ih]

/-! ## No script is shorter -/

lemma distance_cons_right_le (b : Char) (as bs : List Char) :
    distance as (b :: bs) ≤ distance as bs + 1 := by
  cases as with
  | nil => simp
  | cons a as =>
    rw [distance_cons_cons]
    omega

lemma distance_cons_left_le (a : Char) (as bs : List Char) :
    distance (a :: as) bs ≤ distance as bs + 1 := by
  cases bs with
  | nil => simp
  | cons b bs =>
    rw [distance_cons_cons]
    omega

lemma distance_le_cons_left (a : Char) (as bs : List Char) :
    distance as bs ≤ distance (a :: as) bs + 1 := by
  induction bs with
  | nil =>
    rw [distance_nil_right, distance_nil_right, List.length_cons]
    omega
  | cons b bs ih =>
    have hright := distance_cons_right_le b as bs
    rw [distance_cons_cons]
    omega

lemma distance_substitute_le (a c : Char) (as bs : List Char) :
    distance (a :: as) bs ≤ distance (c :: as) bs + 1 := by
  induction bs with
  | nil => simp
  | cons b bs ih =>
    have hcost := substitutionCost_le_one a b
    rw [distance_cons_cons, distance_cons_cons]
    omega

/-- What changes the distance from each text by one at most does so behind a character. -/
lemma distance_cons_le (h : ∀ bs, distance as bs ≤ distance cs bs + 1) (x : Char) (bs : List Char) :
    distance (x :: as) bs ≤ distance (x :: cs) bs + 1 := by
  induction bs with
  | nil => simpa using h []
  | cons b bs ih =>
    have hwhole := h (b :: bs)
    have hrest := h bs
    rw [distance_cons_cons, distance_cons_cons]
    omega

lemma distance_append_le (h : ∀ bs, distance as bs ≤ distance cs bs + 1) (before bs : List Char) :
    distance (before ++ as) bs ≤ distance (before ++ cs) bs + 1 := by
  induction before generalizing bs with
  | nil => exact h bs
  | cons x before ih => exact distance_cons_le ih x bs

/-- One edit changes the distance from a text by one at most. -/
lemma distance_le_of_edit (h : Edit cs ds) (es : List Char) : distance cs es ≤ distance ds es + 1 := by
  cases h with
  | insertion before after c => exact distance_append_le (distance_le_cons_left c after) before es
  | deletion before after c => exact distance_append_le (distance_cons_left_le c after) before es
  | substitution before after c d => exact distance_append_le (distance_substitute_le c d after) before es

theorem distance_le_of_edits (h : Edits n cs ds) : distance cs ds ≤ n := by
  induction h with
  | none cs => exact Nat.le_of_eq (distance_self cs)
  | @step n cs ds es hedit _ ih =>
    have hstep := distance_le_of_edit hedit es
    omega

/-! ## A script that is as short -/

lemma Edits.delete (a : Char) (h : Edits n as bs) : Edits (n + 1) (a :: as) bs :=
  .step (.deletion [] as a) h

lemma Edits.insert (b : Char) (h : Edits n as bs) : Edits (n + 1) as (b :: bs) :=
  .step (.insertion [] as b) (h.cons b)

lemma Edits.substitute (a b : Char) (h : Edits n as bs) :
    Edits (n + substitutionCost a b) (a :: as) (b :: bs) := by
  unfold substitutionCost
  split
  · rename_i hab
    exact hab ▸ h.cons a
  · exact .step (.substitution [] as a b) (h.cons b)

lemma edits_length_left (as : List Char) : Edits as.length as [] := by
  induction as with
  | nil => exact .none []
  | cons a as ih => exact ih.delete a

lemma edits_length_right (bs : List Char) : Edits bs.length [] bs := by
  induction bs with
  | nil => exact .none []
  | cons b bs ih => exact ih.insert b

/-- There is a script of as many edits as the recurrence says. -/
theorem edits_distance (as bs : List Char) : Edits (distance as bs) as bs := by
  fun_induction distance as bs with
  | case1 bs => exact edits_length_right bs
  | case2 as _ => exact edits_length_left as
  | case3 a as b bs hdelete hinsert hsubstitute =>
    -- the script makes the choice that is least
    rcases min_choice (min (distance as (b :: bs) + 1) (distance (a :: as) bs + 1))
      (distance as bs + substitutionCost a b) with hmin | hmin
    · rw [hmin]
      rcases min_choice (distance as (b :: bs) + 1) (distance (a :: as) bs + 1) with hmin | hmin
      · rw [hmin]
        exact hdelete.delete a
      · rw [hmin]
        exact hinsert.insert b
    · rw [hmin]
      exact hsubstitute.substitute a b

lemma distance_isLeast (as bs : List Char) : IsLeast {n | Edits n as bs} (distance as bs) :=
  ⟨edits_distance as bs, fun _ h => distance_le_of_edits h⟩

/-! ## Rows -/

/-- The distances from a text to a second one and to what it becomes as it gets the characters of a
third one, both texts with their last character first. -/
def distances (as : List Char) : List Char → List Char → List Nat
  | bs, [] => [distance as bs]
  | bs, c :: cs => distance as bs :: distances as (c :: bs) cs

lemma exists_distances (as bs cs : List Char) : ∃ cells, distances as bs cs = distance as bs :: cells := by
  cases cs with
  | nil => exact ⟨_, rfl⟩
  | cons c cs => exact ⟨_, rfl⟩

lemma distances_nil (bs cs : List Char) :
    distances [] bs cs = List.range' bs.length (cs.length + 1) := by
  induction cs generalizing bs with
  | nil => simp [distances]
  | cons c cs ih => rw [distances, ih, List.length_cons, List.range'_succ, distance_nil_left]; rfl

lemma getLast?_distances (as bs cs : List Char) :
    (distances as bs cs).getLast? = some (distance as (cs.reverse ++ bs)) := by
  induction cs generalizing bs with
  | nil => rfl
  | cons c cs ih =>
    obtain ⟨cells, hcells⟩ := exists_distances as (c :: bs) cs
    have hlast := ih (c :: bs)
    rw [hcells] at hlast
    rw [distances, hcells, List.getLast?_cons_cons, hlast, List.reverse_cons, List.append_assoc]
    rfl

/-- Behind the first cell, each is the distance of texts that are longer by a character than those of
the three cells from which it is found. -/
lemma nextCells_distances (a : Char) (as bs cs : List Char) :
    distance (a :: as) bs :: nextCells a (distance (a :: as) bs) (distances as bs cs) cs =
      distances (a :: as) bs cs := by
  induction cs generalizing bs with
  | nil => rfl
  | cons c cs ih =>
    obtain ⟨cells, hcells⟩ := exists_distances as (c :: bs) cs
    have hcell : min (min (distance as (c :: bs) + 1) (distance (a :: as) bs + 1))
        (distance as bs + if a = c then 0 else 1) = distance (a :: as) (c :: bs) :=
      (distance_cons_cons a c as bs).symm
    rw [distances, distances, ← ih (c :: bs), hcells, nextCells, hcell]

/-- With one more character at the end of a text, its row becomes the row of the longer text. -/
theorem nextRow_distances (a : Char) (as cs : List Char) :
    nextRow cs (distances as [] cs) a = distances (a :: as) [] cs := by
  obtain ⟨cells, hcells⟩ := exists_distances as [] cs
  rw [← nextCells_distances, hcells, nextRow, distance_nil_right, distance_nil_right, List.length_cons]

lemma foldl_nextRow_distances (as bs cs : List Char) :
    bs.foldl (nextRow cs) (distances as [] cs) = distances (bs.reverse ++ as) [] cs := by
  induction bs generalizing as with
  | nil => rfl
  | cons b bs ih =>
    rw [List.foldl_cons, nextRow_distances, ih, List.reverse_cons, List.append_assoc]
    rfl

lemma distanceRow_eq (as bs : List Char) : distanceRow as bs = distances as.reverse [] bs := by
  have hfirst : List.range (bs.length + 1) = distances [] [] bs := by
    rw [distances_nil, List.range_eq_range']
    rfl
  rw [distanceRow, hfirst, foldl_nextRow_distances, List.append_nil]

lemma editDistance_eq (s t : String) :
    editDistance s t = distance s.toList.reverse t.toList.reverse := by
  rw [editDistance, distanceRow_eq, getLast?_distances, List.append_nil, Option.getD_some]

/-- **The edit distance of two texts is the least number of insertions, deletions and substitutions of
single characters that turn the one into the other.** -/
theorem editDistance_isLeast (s t : String) :
    IsLeast {n | Edits n s.toList t.toList} (editDistance s t) := by
  have h := distance_isLeast s.toList.reverse t.toList.reverse
  simp only [edits_reverse_iff] at h
  rwa [editDistance_eq]

example : editDistance "kitten" "sitting" = 3 := by decide

end Formulary
