import Formulary.Proofs.Json.Numbers
import Mathlib.Data.List.Pairwise
/-!
# JSON values

What is proved of all values is proved by the induction `Json.induction`, whose hypotheses are about
the items of an array and the members of an object. `Json.numbers` are the numbers that occur in a
value, and `Json.Settled` is the form of the values that readers make: numbers are in range, the members
of each object are sorted by key, and arrays and objects lie no deeper than allowed.
-/

namespace Formulary.Json

/-! ## Induction -/

/-- What passes from the items of an array to the array, and from the values of members to the object,
is true of all values. -/
@[elab_as_elim]
theorem induction {P : Json → Prop} (null : P .null) (bool : ∀ b, P (.bool b))
    (number : ∀ n, P (.number n)) (string : ∀ s, P (.string s))
    (array : ∀ vs, (∀ v ∈ vs, P v) → P (.array vs))
    (object : ∀ ms, (∀ m ∈ ms, P m.2) → P (.object ms)) (v : Json) : P v := by
  refine @Json.rec P (fun vs => ∀ v ∈ vs, P v) (fun ms => ∀ m ∈ ms, P m.2) (fun m => P m.2)
    null bool number string array object ?_ ?_ ?_ ?_ ?_ v
  · exact List.forall_mem_nil _
  · exact fun v vs hv hvs => List.forall_mem_cons.2 ⟨hv, hvs⟩
  · exact List.forall_mem_nil _
  · exact fun m ms hm hms => List.forall_mem_cons.2 ⟨hm, hms⟩
  · exact fun key v hv => hv

/-! ## The numbers of a value -/

mutual

/-- The numbers that occur in a value, in the order of its text. -/
def numbers : Json → List Number
  | number n => [n]
  | array items => numbersOfItems items
  | object members => numbersOfMembers members
  | _ => []

/-- The numbers that occur in items. -/
def numbersOfItems : List Json → List Number
  | [] => []
  | v :: vs => v.numbers ++ numbersOfItems vs

/-- The numbers that occur in the values of members. -/
def numbersOfMembers : List (String × Json) → List Number
  | [] => []
  | (_, v) :: ms => v.numbers ++ numbersOfMembers ms

end

section
variable {n : Number}

lemma mem_numbersOfItems {vs : List Json} : n ∈ numbersOfItems vs ↔ ∃ v ∈ vs, n ∈ v.numbers := by
  induction vs with
  | nil => simp [numbersOfItems]
  | cons v vs ih => simp [numbersOfItems, ih]

lemma mem_numbersOfMembers {ms : List (String × Json)} :
    n ∈ numbersOfMembers ms ↔ ∃ m ∈ ms, n ∈ m.2.numbers := by
  induction ms with
  | nil => simp [numbersOfMembers]
  | cons m ms ih => simp [numbersOfMembers, ih]

@[simp] lemma mem_numbers_number {m : Number} : n ∈ (number m).numbers ↔ n = m := by
  simp [numbers]

@[simp] lemma mem_numbers_array {vs : List Json} :
    n ∈ (array vs).numbers ↔ ∃ v ∈ vs, n ∈ v.numbers := by
  rw [numbers, mem_numbersOfItems]

@[simp] lemma mem_numbers_object {ms : List (String × Json)} :
    n ∈ (object ms).numbers ↔ ∃ m ∈ ms, n ∈ m.2.numbers := by
  rw [numbers, mem_numbersOfMembers]

@[simp] lemma numbers_null : Json.null.numbers = [] := rfl

@[simp] lemma numbers_bool (b : Bool) : (bool b).numbers = [] := rfl

@[simp] lemma numbers_string (s : String) : (string s).numbers = [] := rfl

end

/-- All numbers of a value are in range. -/
def InRange (v : Json) : Prop :=
  ∀ n ∈ v.numbers, n.InRange

lemma inRange_null : InRange .null := by
  simp [InRange]

lemma inRange_bool (b : Bool) : InRange (.bool b) := by
  simp [InRange]

lemma inRange_number {n : Number} (hn : n.InRange) : InRange (.number n) :=
  fun _ hm => mem_numbers_number.1 hm ▸ hn

lemma inRange_string (s : String) : InRange (.string s) := by
  simp [InRange]

lemma inRange_array {vs : List Json} (h : ∀ v ∈ vs, v.InRange) : InRange (.array vs) := by
  intro n hn
  obtain ⟨v, hv, hn⟩ := mem_numbers_array.1 hn
  exact h v hv n hn

lemma inRange_object {ms : List (String × Json)} (h : ∀ m ∈ ms, m.2.InRange) :
    InRange (.object ms) := by
  intro n hn
  obtain ⟨m, hm, hn⟩ := mem_numbers_object.1 hn
  exact h m hm n hn

lemma inRange_ofFloat (x : Float) : InRange (ofFloat x) := by
  unfold ofFloat
  split
  · rename_i hx
    exact inRange_number hx
  · exact inRange_null

section
variable {α : Type} {write : α → Json} {o : Option α} (h : ∀ a ∈ o, (write a).InRange)
include h

lemma inRange_ofOption : InRange (ofOption write o) := by
  cases o with
  | none => exact inRange_null
  | some a => exact h a rfl

lemma inRange_memberOf (key : String) : ∀ m ∈ memberOf key write o, m.2.InRange := by
  cases o with
  | none => exact List.forall_mem_nil _
  | some a => exact List.forall_mem_singleton.2 (h a rfl)

end

lemma inRange_memberOf_string (o : Option String) (key : String) :
    ∀ m ∈ memberOf key .string o, m.2.InRange :=
  inRange_memberOf (fun s _ => inRange_string s) key

/-! ## Sorted members -/

/-- Members in strictly ascending order of their keys. -/
def Sorted (ms : List (String × Json)) : Prop :=
  ms.Pairwise fun m m' => m.1 < m'.1

section
variable {key : String} {value : Json} {ms : List (String × Json)}

lemma mem_of_mem_insertMember {m : String × Json} (h : m ∈ insertMember key value ms) :
    m = (key, value) ∨ m ∈ ms := by
  fun_induction insertMember key value ms with
  | case1 => exact .inl (List.mem_singleton.1 h)
  | case2 m' ms hlt => exact List.mem_cons.1 h
  | case3 m' ms hlt heq => exact (List.mem_cons.1 h).imp_right (List.mem_cons_of_mem m')
  | case4 m' ms hlt hne ih =>
    rcases List.mem_cons.1 h with rfl | h
    · exact .inr List.mem_cons_self
    · exact (ih h).imp_right (List.mem_cons_of_mem m')

lemma Sorted.insertMember (h : Sorted ms) (key : String) (value : Json) :
    Sorted (insertMember key value ms) := by
  fun_induction Json.insertMember key value ms with
  | case1 => exact List.pairwise_singleton _ _
  | case2 m ms hlt =>
    refine List.pairwise_cons.2 ⟨fun m' hm' => ?_, h⟩
    rcases List.mem_cons.1 hm' with rfl | hm'
    · exact hlt
    · exact String.lt_trans hlt ((List.pairwise_cons.1 h).1 m' hm')
  | case3 m ms hlt heq =>
    obtain ⟨hm, hms⟩ := List.pairwise_cons.1 h
    exact List.pairwise_cons.2 ⟨fun m' hm' => heq ▸ hm m' hm', hms⟩
  | case4 m ms hlt hne ih =>
    obtain ⟨hm, hms⟩ := List.pairwise_cons.1 h
    refine List.pairwise_cons.2 ⟨fun m' hm' => ?_, ih hms⟩
    rcases mem_of_mem_insertMember hm' with rfl | hm'
    · exact Std.lt_of_le_of_ne (String.not_lt.1 hlt) fun heq => hne heq.symm
    · exact hm m' hm'

/-- A member with a key above all others goes to the end. -/
lemma insertMember_of_lt (h : ∀ m ∈ ms, m.1 < key) :
    insertMember key value ms = ms ++ [(key, value)] := by
  induction ms with
  | nil => rfl
  | cons m ms ih =>
    have hm := h m List.mem_cons_self
    rw [insertMember, if_neg fun hlt => String.lt_irrefl key (String.lt_trans hlt hm), if_neg,
      ih fun m' hm' => h m' (List.mem_cons_of_mem m hm'), List.cons_append]
    rintro rfl
    exact String.lt_irrefl m.1 hm

/-- Members inserted one after the other. -/
def insertMembers (sorted ms : List (String × Json)) : List (String × Json) :=
  ms.foldl (fun sorted m => Json.insertMember m.1 m.2 sorted) sorted

/-- Members that are sorted stay in order. -/
lemma insertMembers_of_sorted (sorted : List (String × Json)) (h : Sorted (sorted ++ ms)) :
    insertMembers sorted ms = sorted ++ ms := by
  induction ms generalizing sorted with
  | nil => exact (List.append_nil _).symm
  | cons m ms ih =>
    have habove : ∀ m' ∈ sorted, m'.1 < m.1 := fun m' hm' =>
      (List.pairwise_append.1 h).2.2 m' hm' m List.mem_cons_self
    rw [List.append_cons] at h ⊢
    rw [insertMembers, List.foldl_cons, insertMember_of_lt habove]
    exact ih _ h

end

/-! ## Settled values -/

/-- Arrays and objects lie in one another at most so deep, the members of each object are sorted, and
all numbers are in range. -/
inductive Settled : Nat → Json → Prop
  | null {depth : Nat} : Settled depth .null
  | bool {depth : Nat} {b : Bool} : Settled depth (.bool b)
  | number {depth : Nat} {n : Number} (hn : n.InRange) : Settled depth (.number n)
  | string {depth : Nat} {s : String} : Settled depth (.string s)
  | array {depth : Nat} {vs : List Json} (hvs : ∀ v ∈ vs, Settled depth v) :
    Settled (depth + 1) (.array vs)
  | object {depth : Nat} {ms : List (String × Json)} (hms : ∀ m ∈ ms, Settled depth m.2)
      (hsorted : Sorted ms) :
    Settled (depth + 1) (.object ms)

lemma Settled.inRange {depth : Nat} {v : Json} (h : Settled depth v) : v.InRange := by
  induction h with
  | null => exact inRange_null
  | bool => exact inRange_bool _
  | number hn => exact inRange_number hn
  | string => exact inRange_string _
  | array hvs ih => exact inRange_array ih
  | object hms hsorted ih => exact inRange_object ih

end Formulary.Json
