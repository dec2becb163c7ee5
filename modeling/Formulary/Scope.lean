import Formulary.Text.Name
/-!
# Scopes

A scope binds names to numbers. Names are distinct and keep the order in which they were first bound;
binding a name again changes its number and not its place.
-/

namespace Formulary

/-- Bindings with one more, in the place of the old one if the name is bound already. -/
def bindName (name : String) (x : Float) : List (String × Float) → List (String × Float)
  | [] => [(name, x)]
  | b :: bs => if b.1 = name then (name, x) :: bs else b :: bindName name x bs

theorem names_bindName (name : String) (x : Float) (bs : List (String × Float)) :
    (bindName name x bs).map Prod.fst =
      if name ∈ bs.map Prod.fst then bs.map Prod.fst else bs.map Prod.fst ++ [name] := by
  induction bs with
  | nil => simp [bindName]
  | cons b bs ih =>
    by_cases h : b.1 = name
    · simp [bindName, h]
    · have h' : ¬ name = b.1 := fun e => h e.symm
      simp only [bindName, h, if_false, List.map_cons, ih, List.mem_cons, h', false_or]
      split <;> rfl

/-- Names bound to numbers, each name once, in the order of their first binding. -/
structure Scope where
  bindings : List (String × Float)
  distinct : (bindings.map Prod.fst).Nodup

namespace Scope

/-- The scope without names. -/
def empty : Scope :=
  ⟨[], List.nodup_nil⟩

instance : Inhabited Scope := ⟨empty⟩

/-- Binds a name to a number. -/
def insert (s : Scope) (name : String) (x : Float) : Scope where
  bindings := bindName name x s.bindings
  distinct := by
    rw [names_bindName]
    split
    · exact s.distinct
    · rename_i h
      refine List.nodup_append.2 ⟨s.distinct, by simp, ?_⟩
      rintro a ha b hb rfl
      obtain rfl := List.mem_singleton.1 hb
      exact h ha

/-- The scope that binds the names of a list one after the other. -/
def ofList (bindings : List (String × Float)) : Scope :=
  bindings.foldl (fun s b => s.insert b.1 b.2) empty

/-- The number that a name is bound to. -/
def get? (s : Scope) (name : String) : Option Float :=
  s.bindings.lookup name

/-- The names in order. -/
def names (s : Scope) : List String :=
  s.bindings.map Prod.fst

/-- Whether a name is bound. -/
def contains (s : Scope) (name : String) : Bool :=
  (s.get? name).isSome

@[simp] theorem get?_empty (name : String) : empty.get? name = none := rfl

theorem names_insert (s : Scope) (name : String) (x : Float) :
    (s.insert name x).names = if name ∈ s.names then s.names else s.names ++ [name] :=
  names_bindName name x s.bindings

theorem get?_insert (s : Scope) (name n : String) (x : Float) :
    (s.insert name x).get? n = if n = name then some x else s.get? n := by
  unfold get? insert
  dsimp only
  induction s.bindings with
  | nil =>
    by_cases h : n = name
    · simp [bindName, h]
    · have hn : (n == name) = false := by simpa using h
      simp [bindName, List.lookup_cons, h, hn]
  | cons b bs ih =>
    obtain ⟨k, y⟩ := b
    by_cases h : n = k
    · subst h
      by_cases hk : n = name <;> simp [bindName, hk]
    · have hn : (n == k) = false := by simpa using h
      by_cases hk : k = name
      · subst hk
        simp [bindName, List.lookup_cons, h, hn]
      · simp [bindName, hk, List.lookup_cons, hn, ih]

end Scope

end Formulary
