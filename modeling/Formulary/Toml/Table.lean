/-!
# Tables of TOML

A table is a list of entries in the order in which their keys first came. An entry is a value, a table or a
list of tables. How a table came about decides what may still be added to it: one that is only the way to
another, by a header or by a key with points, is open, and one that a key with points made is open to such
keys alone.

Tables within an inline table follow the same rules, but nothing from outside is added to them.
-/

namespace Formulary.Toml

/-- A value, as far as settings look at it. -/
inductive Value where
  | bool (value : Bool)
  | integer (value : Int)
  | other
deriving DecidableEq

/-- A key and the position at which it is written. -/
structure Key where
  name : String
  position : Nat

/-- The way to an entry: keys with points between them, of which the last is its own. -/
structure Path where
  parents : List Key
  last : Key

/-- The keys of a path. -/
def Path.keys (p : Path) : List Key :=
  p.parents ++ [p.last]

/-- How a table came about. -/
inductive Origin where
  /-- By a header at a position. -/
  | header (position : Nat)
  /-- As the way to a table with a header. -/
  | way
  /-- By a key with points. -/
  | points
deriving DecidableEq

/-- What an entry holds; a value has the position at which it is written. -/
inductive Item where
  | value (value : Value) (position : Nat)
  | table (origin : Origin) (entries : List (Key × Item))
  /-- Tables with equal headers, the last first, the first of which stands at a position. -/
  | tables (position : Nat) (tables : List (List (Key × Item)))

/-- The entries of a table. -/
abbrev Table := List (Key × Item)

namespace Table

/-- The item of a name. -/
def get? (t : Table) (name : String) : Option Item :=
  (t.find? fun e => e.1.name = name).map Prod.snd

/-- A table without the entry of a name. -/
def erase (t : Table) (name : String) : Table :=
  t.filter fun e => e.1.name ≠ name

/-- A table with another item for a key, in the place of the one before if there is one. -/
def put (t : Table) (key : Key) (item : Item) : Table :=
  if (t.get? key.name).isSome then
    t.map fun e => if e.1.name = key.name then (e.1, item) else e
  else t ++ [(key, item)]

/-- Changes the table at the end of a way, which goes through values nowhere and through the last of
several tables. What is missing is made. -/
def modifyAt (change : Table → Option Table) : List Key → Table → Option Table
  | [], t => change t
  | k :: ks, t =>
    match t.get? k.name with
    | none => do return t.put k (.table .way (← modifyAt change ks []))
    | some (.table origin inner) => do return t.put k (.table origin (← modifyAt change ks inner))
    | some (.tables position (last :: before)) => do
      return t.put k (.tables position ((← modifyAt change ks last) :: before))
    | some _ => none

/-- Adds a value under a key that is not there yet. -/
def add (t : Table) (key : Key) (item : Item) : Option Table :=
  if (t.get? key.name).isSome then none else some (t.put key item)

/-- Adds a value at the end of a way that begins behind a key with points. The table there has to be one
that such keys made, as `open_` says of the one at hand. -/
def addPointed (key : Key) (item : Item) : (ways : List Key) → (open_ : Bool) → Table → Option Table
  | [], open_, t => if open_ then t.add key item else none
  | k :: ks, _, t =>
    match t.get? k.name with
    | none => do return t.put k (.table .points (← addPointed key item ks true []))
    | some (.table (.header _) _) => none
    | some (.table origin inner) => do
      return t.put k (.table origin (← addPointed key item ks (origin = .points) inner))
    | some (.tables position (last :: before)) => do
      return t.put k (.tables position ((← addPointed key item ks false last) :: before))
    | some _ => none

/-- Adds a value at a path. -/
def addAt (t : Table) (path : Path) (item : Item) : Option Table :=
  addPointed path.last item path.parents true t

end Table

end Formulary.Toml
