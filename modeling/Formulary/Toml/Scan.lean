import Formulary.Text.Span
/-!
# Scanning a TOML text

A scan takes something off the front of what is left of a text, or fails at a position. A failure may be
final; one that is not leaves the way open for another scan of the same place. What a final failure is
depends on how far the text has been understood: behind the equality sign of an entry nothing but a value
can come.
-/

namespace Formulary.Toml

/-- What is left of a text, and the position at which it begins. -/
structure Cursor where
  position : Nat
  rest : List Char

/-- Where a scan fails, and whether no other scan is tried. -/
structure Failure where
  position : Nat
  final : Bool

/-- A scan of the front of a text. -/
abbrev Scan (α : Type) := StateT Cursor (Except Failure) α

namespace Scan

variable {α β : Type}

/-- The position of what is left. -/
def position : Scan Nat := do
  return (← get).position

/-- Fails at a position. -/
def failAt (position : Nat) (final : Bool) : Scan α :=
  throw ⟨position, final⟩

/-- Fails where the scan stands, in favour of another. -/
def refuse : Scan α := do
  failAt (← position) false

/-- A scan that has to succeed. -/
def required (s : Scan α) : Scan α := fun c =>
  (s c).mapError fun f => { f with final := true }

/-- A scan, or another one in its stead. -/
def orElse (s t : Scan α) : Scan α := fun c =>
  match s c with
  | .error f => if f.final then .error f else t c
  | r => r

/-- A scan of something that may be there. -/
def optional (s : Scan α) : Scan (Option α) :=
  orElse (some <$> s) (pure none)

/-- A scan of something that has to pass a check; if it does not, the failure is at its beginning. -/
def checked (s : Scan α) (check : α → Option β) : Scan β := do
  let start ← position
  match check (← s) with
  | some b => return b
  | none => failAt start false

/-- A scan after which the place is as before. -/
def ahead (s : Scan α) : Scan α := do
  let c ← get
  let a ← s
  set c
  return a

/-! ## Characters -/

/-- The next character, if there is one. -/
def next? : Scan (Option Char) := do
  return (← get).rest.head?

/-- Takes the next character. -/
def any : Scan Char := fun c =>
  match c.rest with
  | [] => .error ⟨c.position, false⟩
  | x :: rest => .ok (x, ⟨c.position + x.utf8Size, rest⟩)

/-- Takes the next character, which has to be one of a class. -/
def one (p : Char → Bool) : Scan Char :=
  checked any fun x => if p x then some x else none

/-- Takes the character given. -/
def char (x : Char) : Scan Unit := do
  discard <| one (· = x)

/-- Takes the characters given, or nothing. -/
def word (w : List Char) : Scan Unit := fun c =>
  if w.isPrefixOf c.rest then .ok ((), ⟨c.position + byteLength w, c.rest.drop w.length⟩)
  else .error ⟨c.position, false⟩

/-- Takes characters of a class, at most as many as given. -/
def upTo (count : Nat) (p : Char → Bool) : Scan (List Char) := fun c =>
  let taken := (c.rest.take count).takeWhile p
  .ok (taken, ⟨c.position + byteLength taken, c.rest.drop taken.length⟩)

/-- Takes as many characters of a class as there are. -/
def run (p : Char → Bool) : Scan (List Char) := fun c =>
  let taken := c.rest.takeWhile p
  .ok (taken, ⟨c.position + byteLength taken, c.rest.drop taken.length⟩)

/-- Takes as many characters of a class as there are, of which there has to be one. -/
def run₁ (p : Char → Bool) : Scan (List Char) :=
  checked (run p) fun taken => if taken = [] then none else some taken

/-- Succeeds at the end of the text. -/
def atEnd : Scan Unit := do
  if (← next?).isSome then refuse

/-! ## Repetition -/

/-- Scans as often as there is something to scan, in at most as many steps as the fuel allows. -/
def manyWithin (s : Scan α) : (fuel : Nat) → Scan (List α)
  | 0 => return []
  | fuel + 1 => do
    match ← optional s with
    | none => return []
    | some a => return a :: (← manyWithin s fuel)

/-- Scans as often as there is something to scan. What is scanned takes a character, so that there are no
more of it than characters. -/
def many (s : Scan α) : Scan (List α) := do
  manyWithin s (← get).rest.length

/-- Scans at least once. -/
def many₁ (s : Scan α) : Scan (List α) := do
  return (← s) :: (← many s)

/-- Things with a character between them. A separator behind which nothing comes is left. -/
def separated (s : Scan α) (separator : Char) : Scan (List α) := do
  match ← optional s with
  | none => return []
  | some a => return a :: (← many do char separator; s)

end Scan

end Formulary.Toml
