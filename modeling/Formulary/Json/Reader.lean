import Formulary.Json.Document
import Formulary.Json.Mismatch
/-!
# Reading values from documents

A reader takes a document, and the number of arrays and objects that may still be opened, to a value
or to the first problem in the order of the text. A problem is a fault of the text or a mismatch; the
latter carries the position at which the text had been read so far once an enclosing record, or the
reader itself, has fixed it.

A record is read from an object, whose members may come in any order and may include others that are
skimmed, or from an array that lists its fields in order. The reader of a record fills a draft, one
field after the other, and makes the record of it at the end.
-/

namespace Formulary.Json

/-- What a reader can find wrong. -/
inductive Problem where
  | fault (fault : Fault)
  | mismatch (mismatch : Mismatch) (position : Option Nat)

namespace Problem

/-- The wording of a problem. -/
def message : Problem → String
  | fault f => f.cause.message
  | mismatch m _ => m.message

/-- Where the text had been read to. -/
def position? : Problem → Option Nat
  | fault f => some f.position
  | mismatch _ p => p

/-- Fixes the position of a problem that has none. -/
def locate (position : Nat) : Problem → Problem
  | mismatch m none => mismatch m (some position)
  | p => p

/-- The wording of a problem found in a text, with the place. -/
def messageIn (text : String) (p : Problem) : String :=
  match p.position? with
  | none => p.message
  | some position =>
    let place := placeOf text position
    p.message ++ " at line " ++ toString place.line ++ " column " ++ toString place.column

end Problem

/-- Reads a document in which a number of arrays and objects may be opened. -/
abbrev Reader (α : Type) := (depth : Nat) → Document → Except Problem α

/-- How deep the arrays and objects of a text may lie. -/
def depthLimit : Nat := 127

/-- A problem that has a position only later. -/
def mismatched {α : Type} (m : Mismatch) : Except Problem α :=
  .error (.mismatch m none)

/-- Fixes the position of the problem, if there is one. -/
def located {α : Type} (position : Nat) (result : Except Problem α) : Except Problem α :=
  result.mapError (Problem.locate position)

/-- A value whose fault, if it has one, is a problem. -/
def sound {α : Type} (value : Except Fault α) : Except Problem α :=
  value.mapError .fault

/-- The problem that a document is when something else is wanted. -/
def unwanted {α : Type} (wanted : String) (d : Document) : Except Problem α :=
  let refuse (found : Found) (position : Nat) : Except Problem α :=
    .error (.mismatch (.invalidType found wanted) (some position))
  match d with
  | .null place => refuse .null place.stop
  | .bool b place => refuse (.bool b) place.stop
  | .number n place => do refuse (.number (← sound n)) place.stop
  | .string s place => do refuse (.string (← sound s)) place.stop
  | .array start _ => refuse .sequence start
  | .object start _ => refuse .map start
  | .cut _ _ faults => .error (.fault faults.read)
  | .absent fault => .error (.fault fault)

/-- The fault that something stands where a document does. -/
def refusedAt (cause : Cause) : Document → Fault
  | .null place | .bool _ place | .number _ place | .string _ place => ⟨cause, place.start + 1⟩
  | .array start _ | .object start _ | .cut _ start _ => ⟨cause, start + 1⟩
  | .absent fault => ⟨cause, fault.position⟩

/-- Opens an array or object at a position, if the depth allows. -/
def opened {α : Type} (depth start : Nat) (read : (depth : Nat) → Except Problem α) :
    Except Problem α :=
  match depth with
  | 0 => .error (.fault ⟨.tooDeep, start + 1⟩)
  | depth + 1 => read depth

namespace Reader

/-! ## Words, numbers and strings -/

def string : Reader String := fun _ d =>
  match d with
  | .string s _ => sound s
  | d => unwanted "a string" d

def bool : Reader Bool := fun _ d =>
  match d with
  | .bool b _ => .ok b
  | d => unwanted "a boolean" d

def float : Reader Float := fun _ d =>
  match d with
  | .number n _ => do return (← sound n).toFloat
  | d => unwanted "f64" d

/-- A count that fits 64 bits. -/
def unsigned (wanted : String) : Reader Nat := fun _ d =>
  match d with
  | .number n place => do
    match ← sound n with
    | .integer (.ofNat n) => return n
    | .integer n =>
      .error (.mismatch (.invalidValue (.number (.integer n)) wanted) (some place.stop))
    | n => .error (.mismatch (.invalidType (.number n) wanted) (some place.stop))
  | d => unwanted wanted d

/-- Something that may be `null`. -/
def option {α : Type} (read : Reader α) : Reader (Option α) := fun depth d =>
  match d with
  | .null _ => .ok none
  | d => some <$> read depth d

/-- The value of a key among the names of an enumeration. -/
def variant {α : Type} (cases : List (String × α)) (name : String) : Except Problem α :=
  match cases.lookup name with
  | some a => .ok a
  | none => mismatched (.unknownVariant name (cases.map Prod.fst))

/-- A word of an enumeration as an object, with the word as its only key and `null` as its value. -/
def variantMember {α : Type} (cases : List (String × α)) : Members → Except Problem α
  | .closed stop => .error (.fault ⟨.noValue, stop⟩)
  | .broken key _ => unwanted "variant identifier" key
  | .member key keyStop _ value resume rest => do
    let a ← located keyStop (variant cases (← sound key))
    match value with
    | .null _ => pure ()
    | value => unwanted "unit" value
    match rest with
    | .closed _ => return a
    | .broken _ faults =>
      if faults.read.cause = .endInObject then .error (.fault faults.read)
      else .error (.fault ⟨.noValue, resume⟩)
    | .member .. => .error (.fault ⟨.noValue, resume⟩)

/-- A word of an enumeration, either a string or an object. -/
def enumeration {α : Type} (cases : List (String × α)) : Reader α := fun depth d =>
  match d with
  | .string s place => do located place.stop (variant cases (← sound s))
  | .object start members => opened depth start fun _ => variantMember cases members
  | .cut true _ faults => .error (.fault faults.read)
  | .absent fault => .error (.fault fault)
  | d => .error (.fault (refusedAt .noValue d))

/-! ## Any value -/

mutual

/-- A document as a value; the members of its objects are sorted by key, the last of each key
counting. -/
def json (depth : Nat) : Document → Except Problem Json
  | .null _ => .ok .null
  | .bool b _ => .ok (.bool b)
  | .number n _ => do return .number (← sound n)
  | .string s _ => do return .string (← sound s)
  | .array start items => opened depth start fun depth => do return .array (← jsonItems depth items)
  | .object start members => opened depth start fun depth => do
    return .object (← jsonMembers depth [] members)
  | .cut _ _ faults => .error (.fault faults.read)
  | .absent fault => .error (.fault fault)

/-- The values of items. -/
def jsonItems (depth : Nat) : Items → Except Problem (List Json)
  | .closed _ => .ok []
  | .broken faults _ => .error (.fault faults.read)
  | .item v _ rest => do
    let v ← json depth v
    return v :: (← jsonItems depth rest)

/-- Members added to sorted ones. -/
def jsonMembers (depth : Nat) (sorted : List (String × Json)) :
    Members → Except Problem (List (String × Json))
  | .closed _ => .ok sorted
  | .broken _ faults => .error (.fault faults.read)
  | .member key _ _ v _ rest => do
    let key ← sound key
    let v ← json depth v
    jsonMembers depth (insertMember key v sorted) rest

end

/-- A value of which one of several kinds is chosen after all of it has been read. -/
def untagged {α : Type} (type : String) (choose : Json → Option α) : Reader α := fun depth d => do
  match choose (← json depth d) with
  | some a => return a
  | none => mismatched (.noVariant type)

/-! ## Lists and maps -/

/-- The values of items. -/
def items {α : Type} (read : Reader α) (depth : Nat) : Items → Except Problem (List α)
  | .closed _ => .ok []
  | .broken faults _ => .error (.fault faults.read)
  | .item v resume rest => do
    let a ← located resume (read depth v)
    return a :: (← items read depth rest)

/-- A list of values. -/
def list {α : Type} (read : Reader α) : Reader (List α) := fun depth d =>
  match d with
  | .array start its => opened depth start fun depth => items read depth its
  | d => unwanted "a sequence" d

/-- The keys and values of members. -/
def entries {α : Type} (read : Reader α) (depth : Nat) :
    Members → Except Problem (List (String × α))
  | .closed _ => .ok []
  | .broken _ faults => .error (.fault faults.read)
  | .member key _ _ v resume rest => do
    let key ← sound key
    let a ← located resume (read depth v)
    return (key, a) :: (← entries read depth rest)

/-- The keys and values of an object in order. -/
def map {α : Type} (read : Reader α) : Reader (List (String × α)) := fun depth d =>
  match d with
  | .object start members => opened depth start fun depth => entries read depth members
  | d => unwanted "a map" d

end Reader

/-! ## Records -/

/-- When a field may be left out. -/
inductive Need where
  /-- Never. -/
  | required
  /-- In an object. -/
  | optional
  /-- In an object and at the end of an array. -/
  | defaulted
deriving DecidableEq

/-- A field of a record with drafts in `δ`: its names, of which the first is its own, when it may be
left out, whether a draft has it, and how it is read into a draft. -/
structure Field (δ : Type) where
  name : String
  aliases : List String
  need : Need
  isSet : δ → Bool
  read : Reader (δ → δ)

/-- A field that fills a place of the draft which is empty before. -/
def Field.filling {δ β : Type} (name : String) (need : Need) (get : δ → Option β)
    (set : β → δ → δ) (read : Reader β) : Field δ :=
  ⟨name, [], need, fun draft => (get draft).isSome, fun depth d => set <$> read depth d⟩

/-- A kind of record: how it is called, its fields in order, whether other members are refused, the
draft without fields, and the record that a draft makes. -/
structure Shape (δ α : Type) where
  name : String
  fields : List (Field δ)
  strict : Bool
  blank : δ
  build : δ → Except Mismatch α

namespace Shape

variable {δ α : Type}

/-- The field that a key names. -/
def field? (shape : Shape δ α) (key : String) : Option (Field δ) :=
  shape.fields.find? fun f => f.name = key || f.aliases.contains key

/-- The names of the fields. -/
def known (shape : Shape δ α) : List String :=
  shape.fields.flatMap fun f => f.name :: f.aliases

/-- What a draft holds for a field that may not be left out. -/
def demanded {β : Type} (field : String) : Option β → Except Mismatch β
  | some b => .ok b
  | none => .error (.missingField field)

/-- Makes the record of a draft. -/
def finish (shape : Shape δ α) (stop : Nat) (draft : δ) : Except Problem α :=
  (shape.build draft).mapError fun m => .mismatch m (some stop)

/-- Fills a draft from the members of an object. -/
def readMembers (shape : Shape δ α) (depth : Nat) (draft : δ) : Members → Except Problem α
  | .closed stop => shape.finish stop draft
  | .broken _ faults => .error (.fault faults.read)
  | .member key _ colon value resume rest => do
    let key ← sound key
    match shape.field? key with
    | some f =>
      if f.isSet draft then located colon (mismatched (.duplicateField f.name))
      else
        let fill ← located resume (f.read depth value)
        shape.readMembers depth (fill draft) rest
    | none =>
      if shape.strict then located colon (mismatched (.unknownField key shape.known))
      else match value.skimFault? with
        | some fault => .error (.fault fault)
        | none => shape.readMembers depth draft rest

/-- Fills a draft from the items of an array, the fields given being those that are left. -/
def readItems (shape : Shape δ α) (depth : Nat) (draft : δ) : List (Field δ) → Items →
    Except Problem α
  | [], .broken _ closing => .error (.fault closing)
  | _ :: _, .broken faults _ => .error (.fault faults.read)
  | fields, .closed stop =>
    match fields.findIdx? (fun f => f.need ≠ .defaulted) with
    | some i =>
      let count := shape.fields.length - fields.length + i
      .error (.mismatch (.invalidLength count shape.name shape.fields.length) (some stop))
    | none => shape.finish stop draft
  | [], .item value _ _ => .error (.fault (refusedAt .trailingCharacters value))
  | f :: fields, .item value resume rest => do
    let fill ← located resume (f.read depth value)
    shape.readItems depth (fill draft) fields rest

/-- The reader of a kind of record. -/
def reader (shape : Shape δ α) : Reader α := fun depth d =>
  match d with
  | .object start members => opened depth start fun depth =>
    shape.readMembers depth shape.blank members
  | .array start its => opened depth start fun depth =>
    shape.readItems depth shape.blank shape.fields its
  | d => unwanted shape.name d

end Shape

/-! ## Texts and values -/

/-- Reads a text that holds one value. -/
def readText {α : Type} (read : Reader α) (text : String) : Except Problem α := do
  let reading := Json.read text
  let a ← read depthLimit reading.root
  match reading.trailing with
  | some fault => .error (.fault fault)
  | none => return a

mutual

/-- A value as a document whose places mean nothing. -/
def toDocument : Json → Document
  | .null => .null (.point 0)
  | .bool b => .bool b (.point 0)
  | .number n => .number (.ok n) (.point 0)
  | .string s => .string (.ok s) (.point 0)
  | .array its => .array 0 (toItems its)
  | .object members => .object 0 (toMembers members)

/-- Values as items. -/
def toItems : List Json → Items
  | [] => .closed 0
  | v :: vs => .item (toDocument v) 0 (toItems vs)

/-- Keys and values as members. -/
def toMembers : List (String × Json) → Members
  | [] => .closed 0
  | (k, v) :: ms => .member (.ok k) 0 0 (toDocument v) 0 (toMembers ms)

end

/-- Reads a value; a mismatch has no position then. -/
def readValue {α : Type} (read : Reader α) (v : Json) : Except Problem α :=
  (read depthLimit (toDocument v)).mapError fun
    | .mismatch m _ => .mismatch m none
    | p => p

end Formulary.Json
