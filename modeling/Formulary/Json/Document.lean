import Formulary.Json.Token
/-!
# JSON documents

A document is what a JSON text holds, with places. A text that goes wrong still gives a document: the
values before the fault are there, and the fault stands where the next one would. So a reader that takes
values in the order of the text finds the first problem of either kind, in the form of the text or in
what it says, without the reader and the text being looked at in turns.

What is wrong may depend on who looks: the one who wants a value, the one who passes it over, or the one
who has enough items and wants the closing bracket. A document has the fault for each of them.

The document is built by a machine with a stack of the arrays and objects that are open, one step for
each token.
-/

namespace Formulary.Json

mutual

/-- A value. Of a word, number or string the whole place counts, of an array or object the position of
its opening bracket. -/
inductive Document where
  | null (place : Span)
  | bool (value : Bool) (place : Span)
  | number (value : Except Fault Number) (place : Span)
  | string (value : Except Fault String) (place : Span)
  | array (start : Nat) (items : Items)
  | object (start : Nat) (members : Members)
  /-- A word, number or string that goes wrong. -/
  | cut (quoted : Bool) (start : Nat) (faults : Faults)
  /-- Nothing that begins a value, or none that may stand there. -/
  | absent (fault : Fault)

/-- The items of an array, up to its closing bracket or what stands in the stead of the next item;
`closing` is then the fault for the reader who wants the bracket. After an item, `resume` is the position
of what comes next: the next item, or what follows the bracket. -/
inductive Items where
  | closed (stop : Nat)
  | broken (faults : Faults) (closing : Fault)
  | item (value : Document) (resume : Nat) (rest : Items)

/-- The members of an object, up to its closing bracket or what stands in the stead of the next member,
`key` being what stands in that of its key. A key stops at `keyStop`, and `colon` is the position of what
comes after it; after a value, `resume` is that of the comma. Where the bracket follows instead, it is the
position after the bracket. -/
inductive Members where
  | closed (stop : Nat)
  | broken (key : Document) (faults : Faults)
  | member (key : Except Fault String) (keyStop colon : Nat) (value : Document) (resume : Nat)
      (rest : Members)

end

/-! ## Open arrays and objects -/

/-- A member of an object that is open. -/
structure Member where
  key : Except Fault String
  keyStop : Nat
  colon : Nat
  value : Document
  resume : Nat

/-- An array or object that is open at an item or at the value of a member: where it starts, and what it
holds before, last first. -/
inductive Frame where
  | array (start : Nat) (before : List (Document × Nat))
  | member (start : Nat) (before : List Member) (key : Except Fault String) (keyStop colon : Nat)

/-- An array of items read, last first, and of what follows them. -/
def arrayOf (start : Nat) (before : List (Document × Nat)) (rest : Items) : Document :=
  .array start (before.foldl (fun rest entry => .item entry.1 entry.2 rest) rest)

/-- An object of members read, last first, and of what follows them. -/
def objectOf (start : Nat) (before : List Member) (rest : Members) : Document :=
  .object start (before.foldl
    (fun rest m => .member m.key m.keyStop m.colon m.value m.resume rest) rest)

/-- The document of a text that goes wrong in a value, which lies in the open arrays and objects given.
They end with the value. -/
def abandon (value : Document) : List Frame → Document
  | [] => value
  | .array start before :: stack => abandon (arrayOf start ((value, start) :: before) (.closed start))
      stack
  | .member start before key keyStop colon :: stack =>
    abandon (objectOf start (⟨key, keyStop, colon, value, start⟩ :: before) (.closed start)) stack

/-! ## What comes next -/

/-- The next token, if the text of `size` bytes does not end before it. -/
structure Ahead where
  size : Nat
  lexeme? : Option Lexeme

namespace Ahead

/-- Where the next token stands, or the end. -/
def position (a : Ahead) : Nat :=
  a.lexeme?.elim a.size fun l => l.place.start

/-- Where a reader stands who has taken the next token if it is the bracket that closes an object. -/
def afterBrace (a : Ahead) : Nat :=
  match a.lexeme? with
  | some ⟨.rightBrace, place⟩ => place.stop
  | _ => a.position

/-- The fault of a token that cannot stand there, or of the end of the text. -/
def fault (a : Ahead) (cause atEnd : Cause) : Fault :=
  match a.lexeme? with
  | some l => ⟨cause, l.place.start + 1⟩
  | none => ⟨atEnd, a.size⟩

/-- The next token as a value of which nothing is opened. -/
def value (a : Ahead) : Document :=
  match a.lexeme? with
  | some ⟨.null, place⟩ => .null place
  | some ⟨.bool b, place⟩ => .bool b place
  | some ⟨.number n, place⟩ => .number n place
  | some ⟨.string s, place⟩ => .string s place
  | some ⟨.leftBracket, place⟩ => .array place.start (.closed place.stop)
  | some ⟨.leftBrace, place⟩ => .object place.start (.closed place.stop)
  | some ⟨.cut quoted faults, place⟩ => .cut quoted place.start faults
  | _ => .absent (a.fault .noValue .endInValue)

end Ahead

/-! ## The machine -/

/-- What the machine waits for. -/
inductive Want where
  | value
  /-- An item, or the bracket that closes an array. -/
  | item (start : Nat) (before : List (Document × Nat))
  /-- A key, or the bracket that closes an object. -/
  | key (start : Nat) (before : List Member)
  /-- The colon after a key. -/
  | colon (start : Nat) (before : List Member) (key : Except Fault String) (keyStop : Nat)
  /-- What follows a value. -/
  | after (value : Document)

/-- What the machine does: it goes on, which it does only at a token, or it ends with a value that goes
wrong. -/
inductive Move where
  | go (want : Want) (stack : List Frame)
  | stop (value : Document) (stack : List Frame)

/-- Where a value may stand. -/
def valueMove (stack : List Frame) (a : Ahead) : Move :=
  match a.lexeme? with
  | some ⟨.leftBracket, place⟩ => .go (.item place.start []) stack
  | some ⟨.leftBrace, place⟩ => .go (.key place.start []) stack
  | _ =>
    match a.value with
    | .cut quoted start faults => .stop (.cut quoted start faults) stack
    | .absent fault => .stop (.absent fault) stack
    | v => .go (.after v) stack

/-- Where an item may stand: the first one, or one after a comma. -/
def itemMove (start : Nat) (before : List (Document × Nat)) (stack : List Frame) (a : Ahead) : Move :=
  match before, a.lexeme? with
  | [], some ⟨.rightBracket, place⟩ => .go (.after (arrayOf start [] (.closed place.stop))) stack
  | [], none =>
    let fault := a.fault .endInArray .endInArray
    .stop (arrayOf start [] (.broken fault.either fault)) stack
  | _, some ⟨.rightBracket, _⟩ =>
    let fault := a.fault .trailingComma .trailingComma
    .stop (arrayOf start before (.broken ⟨fault, a.fault .noValue .noValue⟩ fault)) stack
  | before, _ => valueMove (.array start before :: stack) a

/-- Where a key may stand: the first one, or one after a comma. -/
def keyMove (start : Nat) (before : List Member) (stack : List Frame) (a : Ahead) : Move :=
  let refuse (faults : Faults) : Move := .stop (objectOf start before (.broken a.value faults)) stack
  match before, a.lexeme? with
  | _, some ⟨.string key, place⟩ => .go (.colon start before key place.stop) stack
  | [], some ⟨.rightBrace, place⟩ => .go (.after (objectOf start [] (.closed place.stop))) stack
  | [], none => refuse (a.fault .endInObject .endInObject).either
  | _, some ⟨.cut true faults, _⟩ => refuse faults
  | _, some ⟨.rightBrace, _⟩ =>
    refuse ⟨a.fault .trailingComma .trailingComma, a.fault .noKey .noKey⟩
  | _, _ => refuse ⟨a.fault .noKey .endInValue, a.fault .noKey .endInObject⟩

/-- After a key. -/
def colonMove (start : Nat) (before : List Member) (key : Except Fault String) (keyStop : Nat)
    (stack : List Frame) (a : Ahead) : Move :=
  match a.lexeme? with
  | some ⟨.colon, place⟩ => .go .value (.member start before key keyStop place.start :: stack)
  | _ => .stop (.absent (a.fault .noColon .endInObject))
      (.member start before key keyStop a.afterBrace :: stack)

/-- After an item. The position of what comes after the next token is given. -/
def afterItemMove (start : Nat) (before : List (Document × Nat)) (v : Document)
    (stack : List Frame) (a : Ahead) (following : Nat) : Move :=
  match a.lexeme? with
  | some ⟨.comma, _⟩ => .go (.item start ((v, following) :: before)) stack
  | some ⟨.rightBracket, place⟩ =>
    .go (.after (arrayOf start ((v, place.stop) :: before) (.closed place.stop))) stack
  | _ =>
    let fault := a.fault .noArrayComma .endInArray
    .stop (arrayOf start ((v, a.position) :: before)
      (.broken fault.either (a.fault .trailingCharacters .endInArray))) stack

/-- After the value of a member. -/
def afterMemberMove (start : Nat) (before : List Member) (m : Member) (stack : List Frame)
    (a : Ahead) : Move :=
  match a.lexeme? with
  | some ⟨.comma, _⟩ => .go (.key start (m :: before)) stack
  | some ⟨.rightBrace, place⟩ => .go (.after (objectOf start (m :: before) (.closed place.stop))) stack
  | _ =>
    let fault := a.fault .noObjectComma .endInObject
    .stop (objectOf start (m :: before) (.broken a.value fault.either)) stack

/-- One step, unless a value has been read that nothing is around. -/
def move (want : Want) (stack : List Frame) (a : Ahead) (following : Nat) : Move :=
  match want, stack with
  | .value, stack => valueMove stack a
  | .item start before, stack => itemMove start before stack a
  | .key start before, stack => keyMove start before stack a
  | .colon start before key keyStop, stack => colonMove start before key keyStop stack a
  | .after v, .array start before :: stack => afterItemMove start before v stack a following
  | .after v, .member start before key keyStop colon :: stack =>
    afterMemberMove start before ⟨key, keyStop, colon, v, a.afterBrace⟩ stack a
  | .after v, [] => .stop v []

/-- A document, and the fault of what follows it. -/
structure Reading where
  root : Document
  trailing : Option Fault

/-- The document of a text that stops at a move. -/
def Move.abandoned : Move → Document
  | .go _ stack => abandon (.absent ⟨.endInValue, 0⟩) stack
  | .stop v stack => abandon v stack

/-- Runs the machine over the tokens of a text of `size` bytes. -/
def assemble (size : Nat) (want : Want) (stack : List Frame) (lexemes : List Lexeme) : Reading :=
  match want, stack, lexemes with
  | .after v, [], [] => ⟨v, none⟩
  | .after v, [], l :: _ => ⟨v, some ⟨.trailingCharacters, l.place.start + 1⟩⟩
  | want, stack, [] => ⟨(move want stack ⟨size, none⟩ size).abandoned, none⟩
  | want, stack, l :: rest =>
    match move want stack ⟨size, some l⟩ (Ahead.position ⟨size, rest.head?⟩) with
    | .go want stack => assemble size want stack rest
    | .stop v stack => ⟨abandon v stack, none⟩

/-- The document of a text. -/
def read (text : String) : Reading :=
  assemble text.utf8ByteSize .value [] (tokens text)

/-! ## Passing values over -/

mutual

/-- The first fault for one who passes a document over. -/
def Document.skimFault? : Document → Option Fault
  | .absent fault => some fault
  | .cut _ _ faults => some faults.skimmed
  | .array _ items => items.skimFault?
  | .object _ members => members.skimFault?
  | _ => none

/-- The first fault for one who passes items over. -/
def Items.skimFault? : Items → Option Fault
  | .closed _ => none
  | .broken faults _ => some faults.skimmed
  | .item v _ rest => v.skimFault? <|> rest.skimFault?

/-- The first fault for one who passes members over. -/
def Members.skimFault? : Members → Option Fault
  | .closed _ => none
  | .broken _ faults => some faults.skimmed
  | .member _ _ _ v _ rest => v.skimFault? <|> rest.skimFault?

end

end Formulary.Json
