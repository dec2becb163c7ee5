import Formulary.Toml.Value
/-!
# TOML documents

A document is a sequence of statements: entries, and headers that say to which table the entries after
them belong. It is read statement by statement, so that the first one that is wrong is found, be it in its
form or because its key or table is there already; in the latter case the position is that of the key or
of the header.
-/

namespace Formulary.Toml

/-- The header of a table: whether it is one of several with equal headers, and where it stands. -/
structure Header where
  path : Path
  several : Bool
  position : Nat

/-- The statements read so far: the tables without the one at hand, its header unless it is that of the
whole document, and its entries. -/
structure Document where
  root : Table
  header? : Option Header
  entries : Table

namespace Document

/-- The document without statements. -/
def empty : Document :=
  ⟨[], none, []⟩

/-- Adds an entry to the table at hand. -/
def addEntry (d : Document) (path : Path) (item : Item) : Option Document := do
  return { d with entries := ← d.entries.addAt path item }

/-- All tables, with the one at hand in its place. -/
def close (d : Document) : Option Table :=
  match d.header? with
  | none => some d.entries
  | some h =>
    let key := h.path.last
    d.root.modifyAt (fun parent =>
      if h.several then
        match parent.get? key.name with
        | some (.tables position before) => parent.put key (.tables position (d.entries :: before))
        | _ => none
      else parent.add key (.table (.header h.position) d.entries)) h.path.parents

/-- The tables with a place for a table of several, of which there are some already or none yet. -/
def openSeveral (root : Table) (h : Header) : Option Table :=
  let key := h.path.last
  root.modifyAt (fun parent =>
    match parent.get? key.name with
    | none => some (parent.put key (.tables h.position []))
    | some (.tables ..) => some parent
    | some _ => none) h.path.parents

/-- The entries that the table of a header has already, if it was on the way to others. -/
def earlierEntries (root : Table) (path : Path) : Option Table :=
  match path.parents.foldlM (fun (t : Table) k =>
      match t.get? k.name with
      | some (.table _ inner) => some inner
      | some (.tables _ (last :: _)) => some last
      | _ => none) root with
  | none => some []
  | some parent =>
    match parent.get? path.last.name with
    | none => some []
    | some (.table .way inner) => some inner
    | some _ => none

/-- The tables with a way to the table of a header, which is taken out of them if it is there. -/
def openSingle (root : Table) (h : Header) : Option Table :=
  root.modifyAt (fun parent => some (parent.erase h.path.last.name)) h.path.parents

/-- Begins the table of a header. -/
def begin (d : Document) (h : Header) : Option Document := do
  let root ← d.close
  if h.several then
    return ⟨← openSeveral root h, some h, []⟩
  else
    let entries ← earlierEntries root h.path
    return ⟨← openSingle root h, some h, entries⟩

end Document

namespace Scan

/-- Takes an entry and the rest of its line. -/
def entry (d : Document) : Scan Document :=
  checked
    (do
      let p ← path
      required do
        char '='
        blanks
        let start ← position
        let v ← value
        restOfLine
        return (p, Item.value v start))
    fun (p, item) => d.addEntry p item

/-- Takes a header and the rest of its line. -/
def header (d : Document) : Scan Document :=
  checked
    (do
      let start ← position
      let several ← optional (word ['[', '['])
      if several.isNone then
        char '['
        if (← next?).isNone then failAt start false
      required do
        let p ← path
        if several.isSome then word [']', ']'] else char ']'
        restOfLine
        return ⟨p, several.isSome, start⟩)
    d.begin

/-- Takes a statement, a comment or a line end, and the blanks after it. -/
def statement (d : Document) : Scan Document := do
  let d ← match ← next? with
    | none => refuse
    | some '#' => do
      required do
        comment
        lineEnd
      pure d
    | some '[' => required (header d)
    | some '\n' | some '\r' => do
      newline
      pure d
    | some _ => required (entry d)
  blanks
  return d

/-- Takes as many statements as there are, in at most as many steps as the fuel allows. -/
def statements (d : Document) : (fuel : Nat) → Scan Document
  | 0 => return d
  | fuel + 1 => do
    match ← optional (statement d) with
    | none => return d
    | some d => statements d fuel

/-- Takes a whole text; a mark that tells the order of bytes may stand in front of it. -/
def document : Scan Document := do
  discard <| optional (char '\ufeff')
  blanks
  let d ← statements .empty (← get).rest.length
  atEnd
  return d

end Scan

/-- The entries of a text, or the position at which it is no TOML. -/
def read (text : String) : Except Nat Table :=
  match Scan.document ⟨0, text.toList⟩ with
  | .error f => .error f.position
  | .ok (d, c) => d.close.elim (.error c.position) .ok

end Formulary.Toml
