import TypeAtlas.Data.Value
import TypeAtlas.Toml.Fault

namespace TypeAtlas.Toml

abbrev Entries := List (Text × Data)

/-- Gives a new value to an entry, or adds one at the end. -/
def setEntry (es : Entries) (name : Text) (value : Data) : Entries :=
  match es with
  | [] => [(name, value)]
  | (n, v) :: rest => if n = name then (n, value) :: rest else (n, v) :: setEntry rest name value

/-- Changes the last of a list of values. -/
def changeLast (f : Data → Except Problem Data) : List Data → Except Problem (List Data)
  | [] => .error .overwrites
  | [d] => (f d).map ([·])
  | d :: ds => (changeLast f ds).map (d :: ·)

/-- Changes the table behind a key, which is made if need be. Where `throughArrays` holds, the last
item of an array stands for the array. -/
def changeTable (throughArrays : Bool) (f : Entries → Except Problem Entries) (key : Key)
    (es : Entries) : Except Problem Entries :=
  match key with
  | [] => f es
  | name :: names =>
    let change : Data → Except Problem Data
      | .table inner => (changeTable throughArrays f names inner).map .table
      | _ => .error .overwrites
    let changed := match Data.lookup es name with
      | none => change (.table [])
      | some (.list items) =>
        if throughArrays then (changeLast change items).map .list else .error .overwrites
      | some value => change value
    changed.map (setEntry es name)

/-- Makes the table behind a key if it is not there. -/
def openTable (key : Key) (es : Entries) : Except Problem Entries :=
  changeTable true .ok key es

/-- Adds an empty table to the array behind a key. -/
def appendTable (key : Key) (es : Entries) : Except Problem Entries :=
  match key.getLast? with
  | none => .ok es
  | some name =>
    changeTable true (fun inner =>
      match Data.lookup inner name with
      | none => .ok (setEntry inner name (.list [.table []]))
      | some (.list items) => .ok (setEntry inner name (.list (items ++ [.table []])))
      | some _ => .error .overwrites) key.dropLast es

/-- Adds an entry to a table that has none of that name. -/
def addEntry (taken : Problem) (name : Text) (value : Data) (es : Entries) :
    Except Problem Entries :=
  match Data.lookup es name with
  | none => .ok (setEntry es name value)
  | some _ => .error taken

def isContainer : Data → Bool
  | .list _ => true
  | .table _ => true
  | _ => false

/-- A document read so far: its entries, the keys whose tables must not be declared again, those
that will join them with the next header, and the keys whose values must not be changed. -/
structure Document where
  entries : Entries := []
  declared : List Key := []
  pending : List Key := []
  closed : List Key := []

namespace Document

/-- Closing a key closes all keys below it. -/
def isClosed (d : Document) (key : Key) : Bool :=
  d.closed.any (·.isPrefixOf key)

def isDeclared (d : Document) (key : Key) : Bool :=
  d.declared.contains key

def settlePending (d : Document) : Document :=
  { d with declared := d.pending ++ d.declared, pending := [] }

/-- Forgets what is known of a key and the keys below it. -/
def forget (d : Document) (key : Key) : Document :=
  { d with
    declared := d.declared.filter (!key.isPrefixOf ·)
    closed := d.closed.filter (!key.isPrefixOf ·) }

/-- Declares the table behind a key. -/
def declareTable (d : Document) (key : Key) : Except Problem Document := do
  if d.isDeclared key || d.isClosed key then throw (.declaredTwice key)
  return { d with declared := key :: d.declared, entries := ← openTable key d.entries }

/-- Declares a further table in the array behind a key. -/
def declareArrayItem (d : Document) (key : Key) : Except Problem Document := do
  if d.isClosed key then throw (.closedNamespace key)
  let d := d.forget key
  return { d with declared := key :: d.declared, entries := ← appendTable key d.entries }

/-- Gives a value to a key below a header. The tables inside the key become declared with the next
header. -/
def assign (d : Document) (header key : Key) (value : Data) : Except Problem Document := do
  let inside := (List.range (key.length - 1)).map fun k => header ++ key.take (k + 1)
  if let some again := inside.find? d.isDeclared then throw (.redefined again)
  let d := { d with pending := inside ++ d.pending }
  let parent := header ++ key.dropLast
  if d.isClosed parent then throw (.closedNamespace parent)
  let entries ←
    changeTable true (addEntry .overwrites (key.getLast?.getD []) value) parent d.entries
  let closed := if isContainer value then (header ++ key) :: d.closed else d.closed
  return { d with entries, closed }

end Document

/-- A table between braces read so far, with the keys whose values must not be changed. -/
structure InlineTable where
  entries : Entries := []
  closed : List Key := []

/-- Gives a value to a key of an inline table. -/
def InlineTable.assign (t : InlineTable) (key : Key) (value : Data) :
    Except Problem InlineTable := do
  if t.closed.any (·.isPrefixOf key) then throw (.closedNamespace key)
  let name := key.getLast?.getD []
  let entries ← changeTable false (addEntry (.duplicateKey name) name value) key.dropLast t.entries
  return { entries, closed := if isContainer value then key :: t.closed else t.closed }

end TypeAtlas.Toml
