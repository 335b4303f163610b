import RegistryScript.Toml.Value

/-! # TOML documents

* `parse?`: the table of a document, if it is well formed.
* `Draft`: the table read so far, with the places that are closed: a table may be opened by a header
  only once, a table that dotted keys made is not opened by a header, and the inside of a value is
  closed for good.
-/

namespace RegistryScript.Toml
set_option autoImplicit false

structure Draft where
  entries : List (Text × Value) := []
  header : Path := []
  /-- The tables that are not to be opened again. -/
  opened : List Path := []
  /-- The tables that are not to be opened from the next header on. -/
  pending : List Path := []
  /-- The values whose inside is closed. -/
  closed : List Path := []

namespace Draft

/-- Enters the value of a key. Dotted keys do not lead through a table that a header opened. -/
def enter? (d : Draft) (path : Path) (v : Value) : Option Draft := do
  let dotted := ((List.range path.length).drop 1).map fun n => d.header ++ path.take n
  guard !(dotted.any d.opened.contains)
  guard !(isWithin d.closed (d.header ++ path.dropLast))
  let entries ← addAt true (d.header ++ path) v d.entries
  return { d with
    entries
    pending := dotted ++ d.pending
    closed := if isContainer v then (d.header ++ path) :: d.closed else d.closed }

def settle (d : Draft) : Draft := { d with opened := d.pending ++ d.opened, pending := [] }

def openTable? (d : Draft) (path : Path) : Option Draft := do
  guard !(d.opened.contains path || isWithin d.closed path)
  let entries ← modifyAt true some path d.entries
  return { d with entries, header := path, opened := path :: d.opened }

def appendTable (k : Text) (entries : List (Text × Value)) : Option (List (Text × Value)) :=
  match Value.lookup? k entries with
  | none => some (entries ++ [(k, .list [.table []])])
  | some (.list items) => some (setEntry k (.list (items ++ [.table []])) entries)
  | some _ => none

/-- Opens a new table in a list of tables. What was closed inside the table before is open
again. -/
def openItem? (d : Draft) (path : Path) : Option Draft := do
  guard !(isWithin d.closed path)
  let k ← path.getLast?
  let entries ← modifyAt true (appendTable k) path.dropLast d.entries
  let outside (p : Path) : Bool := !(path.isPrefixOf p)
  return { d with
    entries
    header := path
    opened := path :: d.opened.filter outside
    closed := d.closed.filter outside }

end Draft

def headerLine (d : Draft) : Scan Draft := do
  let d := d.settle
  if ← skip "[[" then
    skipBlanks
    let d ← (d.openItem? (← key) : Option Draft)
    expect "]]"
    return d
  else
    expect "["
    skipBlanks
    let d ← (d.openTable? (← key) : Option Draft)
    expect "]"
    return d

def content (d : Draft) : Scan Draft := do
  match (← get).head? with
  | some '[' => headerLine d
  | some c =>
    if isBareKey c || c = '"' || c = '\x27' then
      let (path, v) ← pair value
      (d.enter? path v : Option Draft)
    else return d
  | none => return d

def lines : Nat → Draft → Scan Draft
  | 0, _ => failure
  | n + 1, d => do
    skipBlanks
    let d ← content d
    skipBlanks
    skipComment
    if (← get).isEmpty then return d
    expect "\n"
    lines n d

/-- A text with each carriage return left out that a line feed follows. -/
def unifyLineEnds : List Char → List Char
  | [] => []
  | c :: cs => if c = '\r' ∧ cs.head? = some '\n' then unifyLineEnds cs else c :: unifyLineEnds cs

def parse? (cs : List Char) : Option Value := do
  let (d, _) ← (lines (cs.length + 1) {}).run (unifyLineEnds cs)
  return .table d.entries

end RegistryScript.Toml
