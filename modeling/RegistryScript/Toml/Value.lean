import RegistryScript.Toml.Scalar

/-! # Keys and values of TOML documents

* `key?`: a key: parts with dots between them.
* `valueOf`: a value: a scalar, an array or an inline table. The bound is on the depth.
* `Path`, `modifyAt`: the parts of a key, and a change of the table they lead to.
-/

namespace RegistryScript.Toml
set_option autoImplicit false

abbrev Scan := StateT (List Char) Option

def scan {α : Type} (f : List Char → Option (α × List Char)) : Scan α := f

def skipBlanks : Scan Unit := modify fun cs => cs.dropWhile isBlank

def skip (mark : String) : Scan Bool := do
  match after? mark (← get) with
  | some rest =>
    set rest
    return true
  | none => return false

def expect (mark : String) : Scan Unit := do guard (← skip mark)

def skipComment : Scan Unit := do
  if ← skip "#" then
    let cs ← get
    let comment := cs.takeWhile fun c => c ≠ '\n'
    guard !(comment.any isControl)
    set (cs.drop comment.length)

/-! ## Keys -/

abbrev Path := List Text

def isBareKey (c : Char) : Bool := c.isAlphanum || c = '-' || c = '_'

def keyPart : Scan Text := do
  let cs ← get
  let bare := cs.takeWhile isBareKey
  if bare.isEmpty then
    let part ← scan lineString?
    return textOf part
  else
    set (cs.drop bare.length)
    return textOf bare

def keyOf : Nat → Scan Path
  | 0 => failure
  | n + 1 => do
    let part ← keyPart
    skipBlanks
    if ← skip "." then
      skipBlanks
      return part :: (← keyOf n)
    else return [part]

def key : Scan Path := do keyOf ((← get).length + 1)

/-! ## Tables -/

def setEntry (k : Text) (v : Value) : List (Text × Value) → List (Text × Value)
  | [] => [(k, v)]
  | e :: es => if e.1 = k then (k, v) :: es else e :: setEntry k v es

/-- Changes the table that a path leads to, tables on the way being added where none are. With
`throughLists` a list stands for its last item. -/
def modifyAt (throughLists : Bool) (f : List (Text × Value) → Option (List (Text × Value))) :
    Path → List (Text × Value) → Option (List (Text × Value))
  | [], entries => f entries
  | k :: path, entries => do
    let value ←
      match Value.lookup? k entries with
      | none => (modifyAt throughLists f path []).map Value.table
      | some (.table inner) => (modifyAt throughLists f path inner).map Value.table
      | some (.list items) =>
        match throughLists, items.getLast? with
        | true, some (.table inner) =>
          (modifyAt throughLists f path inner).map fun t => .list (items.dropLast ++ [.table t])
        | _, _ => none
      | some _ => none
    return setEntry k value entries

def addEntry (k : Text) (v : Value) (entries : List (Text × Value)) :
    Option (List (Text × Value)) :=
  if (Value.lookup? k entries).isSome then none else some (entries ++ [(k, v)])

def addAt (throughLists : Bool) (path : Path) (v : Value) (entries : List (Text × Value)) :
    Option (List (Text × Value)) := do
  let k ← path.getLast?
  modifyAt throughLists (addEntry k v) path.dropLast entries

/-- A value whose inside is closed to later keys: a list or a table. -/
def isContainer : Value → Bool
  | .list _ | .table _ => true
  | _ => false

/-- Some path leads to a place that lies on the way to another. -/
def isWithin (closed : List Path) (path : Path) : Bool := closed.any fun p => p.isPrefixOf path

/-! ## Values -/

def skipLines : Nat → Scan Unit
  | 0 => pure ()
  | n + 1 => do
    modify fun cs => cs.dropWhile fun c => isBlank c || c = '\n'
    if (← get).head? = some '#' then
      skipComment
      skipLines n

def skipBetween : Scan Unit := do skipLines ((← get).length + 1)

def arrayItems (value : Scan Value) : Nat → Scan (List Value)
  | 0 => failure
  | n + 1 => do
    skipBetween
    if ← skip "]" then return []
    let item ← value
    skipBetween
    if ← skip "," then return item :: (← arrayItems value n)
    expect "]"
    return [item]

def pair (value : Scan Value) : Scan (Path × Value) := do
  let path ← key
  expect "="
  skipBlanks
  return (path, ← value)

/-- The entries of an inline table from its first key on, with the entries read before and the
paths of those that are closed. -/
def inlineEntries (value : Scan Value) :
    Nat → List Path → List (Text × Value) → Scan (List (Text × Value))
  | 0, _, _ => failure
  | n + 1, closed, entries => do
    let (path, v) ← pair value
    guard !(isWithin closed path)
    let entries ← (addAt false path v entries : Option (List (Text × Value)))
    skipBlanks
    if ← skip "\x7d" then return entries
    expect ","
    skipBlanks
    inlineEntries value n (if isContainer v then path :: closed else closed) entries

def scalar : Scan Value := do
  match (← get).head? with
  | some '"' | some '\x27' => return .text (textOf (← scan string?))
  | _ =>
    if ← skip "true" then return .bool true
    else if ← skip "false" then return .bool false
    else scan moment?

/-- A value; the bound is on the depth and on the number of items. -/
def valueOf : Nat → Scan Value
  | 0 => failure
  | n + 1 => do
    if ← skip "[" then return .list (← arrayItems (valueOf n) (n + 1))
    else if ← skip "\x7b" then
      skipBlanks
      if ← skip "\x7d" then return .table []
      else return .table (← inlineEntries (valueOf n) (n + 1) [] [])
    else scalar

def value : Scan Value := do valueOf ((← get).length + 1)

end RegistryScript.Toml
