import Mathlib
import RegistryScript.Proofs.Pass.Passes
import RegistryScript.Proofs.References.Local

/-! # A direct printer of converted scripts

The body of a registry script can be printed from the tree of the module in one go from left to
right, without any edits of its text. All text is copied but for what this module tells.

* `Script.printName`: a name is printed as its import is read.
* `Swap`, `Script.childSwap`: what is printed instead of the callee and the argument of a
  redirected call of `import`.
* `Script.printNode`: the text of a node.
* `Script.printStatement`: the text of a statement: nothing for imports and for exports of names, and
  exported values without what stands in front of them.
* `Script.printModule`: the text of the whole script, constants for superclasses in front of the
  first statement that needs them.
-/

namespace RegistryScript
set_option autoImplicit false

inductive Swap
  | none
  /-- A text instead of the whole node. -/
  | whole (text : Text)
  /-- A text instead of the nodes inside it, comments and tokens left out. -/
  | inner (text : Text)
deriving DecidableEq, Repr

namespace Script

variable (s : Script) (names : Settings) (imports : ImportTable)

/-! ## Names -/

/-- The text of a name: the expression of its import, or the name with the expression as the value
of a property, or the name itself. -/
def printName (trail : Trail) (n : Node) : Text :=
  match s.rebinding? imports trail n with
  | some (.replaced expression) => expression
  | some (.expanded expression) => s.textAt n ++ ": " ++ expression
  | _ => s.textAt n

/-! ## Calls of `import` -/

/-- The key, as a literal, of the module that a call of `import` loads through the registry: its
only argument is a string that names a relative module. -/
def redirectKey? (call : Node) : Option Text :=
  if call.isDynamicImport then
    match call.callArguments with
    | [argument] =>
      if argument.kind = .string && isRelative (s.stringAt argument) then
        some (registryKey (s.stringAt argument)).quote
      else none
    | _ => none
  else none

/-- What is printed instead of the child at a place of a call: the registry's loader instead of the
callee of a redirected call, the key of the module instead of its argument. -/
def callSwap (call : Node) (i : Nat) : Swap :=
  match s.redirectKey? call with
  | none => .none
  | some key =>
    if call.isChildAt .function i then .whole names.dynamicImportHelper
    else if call.isChildAt .arguments i then .inner key
    else .none

def childSwap (redirects : Bool) (swap : Swap) (n : Node) (i : Nat) (c : Node) : Swap :=
  let ofCall := if redirects then s.callSwap names n i else .none
  match swap with
  | .inner text => if c.isNamed && c.kind ≠ .comment then .whole text else ofCall
  | _ => ofCall

/-! ## Nodes -/

mutual

/-- The text of a node with a trail. References are rebound in it if `rebinds` says so, and calls of
`import` are redirected if `redirects` does. -/
def printNode (rebinds redirects : Bool) (trail : Trail) (swap : Swap) : Node → Text
  | n@⟨_, _, _, _, _, _, children⟩ =>
    match swap with
    | .whole text => text
    | _ =>
      if rebinds && n.kind.isNameUse then s.printName imports trail n
      else printChildren rebinds redirects trail swap n (s.startAt n) 0 children

def printChildren (rebinds redirects : Bool) (trail : Trail) (swap : Swap) (n : Node)
    (start i : Nat) : List Node → Text
  | [] => s.text.cut start (s.stopAt n)
  | c :: cs =>
    s.text.cut start (s.startAt c) ++
      printNode (rebinds && (c.isNamed && !c.kind.isSkipped)) (redirects && c.isNamed)
        ((n, i) :: trail) (s.childSwap names redirects swap n i c) c ++
      printChildren rebinds redirects trail swap n (s.stopAt c) (i + 1) cs

end

/-! ## Statements -/

/-- The text of an export statement whose exported part stands in a role: what stands in front of
the part, from the keyword on, is not printed, and a text is printed instead. -/
def printExported (statement : Node) (role : Role) (text : Text) : Text :=
  match statement.childIndex? role, statement.child? role with
  | some i, some part =>
    s.text.cut (s.startAt statement) (s.exportStart statement) ++ text ++
      s.printNode names imports true part.isNamed [(statement, i)] .none part ++
      s.text.cut (s.stopAt part) (s.stopAt statement)
  | _, _ => []

/-- The text of an export statement: an exported declaration and a named default are printed as
they would be without the export, any other default as an assignment. -/
def printExport (statement : Node) : Text :=
  let role := if (statement.child? .declaration).isSome then Role.declaration else .value
  match statement.child? role with
  | none => []
  | some part =>
    if (statement.childOfKind? .defaultKeyword).isSome && !part.keepsName then
      s.printExported names imports statement role (names.moduleBinding ++ ".default = ")
    else s.printExported names imports statement role []

def printStatement (statement : Node) : Text :=
  if statement.kind = .importStatement then []
  else if statement.kind = .exportStatement then s.printExport names imports statement
  else s.printNode names imports true true [] .none statement

/-! ## The whole script -/

/-- The text of a script from an offset on, where some nodes at its top are to be printed and
constants for some names have been declared. -/
def printStatements (constants : List Text) (start : Nat) : List Node → Text
  | [] => s.text.drop start
  | c :: cs =>
    if isStatement c then
      s.text.cut start (s.startAt c) ++ s.constantsOf imports constants (visitsOf c) ++
        s.printStatement names imports c ++
        printStatements (s.rebindConstants imports constants (visitsOf c)) (s.stopAt c) cs
    else printStatements constants start cs

def printModule : Text := s.printStatements names imports [] 0 s.root.children

end Script

/-! ## Export statements -/

def Node.callsOnlyAt (n : Node) (place : Option Nat) : Bool :=
  n.indexed.all fun e =>
    decide (place = some e.1) || !e.2.isNamed || !(e.2.descendants.any Node.isDynamicImport)

/-- An export statement has a keyword `export`, and behind it either `default` and one exported
part, or a declaration, or only names. Calls of `import` stand in the exported part. -/
def Node.isExportShaped (n : Node) : Bool :=
  match n.childOfKind? .exportKeyword, n.child? .declaration, n.child? .value with
  | none, _, _ => false
  | some keyword, some declaration, none =>
    decide (keyword.stop ≤ declaration.start) && n.callsOnlyAt (n.childIndex? .declaration)
  | some keyword, none, some value =>
    (n.childOfKind? .defaultKeyword).isSome && decide (keyword.stop ≤ value.start) &&
      n.callsOnlyAt (n.childIndex? .value)
  | some _, none, none => (n.childOfKind? .defaultKeyword).isNone && n.callsOnlyAt none
  | some _, some _, some _ => false

def Script.exportsAreShaped (s : Script) : Bool :=
  s.statements.all fun n => n.kind ≠ .exportStatement || n.isExportShaped

end RegistryScript
