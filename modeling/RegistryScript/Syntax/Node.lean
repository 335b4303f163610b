import RegistryScript.Syntax.Kind

/-! # Syntax trees

* `Node`: a node of a syntax tree: its kind, the span of bytes it covers, its role in the parent
  node and its children. A node is named unless it is a mere token.
* `Node.child?`: the first child with a given role. The place of a child among its siblings
  (`Node.childIndex?`) tells apart children that look alike.
* `Node.hasError`: an error or a missing node somewhere in the tree.
-/

namespace RegistryScript
set_option autoImplicit false

inductive Role
  | name | givenName | source | declaration | value | object | left | right | kind | initializer
  | parameter | parameters | body | function | arguments
  | other (name : Text)
deriving DecidableEq, Repr

namespace Role

def ofName (name : Text) : Role :=
  let known : List (Text × Role) :=
    [("name", .name), ("alias", .givenName), ("source", .source), ("declaration", .declaration),
      ("value", .value), ("object", .object), ("left", .left), ("right", .right), ("kind", .kind),
      ("initializer", .initializer), ("parameter", .parameter), ("parameters", .parameters),
      ("body", .body), ("function", .function), ("arguments", .arguments)]
  ((known.find? fun e => e.1 = name).map Prod.snd).getD (.other name)

end Role

structure Node where
  kind : Kind
  start : Nat
  stop : Nat
  role : Option Role := none
  /-- The node is more than a token. -/
  isNamed : Bool := true
  /-- The node was put in by a reader that expected it. -/
  isMissing : Bool := false
  children : List Node := []
deriving Repr, Inhabited

namespace Node

/-! ## Children -/

def namedChildren (n : Node) : List Node := n.children.filter Node.isNamed

def child? (n : Node) (role : Role) : Option Node := n.children.find? fun c => c.role = some role

def childIndex? (n : Node) (role : Role) : Option Nat :=
  n.children.findIdx? fun c => c.role = some role

def childOfKind? (n : Node) (kind : Kind) : Option Node := n.children.find? fun c => c.kind = kind

def namedChildOfKind? (n : Node) (kind : Kind) : Option Node :=
  n.namedChildren.find? fun c => c.kind = kind

def withRole (n : Node) (role : Role) : Node := { n with role := some role }

/-- Nodes with their places, the first one having the given place. -/
def numbered (first : Nat) : List Node → List (Nat × Node)
  | [] => []
  | n :: ns => (first, n) :: numbered (first + 1) ns

def indexed (n : Node) : List (Nat × Node) := numbered 0 n.children

def lastNamedIndex? (n : Node) : Option Nat :=
  (n.indexed.reverse.find? fun e => e.2.isNamed).map Prod.fst

theorem sizeOf_lt_of_mem_children {n c : Node} (h : c ∈ n.children) : sizeOf c < sizeOf n := by
  have := List.sizeOf_lt_of_mem h
  cases n
  simp_all
  omega

/-! ## Errors -/

mutual

def hasError : Node → Bool
  | ⟨kind, _, _, _, _, isMissing, children⟩ => kind = .error || isMissing || anyError children

def anyError : List Node → Bool
  | [] => false
  | n :: ns => n.hasError || anyError ns

end

/-! ## The whole tree -/

mutual

/-- A node and all named nodes inside it, each before those inside it. -/
def descendants : Node → List Node
  | n@⟨_, _, _, _, _, _, children⟩ => n :: namedDescendants children

def namedDescendants : List Node → List Node
  | [] => []
  | n :: ns => if n.isNamed then n.descendants ++ namedDescendants ns else namedDescendants ns

end

end Node

end RegistryScript
