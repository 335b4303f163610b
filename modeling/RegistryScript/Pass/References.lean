import RegistryScript.Pass.Basic
import RegistryScript.Pass.Scope

/-! # References to imported names

* `declaresName`: an identifier declares a name at its place, rather than reading one.
* `isSuperclass`: an identifier is what a class declaration extends.
* `visitNode`: rebinds one reference: a reference is replaced by the expression of its import, a
  shorthand property gets the expression as its value, and a superclass whose expression is no name
  gets a constant declared in front of its statement.
* `walk`: visits a tree in pre-order with an explicit stack of tasks, and knows at each visit what
  is around the visited node: the nodes it lies in and the names that the scopes around it declare.
* `rebindReferences`: rebinds the references of all statements but imports.
-/

namespace RegistryScript
set_option autoImplicit false

/-! ## The role of an identifier -/

def Node.isChildAt (parent : Node) (role : Role) (index : Nat) : Bool :=
  parent.childIndex? role = some index

/-- The innermost of the nodes around an identifier that is no part of a destructuring pattern.
The nodes are given from the inside out. -/
def patternOwner? (ancestors : List Node) : Option Node :=
  ancestors.find? fun n => !n.kind.isPattern

def inAssignedPattern (ancestors : List Node) : Bool :=
  match patternOwner? ancestors with
  | some owner => owner.kind = .assignmentExpression
  | none => false

/-- A pattern declares the names in it, unless it is the target of an assignment or stands in the
head of a loop without a declaration keyword. -/
def patternDeclares (ancestors : List Node) : Bool :=
  match patternOwner? ancestors with
  | none => true
  | some owner =>
    match owner.kind with
    | .assignmentExpression => false
    | .forInStatement => (owner.child? .kind).isSome
    | _ => true

def declaresName (index : Nat) : List Node → Bool
  | [] => false
  | ancestors@(parent :: _) =>
    let isAt (role : Role) : Bool := parent.isChildAt role index
    if parent.kind = .variableDeclarator then isAt .name
    else if parent.kind.isFunction || parent.kind.isClass then isAt .name || isAt .parameter
    else if parent.kind = .formalParameters then true
    else if parent.kind = .catchClause then isAt .parameter
    else if parent.kind = .forInStatement then isAt .left && (parent.child? .kind).isSome
    else if (parent.kind = .assignmentPattern || parent.kind = .objectAssignmentPattern) &&
        isAt .right then false -- a default value reads names
    else parent.kind.isPattern && patternDeclares ancestors

def isSuperclass (index : Nat) : List Node → Bool
  | heritage :: owner :: _ =>
    heritage.kind = .classHeritage && owner.kind = .classDeclaration &&
      heritage.lastNamedIndex? = some index
  | _ => false

/-! ## Visits -/

def isShadowed (scopes : List (List Text)) (name : Text) : Bool :=
  scopes.any fun names => names.contains name

/-- Declares a constant for a name in front of a statement, once for each name. -/
def declareConstant (s : Script) (statement : Node) (name expression : Text) : Pass Unit := do
  if (← get).helperConstants.contains name then return
  modify fun draft => { draft with helperConstants := draft.helperConstants ++ [name] }
  let start ← s.startOf statement
  Pass.edit (Overlay.insertBefore start ("const " ++ name ++ " = " ++ expression ++ ";\n"))

def expandShorthand (s : Script) (n : Node) (expression : Text) : Pass Unit := do
  Pass.edit (Overlay.insertAfter (← s.stopOf n) (": " ++ expression))

/-- Rebinds a node to the expression of the import it refers to, and tells whether it was a
reference. -/
def rebind (s : Script) (statement n : Node) (index : Nat) (ancestors : List Node)
    (name expression : Text) : Pass Bool := do
  match n.kind with
  | .shorthandPropertyIdentifier => expandShorthand s n expression; return true
  | .shorthandPropertyIdentifierPattern =>
    if inAssignedPattern ancestors then expandShorthand s n expression; return true
    else return false
  | _ =>
    if declaresName index ancestors then return false
    else if isSuperclass index ancestors && !expression.isNameLine then
      declareConstant s statement name expression; return true
    else Pass.replaceNode s n expression; return true

def Kind.isNameUse : Kind → Bool
  | .identifier | .shorthandPropertyIdentifier | .shorthandPropertyIdentifierPattern => true
  | _ => false

structure Surroundings where
  ancestors : List Node
  /-- The names that the scopes it lies in declare, scopes without names left out. -/
  scopes : List (List Text) := []

def Surroundings.inside (around : Surroundings) (n : Node) (names : List Text) : Surroundings :=
  { ancestors := n :: around.ancestors
    scopes := if names.isEmpty then around.scopes else names :: around.scopes }

def visitNode (s : Script) (statement : Node) (around : Surroundings) (index : Nat) (n : Node) :
    Pass Bool := do
  if !n.kind.isNameUse then return false
  let name ← s.textOf n
  match (← get).imports.get? name with
  | none => return false
  | some binding =>
    if isShadowed around.scopes name then return false
    else rebind s statement n index around.ancestors name binding.expression

/-! ## The walk -/

def Kind.isSkipped : Kind → Bool
  | .comment | .exportClause | .namespaceExport | .string => true
  | _ => false

def Node.walkedChildren (n : Node) : List (Nat × Node) :=
  n.indexed.filter fun e => e.2.isNamed && !e.2.kind.isSkipped

inductive Task
  | enter (index : Nat) (n : Node)
  | leave
  | closeScope

mutual

/-- Three tasks for each node of a tree. -/
def Node.work : Node → Nat
  | ⟨_, _, _, _, _, _, children⟩ => Node.workAmong children + 3

def Node.workAmong : List Node → Nat
  | [] => 0
  | n :: ns => n.work + Node.workAmong ns

end

/-- A bound on the number of steps a task takes. -/
def Task.work : Task → Nat
  | .enter _ n => n.work
  | .leave | .closeScope => 1

def Task.totalWork : List Task → Nat
  | [] => 0
  | t :: tasks => t.work + Task.totalWork tasks

theorem Node.work_eq (n : Node) : n.work = Node.workAmong n.children + 3 := by
  cases n
  rw [Node.work]

theorem Task.totalWork_enterAll_le (p : Nat × Node → Bool) (ns : List Node) (first : Nat)
    (tasks : List Task) :
    Task.totalWork
        ((((Node.numbered first ns).filter p).map fun e => Task.enter e.1 e.2) ++ tasks) ≤
      Node.workAmong ns + Task.totalWork tasks := by
  induction ns generalizing first with
  | nil => simp [Node.numbered, Node.workAmong]
  | cons n ns ih =>
    have := ih (first + 1)
    rw [Node.numbered, List.filter_cons, Node.workAmong]
    split
    · simp only [List.map_cons, List.cons_append, Task.totalWork, Task.work]
      omega
    · omega

theorem Task.totalWork_walked_le (n : Node) (tasks : List Task) :
    Task.totalWork ((n.walkedChildren.map fun e => Task.enter e.1 e.2) ++ tasks) ≤
      Node.workAmong n.children + Task.totalWork tasks :=
  Task.totalWork_enterAll_le _ _ 0 tasks

def Task.inside (n : Node) (names : List Text) : List Task :=
  (n.walkedChildren.map fun e => Task.enter e.1 e.2) ++
    if names.isEmpty then [.leave] else [.closeScope, .leave]

theorem Task.totalWork_inside_lt (n : Node) (index : Nat) (names : List Text)
    (tasks : List Task) :
    Task.totalWork (Task.inside n names ++ tasks) < Task.totalWork (.enter index n :: tasks) := by
  have := n.work_eq
  rw [Task.inside, List.append_assoc]
  split
  · have := Task.totalWork_walked_le n ([.leave] ++ tasks)
    simp only [List.cons_append, List.nil_append, Task.totalWork, Task.work] at *
    omega
  · have := Task.totalWork_walked_le n ([.closeScope, .leave] ++ tasks)
    simp only [List.cons_append, List.nil_append, Task.totalWork, Task.work] at *
    omega

/-- Carries out tasks, starting with what is around their nodes. Each node is visited, and then the
names that it declares for its inside are asked for, unless nothing inside is walked. What comes
out is the number of visits that count, added to the given one, and what is around in the end. -/
def walk {m : Type → Type} [Monad m] (visit : Surroundings → Nat → Node → m Bool)
    (declared : Node → m (List Text)) (around : Surroundings) (count : Nat) :
    List Task → m (Nat × Surroundings)
  | [] => return (count, around)
  | .leave :: tasks =>
    walk visit declared { around with ancestors := around.ancestors.tail } count tasks
  | .closeScope :: tasks =>
    walk visit declared { around with scopes := around.scopes.tail } count tasks
  | .enter index n :: tasks => do
    let count := if ← visit around index n then count + 1 else count
    -- the names of a node with nothing inside to walk are not asked for, and so cannot fail
    if n.walkedChildren.isEmpty then walk visit declared around count tasks
    else
      let names ← declared n
      walk visit declared (around.inside n names) count (Task.inside n names ++ tasks)
  termination_by tasks => Task.totalWork tasks
  decreasing_by
    · rw [Task.totalWork, Task.work]
      omega
    · rw [Task.totalWork, Task.work]
      omega
    · rw [Task.totalWork, Task.work, Node.work_eq]
      omega
    · exact Task.totalWork_inside_lt n index names tasks

/-! ## All statements -/

def walkedParts (statement : Node) : List (Nat × Node × List Node) :=
  if statement.kind = .exportStatement then
    [Role.declaration, Role.value].filterMap fun role => do
      return (← statement.childIndex? role, ← statement.child? role, [statement])
  else [(0, statement, [])]

def rebindStatement (s : Script) (count : Nat) (statement : Node) : Pass Nat :=
  (walkedParts statement).foldlM
    (fun count (index, part, ancestors) => do
      let (count, _) ←
        walk (visitNode s statement) (fun n => s.scopeNames n) { ancestors } count
          [.enter index part]
      return count)
    count

def rebindReferences (s : Script) : Pass Nat := do
  if (← get).imports.bindings.isEmpty then return 0
  (s.statements.filter fun n => n.kind ≠ .importStatement).foldlM (rebindStatement s) 0

end RegistryScript
