import Mathlib
import RegistryScript.Proofs.Registration.Imports
import RegistryScript.Proofs.Registration.Numbering
import RegistryScript.Proofs.Scoping.Room

/-! # The exports of a module

* `Node.introduced`: the identifiers that a declaration introduces.
* `ExportForm`: the forms of export statements.
* `Script.registrations`, `Script.exportedNames`: what a form registers and the names it exports.
* `registerExports_exact`: when imports are collected and exports registered, the registrations and
  the names are those of the export statements, one after another; but variables named `undefined`
  are overlooked.
-/

namespace RegistryScript
set_option autoImplicit false

/-! ## Introduced identifiers -/

namespace Node

mutual

def bindings : Node → List Node
  | n@⟨kind, _, _, _, _, _, children⟩ =>
    match kind with
    | .identifier | .shorthandPropertyIdentifierPattern | .undefined => [n]
    | .objectPattern | .arrayPattern | .restPattern => bindingsAmong children
    | .pairPattern => bindingsIn .value children
    | .assignmentPattern | .objectAssignmentPattern => bindingsIn .left children
    | _ => []

def bindingsAmong : List Node → List Node
  | [] => []
  | n :: ns => if n.isNamed then n.bindings ++ bindingsAmong ns else bindingsAmong ns

def bindingsIn (role : Role) : List Node → List Node
  | [] => []
  | n :: ns => if n.role = some role then n.bindings else bindingsIn role ns

end

def isPlainName (n : Node) : Bool := n.kind ≠ .undefined

section Targets

variable {n : Node} {ns : List Node} {role : Role}

theorem targetsAmong_eq_filter
    (h : ∀ c ∈ ns, c.targets = c.bindings.filter isPlainName) :
    targetsAmong ns = (bindingsAmong ns).filter isPlainName := by
  induction ns with
  | nil => rfl
  | cons c ns ih =>
    have hns := ih fun d hd => h d (List.mem_cons_of_mem c hd)
    rw [targetsAmong, bindingsAmong]
    split
    · rw [List.filter_append, h c List.mem_cons_self, hns]
    · exact hns

theorem targetsIn_eq_filter (h : ∀ c ∈ ns, c.targets = c.bindings.filter isPlainName) :
    targetsIn role ns = (bindingsIn role ns).filter isPlainName := by
  induction ns with
  | nil => rfl
  | cons c ns ih =>
    rw [targetsIn, bindingsIn]
    split
    · exact h c List.mem_cons_self
    · exact ih fun d hd => h d (List.mem_cons_of_mem c hd)

theorem targets_eq_filter (n : Node) : n.targets = n.bindings.filter isPlainName := by
  induction n using Node.induct with
  | step n ih =>
    obtain ⟨kind, start, stop, r, isNamed, isMissing, children⟩ := n
    have hchildren : ∀ c ∈ children, c.targets = c.bindings.filter isPlainName := ih
    unfold targets bindings
    split
    · rfl
    · rfl
    · exact targetsAmong_eq_filter hchildren
    · exact targetsAmong_eq_filter hchildren
    · exact targetsAmong_eq_filter hchildren
    · exact targetsIn_eq_filter hchildren
    · exact targetsIn_eq_filter hchildren
    · exact targetsIn_eq_filter hchildren
    · split
      all_goals first | rfl | simp_all

end Targets

def introduced (n : Node) : List Node :=
  if n.kind.isVariableDeclaration then
    (n.namedChildren.filter fun c => c.kind = .variableDeclarator).flatMap fun c =>
      ((c.child? .name).map bindings).getD []
  else n.ownNames

/-- The identifiers that are registered of a declaration: of variables only those that are not named
`undefined`. -/
def registered (n : Node) : List Node :=
  if n.kind.isVariableDeclaration then n.introduced.filter isPlainName else n.ownNames

theorem registered_of_variables {n : Node} (h : n.kind.isVariableDeclaration = true) :
    n.registered = n.declared := by
  rw [registered, if_pos h, introduced, if_pos h, List.filter_flatMap, declared]
  refine List.flatMap_congr fun c _ => ?_
  rw [targetsAt]
  cases c.child? .name with
  | none => rfl
  | some target => exact (targets_eq_filter target).symm

end Node

/-! ## Forms of export statements -/

inductive ExportForm
  | named (name : Node)
  /-- Any other default. -/
  | inPlace
  | declaration (declaration : Node)
  /-- Names of the script, each with the one it is exported under. -/
  | listed (specifiers : List (Node × Node))
  | forwarded (source : Node) (specifiers : List (Node × Node))
  | grouped (source name : Node)
  | star (source : Node)

namespace ExportForm

def source? : ExportForm → Option Node
  | .forwarded source _ | .grouped source _ | .star source => some source
  | _ => none

def isInPlace : ExportForm → Bool
  | .inPlace => true
  | _ => false

end ExportForm

namespace Node

def specifierNames? (n : Node) : Option (Node × Node) :=
  (n.child? .name).map fun name => (name, (n.child? .givenName).getD name)

def specifiers (clause : Node) : List (Node × Node) :=
  (clause.namedChildren.filter fun c => c.kind = .exportSpecifier).filterMap specifierNames?

def groupName? (n : Node) : Option Node :=
  match n.namedChildOfKind? .namespaceExport with
  | some clause => clause.namedChildren.getLast?
  | none => n.namedChildOfKind? .identifier

def listForm (n : Node) : ExportForm :=
  match n.source?, n.namedChildOfKind? .exportClause with
  | none, clause? => .listed ((clause?.map specifiers).getD [])
  | some source, some clause => .forwarded source clause.specifiers
  | some source, none =>
    match n.groupName? with
    | some name => .grouped source name
    | none => .star source

def exportForm (n : Node) : ExportForm :=
  if (n.childOfKind? .defaultKeyword).isSome then
    match n.defaultTarget?.bind fun target =>
      if target.kind.mayBeNamedDefault then target.child? .name else none with
    | some name => .named name
    | none => .inPlace
  else
    match n.child? .declaration with
    | some declaration => .declaration declaration
    | none => n.listForm

end Node

namespace Script

def exportForms (s : Script) : List ExportForm :=
  (s.statements.filter fun n => n.kind = .exportStatement).map Node.exportForm

def recordOf (s : Script) (t : ImportTable) (source : Node) : Text :=
  (t.record? (s.stringAt source)).getD []

/-- What a name of the script is read from if an import binds it: by the last entry for it. -/
def importedExpression? (s : Script) (t : ImportTable) (name : Text) : Option Text :=
  (s.importEntries.filter fun e => e.localName = name).getLast?.map fun e =>
    (t.bindingOf e).expression

def listedExports (s : Script) (value : Text → Text) (specifiers : List (Node × Node)) :
    List Export :=
  specifiers.map fun p => .live (s.exportNameAt p.2) (value (s.exportNameAt p.1))

/-- What is registered of an export statement, when `bound` tells what a declaration introduces. -/
def registrations (s : Script) (bound : Node → List Node) (t : ImportTable) :
    ExportForm → List Export
  | .named name => [.live "default" (s.textAt name)]
  | .inPlace => []
  | .declaration declaration =>
    (bound declaration).map fun m => .live (s.textAt m) (s.textAt m)
  | .listed specifiers =>
    s.listedExports (fun name => (s.importedExpression? t name).getD name) specifiers
  | .forwarded source specifiers => s.listedExports (memberAccess (s.recordOf t source)) specifiers
  | .grouped source name => [.live (s.exportNameAt name) (s.recordOf t source)]
  | .star source => [.star (s.recordOf t source) (s.stringAt source)]

def exportedNames (s : Script) (bound : Node → List Node) : ExportForm → List Text
  | .named _ | .inPlace => ["default"]
  | .declaration declaration => (bound declaration).map s.textAt
  | .listed specifiers | .forwarded _ specifiers => specifiers.map fun p => s.exportNameAt p.2
  | .grouped _ name => [s.exportNameAt name]
  | .star _ => []

end Script

def Export.name? : Export → Option Text
  | .live name _ => some name
  | .star _ _ => none

namespace Script

variable {s : Script} {bound : Node → List Node} {t t' : ImportTable} {f : ExportForm}

theorem filterMap_listedExports (value : Text → Text) (specifiers : List (Node × Node)) :
    (s.listedExports value specifiers).filterMap Export.name? =
      specifiers.map fun p => s.exportNameAt p.2 := by
  rw [listedExports, List.filterMap_map, ← List.filterMap_eq_map]
  rfl

theorem filterMap_registrations (hf : f.isInPlace = false) :
    (s.registrations bound t f).filterMap Export.name? = s.exportedNames bound f := by
  cases f with
  | named name => rfl
  | inPlace => exact nomatch hf
  | declaration declaration =>
    rw [registrations, exportedNames, List.filterMap_map, ← List.filterMap_eq_map]
    rfl
  | listed specifiers => rw [registrations, filterMap_listedExports, exportedNames]
  | forwarded source specifiers => rw [registrations, filterMap_listedExports, exportedNames]
  | grouped source name => rfl
  | star source => rfl

theorem registrations_of_isInPlace (hf : f.isInPlace = true) : s.registrations bound t f = [] := by
  cases f with
  | inPlace => rfl
  | _ => exact nomatch hf

/-- The registrations of a form stay as the table grows. -/
theorem registrations_of_extends (hb : t.Binds s.importEntries) (hext : t.Extends t')
    (hsource : ∀ source, f.source? = some source →
      ∃ id, t.record? (s.stringAt source) = some id) :
    s.registrations bound t' f = s.registrations bound t f := by
  have hrecord : ∀ source, f.source? = some source → s.recordOf t' source = s.recordOf t source := by
    intro source hs
    obtain ⟨id, hid⟩ := hsource source hs
    rw [recordOf, recordOf, hid, hext _ _ hid]
  have himported : ∀ name, s.importedExpression? t' name = s.importedExpression? t name := by
    intro name
    have := congrArg (Option.map ImportBinding.expression)
      (@ImportTable.Binds.map_bindingOf t t' name _ hb hext)
    rwa [Option.map_map, Option.map_map] at this
  cases f with
  | named name => rfl
  | inPlace => rfl
  | declaration declaration => rfl
  | listed specifiers =>
    rw [registrations, registrations]
    simp only [himported]
  | forwarded source specifiers => rw [registrations, registrations, hrecord source rfl]
  | grouped source name => rw [registrations, registrations, hrecord source rfl]
  | star source => rw [registrations, registrations, hrecord source rfl]

theorem expression?_eq (hb : t.Binds s.importEntries) (name : Text) :
    t.expression? name = s.importedExpression? t name := by
  rw [ImportTable.expression?, hb.get?_eq, Option.map_map]
  rfl

end Script

/-! ## Actions that queue exports -/

variable {α β : Type} {s : Script} {names : Settings} {d d' : Draft}
  {es es' : ImportTable → List Export} {ns ns' : List Text}

/-- An action adds exports and names to those known and leaves the table of imports, which the
exports may depend on, as it is. -/
def Queues (x : Pass α) (es : ImportTable → List Export) (ns : List Text) : Prop :=
  ∀ d a d', Succeeds x d a d' →
    d'.imports = d.imports ∧ d'.exports = d.exports ++ es d.imports ∧
      d'.exportNames = d.exportNames ++ ns

namespace Queues

theorem of_pure (a : α) : Queues (pure a : Pass α) (fun _ => []) [] := by
  intro d b d' h
  obtain ⟨-, rfl⟩ := succeeds_pure.1 h
  exact ⟨rfl, (List.append_nil _).symm, (List.append_nil _).symm⟩

theorem of_bind {x : Pass α} {f : α → Pass β} (hx : Queues x es ns)
    (hf : ∀ a, Queues (f a) es' ns') :
    Queues (x >>= f) (fun t => es t ++ es' t) (ns ++ ns') := by
  intro d b d' h
  obtain ⟨a, d₁, h₁, h₂⟩ := succeeds_bind.1 h
  obtain ⟨hi, he, hn⟩ := hx d a d₁ h₁
  obtain ⟨hi', he', hn'⟩ := hf a d₁ b d' h₂
  refine ⟨hi'.trans hi, ?_, ?_⟩
  · rw [he', he, hi, List.append_assoc]
  · rw [hn', hn, List.append_assoc]

theorem of_lift_bind {r : Except Fault α} {f : α → Pass β}
    (hf : ∀ a, r = .ok a → Queues (f a) es ns) : Queues (liftM r >>= f) es ns := by
  intro d b d' h
  obtain ⟨a, d₁, h₁, h₂⟩ := succeeds_bind.1 h
  obtain ⟨hok, rfl⟩ := succeeds_lift.1 h₁
  exact hf a hok d₁ b d' h₂

theorem of_forM {f : α → Pass PUnit} {g : ImportTable → α → List Export} {k : α → List Text}
    {xs : List α} (hf : ∀ x ∈ xs, Queues (f x) (fun t => g t x) (k x)) :
    Queues (xs.forM f) (fun t => xs.flatMap (g t)) (xs.flatMap k) := by
  induction xs with
  | nil => exact of_pure _
  | cons x xs ih =>
    exact of_bind (hf x List.mem_cons_self) fun _ => ih fun y hy => hf y (List.mem_cons_of_mem x hy)

theorem of_bind_last {x : Pass α} {f : α → Pass β} (hx : Queues x es ns)
    (hf : ∀ a, Queues (f a) (fun _ => []) []) : Queues (x >>= f) es ns := by
  have := hx.of_bind hf
  simpa only [List.append_nil] using this

theorem of_bind_first {x : Pass α} {f : α → Pass β} (hx : Queues x (fun _ => []) [])
    (hf : ∀ a, Queues (f a) es ns) : Queues (x >>= f) es ns := by
  have := hx.of_bind hf
  simpa only [List.nil_append] using this

end Queues

theorem queues_queue (exported expression : Text) :
    Queues (Pass.queue exported expression) (fun _ => [.live exported expression]) [exported] := by
  intro d a d' h
  obtain rfl := succeeds_modify.1 h
  exact ⟨rfl, rfl, rfl⟩

theorem queues_edit (e : Edit) : Queues (Pass.edit e.run) (fun _ => []) [] := by
  intro d a d' h
  rw [(succeeds_edit e h).2]
  exact ⟨rfl, (List.append_nil _).symm, (List.append_nil _).symm⟩

theorem queues_deleteNode (n : Node) : Queues (Pass.deleteNode s n) (fun _ => []) [] :=
  .of_lift_bind fun a _ => .of_lift_bind fun b _ => queues_edit (.delete a b)

/-! ## The registration of a statement -/

def specifierValue (recordId : Option Text) (t : ImportTable) (name : Text) : Text :=
  match recordId with
  | some id => memberAccess id name
  | none => (t.expression? name).getD name

theorem queues_registerSpecifier (recordId : Option Text) (n : Node) :
    Queues (registerSpecifier s recordId n)
      (fun t => s.listedExports (specifierValue recordId t) n.specifierNames?.toList)
      (n.specifierNames?.toList.map fun p => s.exportNameAt p.2) := by
  have hqueue : ∀ name exported : Text,
      Queues (queueSpecified recordId name exported)
        (fun t => [.live exported (specifierValue recordId t name)]) [exported] := by
    intro name exported
    cases recordId with
    | some id => exact queues_queue _ _
    | none =>
      intro d a d' h
      obtain ⟨d₀, d₁, h₁, h₂⟩ := succeeds_bind.1 h
      obtain ⟨rfl, rfl⟩ := succeeds_get.1 h₁
      exact queues_queue _ _ d₁ a d' h₂
  refine .of_lift_bind fun name hname => .of_lift_bind fun imported himported => ?_
  rw [Node.specifierNames?, demand_eq_ok hname, exportName_eq himported]
  cases n.child? .givenName with
  | none =>
    simp only [pure_bind]
    exact hqueue _ _
  | some given =>
    refine .of_lift_bind fun exported hexported => ?_
    rw [exportName_eq hexported]
    exact hqueue _ _

theorem queues_registerClause (recordId : Option Text) (clause : Node) :
    Queues (registerClause s recordId clause)
      (fun t => s.listedExports (specifierValue recordId t) clause.specifiers)
      (clause.specifiers.map fun p => s.exportNameAt p.2) := by
  rw [Node.specifiers, List.filterMap_eq_flatMap_toList, List.map_flatMap]
  simp only [Script.listedExports, List.map_flatMap]
  exact Queues.of_forM fun n _ => queues_registerSpecifier recordId n

def Script.DeclaresAs (s : Script) (bound : Node → List Node) (declaration : Node) : Prop :=
  ∀ declared, s.declaredNames declaration = .ok declared →
    declared = (bound declaration).map s.textAt

theorem Script.Holds.declaresAs {declaration : Node} (h : s.Holds declaration) :
    s.DeclaresAs Node.registered declaration := by
  intro declared hdeclared
  rw [Script.declaredNames] at hdeclared
  by_cases hk : declaration.kind.isVariableDeclaration = true
  · rw [if_pos hk, h.declaratorNames] at hdeclared
    rw [Node.registered_of_variables hk, Except.ok.inj hdeclared]
  · rw [if_neg hk, h.ownName] at hdeclared
    rw [Node.registered, if_neg hk, Except.ok.inj hdeclared]

def Script.forwarded? (s : Script) (f : ExportForm) : Option Text := f.source?.map s.stringAt

theorem filterMap_forwarded?_singleton (f : ExportForm) :
    [f].filterMap s.forwarded? = (f.source?.map s.stringAt).toList := by
  rw [← Script.forwarded?]
  cases h : s.forwarded? f <;> simp [h]

/-- What the registration of export statements adds to a draft, when `bound` tells what
declarations introduce. -/
structure Registers (s : Script) (names : Settings) (bound : Node → List Node) (d : Draft)
    (fs : List ExportForm) (d' : Draft) : Prop where
  binds : d'.imports.Binds s.importEntries
  extends_imports : d.imports.Extends d'.imports
  recorded : ∀ f ∈ fs, ∀ source, f.source? = some source →
    ∃ id, d'.imports.record? (s.stringAt source) = some id
  lists : ∀ specifiers, d.imports.Lists names specifiers →
    d'.imports.Lists names (specifiers ++ fs.filterMap s.forwarded?)
  bindings_eq : d'.imports.bindings = d.imports.bindings
  exports_eq : d'.exports = d.exports ++ fs.flatMap (s.registrations bound d'.imports)
  names_eq : d'.exportNames = d.exportNames ++ fs.flatMap (s.exportedNames bound)

variable {bound : Node → List Node}

theorem Registers.refl (hb : d.imports.Binds s.importEntries) : Registers s names bound d [] d :=
  ⟨hb, .refl, fun _ hf => absurd hf List.not_mem_nil,
    fun _ hl => by rwa [List.filterMap_nil, List.append_nil], rfl, (List.append_nil _).symm,
    (List.append_nil _).symm⟩

theorem Registers.trans {d'' : Draft} {fs fs' : List ExportForm}
    (h : Registers s names bound d fs d') (h' : Registers s names bound d' fs' d'') :
    Registers s names bound d (fs ++ fs') d'' := by
  refine ⟨h'.binds, h.extends_imports.trans h'.extends_imports, fun f hf source hs => ?_,
    fun specifiers hl => ?_, h'.bindings_eq.trans h.bindings_eq, ?_, ?_⟩
  · rcases List.mem_append.1 hf with hf | hf
    · exact (h.recorded f hf source hs).imp fun id hid => h'.extends_imports _ _ hid
    · exact h'.recorded f hf source hs
  · rw [List.filterMap_append, ← List.append_assoc]
    exact h'.lists _ (h.lists _ hl)
  · -- The first registrations were read from an earlier table, which the later one only extends.
    have hfirst : fs.flatMap (s.registrations bound d''.imports) =
        fs.flatMap (s.registrations bound d'.imports) := by
      refine List.flatMap_congr fun f hf => ?_
      exact Script.registrations_of_extends h.binds h'.extends_imports (h.recorded f hf)
    rw [h'.exports_eq, h.exports_eq, List.flatMap_append, hfirst, List.append_assoc]
  · rw [h'.names_eq, h.names_eq, List.flatMap_append, List.append_assoc]

theorem Queues.registers {x : Pass Unit} {f : ExportForm} {u : Unit} (hx : Queues x es ns)
    (hb : d.imports.Binds s.importEntries)
    (hsource : ∀ source, f.source? = some source →
      ∃ id, d.imports.record? (s.stringAt source) = some id)
    (hes : es d.imports = s.registrations bound d.imports f)
    (hns : ns = s.exportedNames bound f) (h : Succeeds x d u d') :
    Registers s names bound d [f] d' := by
  obtain ⟨hi, he, hn⟩ := hx d u d' h
  rw [← hi] at hb hsource
  refine ⟨hb, hi ▸ .refl, fun f' hf => ?_, fun specifiers hl => ?_, by rw [hi], ?_, ?_⟩
  · rw [List.mem_singleton.1 hf]
    exact hsource
  · rw [← hi] at hl
    rw [filterMap_forwarded?_singleton]
    cases hs : f.source? with
    | none => rwa [Option.map_none, Option.toList_none, List.append_nil]
    | some source =>
      obtain ⟨id, hid⟩ := hsource source hs
      exact hl.of_record? hid
  · rw [he, hes, hi, List.flatMap_singleton]
  · rw [hn, hns, List.flatMap_singleton]

theorem groupName?_eq {n : Node} {name? : Option Node} (h : namespaceName? n = .ok name?) :
    n.groupName? = name? := by
  unfold namespaceName? at h
  unfold Node.groupName?
  cases hc : n.namedChildOfKind? .namespaceExport with
  | none =>
    rw [hc] at h
    exact Except.ok.inj h
  | some clause =>
    rw [hc] at h
    simp only at h ⊢
    split at h
    · next hlast => rw [hlast, Except.ok.inj h]
    · exact nomatch h

theorem source?_listForm {n source : Node} (h : n.source? = some source) :
    n.listForm.source? = some source := by
  rw [Node.listForm, h]
  cases n.namedChildOfKind? .exportClause with
  | some clause => rfl
  | none =>
    cases n.groupName? with
    | some name => rfl
    | none => rfl

theorem queues_forwarded {n source : Node} {t : ImportTable} (hsource : n.source? = some source) :
    Queues (do
        let name? ← liftM (namespaceName? n)
        match n.namedChildOfKind? .exportClause, name? with
        | some clause, _ => registerClause s (some (s.recordOf t source)) clause
        | none, some name => Pass.queue (← s.exportName name) (s.recordOf t source)
        | none, none =>
          modify fun draft => { draft with exports :=
            draft.exports ++ [.star (s.recordOf t source) (s.stringAt source)] } : Pass PUnit)
      (fun _ => s.registrations bound t n.listForm) (s.exportedNames bound n.listForm) := by
  refine .of_lift_bind fun name? hname => ?_
  rw [Node.listForm, hsource]
  cases n.namedChildOfKind? .exportClause with
  | some clause => exact queues_registerClause _ clause
  | none =>
    have hgroup : n.groupName? = name? := groupName?_eq hname
    simp only [hgroup]
    cases name? with
    | some name =>
      refine .of_lift_bind fun exported hexported => ?_
      rw [exportName_eq hexported]
      exact queues_queue _ _
    | none =>
      intro d a d' h
      obtain rfl := succeeds_modify.1 h
      exact ⟨rfl, rfl, (List.append_nil _).symm⟩

section Statement

variable {n : Node} {u : Unit} (hb : d.imports.Binds s.importEntries)
include hb

theorem registers_default (hd : (n.childOfKind? .defaultKeyword).isSome = true)
    (h : Succeeds (registerDefault s names n (s.exportStart n)) d u d') :
    Registers s names bound d [n.exportForm] d' := by
  obtain ⟨target, d₁, h₁, h₂⟩ := succeeds_bind.1 h
  obtain ⟨ht, rfl⟩ := succeeds_lift.1 h₁
  have htarget : n.defaultTarget? = some target := demand_eq_ok ht
  rw [Node.exportForm, if_pos hd, htarget, Option.bind_some]
  cases hname : if target.kind.mayBeNamedDefault then target.child? .name else none with
  | some name =>
    rw [hname] at h₂
    have hx : Queues (do
        Pass.edit (Overlay.delete (s.exportStart n) (← s.startOf target))
        Pass.queue "default" (← s.textOf name) : Pass PUnit)
        (fun _ => [.live "default" (s.textAt name)]) ["default"] :=
      .of_lift_bind fun stop _ => .of_bind_first (queues_edit (.delete _ _)) fun _ =>
        .of_lift_bind fun text htext => by
          rw [Script.textOf_eq htext]
          exact queues_queue _ _
    exact hx.registers hb nofun rfl rfl h₂
  | none =>
    rw [hname] at h₂
    have hx : Queues (do
        let stop ← liftM (s.startOf target)
        Pass.edit (Overlay.replace (s.exportStart n) stop (names.moduleBinding ++ ".default = "))
        modify fun draft => { draft with exportNames := draft.exportNames ++ [("default" : Text)] } :
          Pass PUnit) (fun _ => []) ["default"] := by
      refine .of_lift_bind fun stop _ => .of_bind_first (queues_edit (.replace _ _ _)) fun _ => ?_
      intro d a d' h
      obtain rfl := succeeds_modify.1 h
      exact ⟨rfl, (List.append_nil _).symm, rfl⟩
    exact hx.registers hb nofun rfl rfl h₂

theorem registers_declaration {declaration : Node} {start : Nat}
    (hnames : s.DeclaresAs bound declaration)
    (h : Succeeds (registerDeclaration s declaration start) d u d') :
    Registers s names bound d [.declaration declaration] d' := by
  have hx : Queues (registerDeclaration s declaration start)
      (fun _ => ((bound declaration).map s.textAt).flatMap fun name => [.live name name])
      (((bound declaration).map s.textAt).flatMap fun name => [name]) := by
    refine .of_lift_bind fun declared hdeclared => ?_
    obtain rfl := hnames declared hdeclared
    exact .of_bind_last (.of_forM fun name _ => queues_queue name name) fun _ =>
      .of_lift_bind fun stop _ => queues_edit (.delete _ _)
  refine hx.registers hb nofun ?_ ?_ h
  · rw [← List.map_eq_flatMap, List.map_map]
    rfl
  · exact List.flatMap_singleton' _

theorem registers_listed (hsource : n.source? = none)
    (h : Succeeds (registerNamed s names n) d u d') :
    Registers s names bound d [n.listForm] d' := by
  have hvalue : specifierValue none d.imports =
      fun name => (s.importedExpression? d.imports name).getD name := by
    funext name
    rw [specifierValue, Script.expression?_eq hb]
  unfold registerNamed at h
  rw [hsource] at h
  rw [Node.listForm, hsource]
  have hx : Queues ((n.namedChildOfKind? .exportClause).forM (registerClause s none))
      (fun t => s.listedExports (specifierValue none t)
        (((n.namedChildOfKind? .exportClause).map Node.specifiers).getD []))
      ((((n.namedChildOfKind? .exportClause).map Node.specifiers).getD []).map fun p =>
        s.exportNameAt p.2) := by
    cases n.namedChildOfKind? .exportClause with
    | none => exact .of_pure _
    | some clause => exact queues_registerClause none clause
  refine (hx.of_bind_last fun _ => queues_deleteNode n).registers hb nofun ?_ rfl h
  rw [Script.registrations, hvalue]

theorem registers_forwarded {source : Node} (hsource : n.source? = some source)
    (h : Succeeds (registerNamed s names n) d u d') :
    Registers s names bound d [n.listForm] d' := by
  unfold registerNamed at h
  rw [hsource] at h
  obtain ⟨_, d₁, h₁, hdelete⟩ := succeeds_bind.1 h
  obtain ⟨specifier, d₂, h₂, h₃⟩ := succeeds_bind.1 h₁
  obtain ⟨hspecifier, rfl⟩ := succeeds_lift.1 h₂
  obtain rfl := stringValue_eq hspecifier
  obtain ⟨id, d₃, h₄, h₅⟩ := succeeds_bind.1 h₃
  obtain ⟨himports, hexports, hnames⟩ := succeeds_recordFor h₄
  have htable : d₃.imports = (d₂.imports.recordFor names (s.stringAt source)).2 :=
    congrArg Prod.snd himports
  have hrecord : d₃.imports.record? (s.stringAt source) = some id := by
    rw [htable, ImportTable.record?_recordFor, ← himports]
  have hrecordOf : s.recordOf d₃.imports source = id := by rw [Script.recordOf, hrecord]; rfl
  have hext : d₂.imports.Extends d₃.imports := htable ▸ ImportTable.extends_recordFor
  have hrest := (@queues_forwarded s bound n source d₃.imports hsource).of_bind_last fun _ =>
    @queues_deleteNode s n
  rw [hrecordOf] at hrest
  have hkept : d'.imports = d₃.imports :=
    (hrest d₃ _ d' (succeeds_bind.2 ⟨_, d₁, h₅, hdelete⟩)).1
  -- The record is entered first, and the registrations name it as the table has it from then on.
  have hregisters : Registers s names bound d₃ [n.listForm] d' := by
    refine hrest.registers (htable ▸ hb.recordFor) (fun source' hs => ?_) rfl rfl
      (succeeds_bind.2 ⟨_, d₁, h₅, hdelete⟩)
    rw [source?_listForm hsource] at hs
    exact ⟨id, Option.some.inj hs ▸ hrecord⟩
  refine ⟨hregisters.binds, hext.trans hregisters.extends_imports, hregisters.recorded,
    fun specifiers hl => ?_, ?_, ?_, ?_⟩
  · rw [hkept, htable, filterMap_forwarded?_singleton, source?_listForm hsource]
    exact hl.recordFor
  · rw [hkept, htable, ImportTable.bindings_recordFor]
  · rw [hregisters.exports_eq, hexports]
  · rw [hregisters.names_eq, hnames]

theorem registers_export
    (hn : ∀ declaration, n.child? .declaration = some declaration → s.DeclaresAs bound declaration)
    (h : Succeeds (registerExport s names n) d u d') :
    Registers s names bound d [n.exportForm] d' := by
  obtain ⟨start, d₁, h₁, h₂⟩ := succeeds_bind.1 h
  obtain ⟨rfl, rfl⟩ := succeeds_startOf h₁
  by_cases hd : (n.childOfKind? .defaultKeyword).isSome = true
  · rw [if_pos hd] at h₂
    exact registers_default hb hd h₂
  · rw [if_neg hd] at h₂
    rw [Node.exportForm, if_neg hd]
    cases hc : n.child? .declaration with
    | some declaration =>
      rw [hc] at h₂
      exact registers_declaration hb (hn declaration hc) h₂
    | none =>
      rw [hc] at h₂
      cases hsource : n.source? with
      | none => exact registers_listed hb hsource h₂
      | some source => exact registers_forwarded hb hsource h₂

end Statement

theorem registers_statements {statements : List Node} {u : Unit}
    (hb : d.imports.Binds s.importEntries)
    (hn : ∀ n ∈ statements, ∀ declaration, n.child? .declaration = some declaration →
      s.DeclaresAs bound declaration)
    (h : Succeeds (statements.forM (registerExport s names)) d u d') :
    Registers s names bound d (statements.map Node.exportForm) d' := by
  induction statements generalizing d with
  | nil =>
    obtain ⟨-, rfl⟩ := succeeds_pure.1 h
    exact .refl hb
  | cons n statements ih =>
    obtain ⟨d₁, h₁, h₂⟩ := succeeds_forM_cons h
    have hfirst := registers_export hb (hn n List.mem_cons_self) h₁
    exact hfirst.trans (ih hfirst.binds (fun m hm => hn m (List.mem_cons_of_mem n hm)) h₂)

theorem registers_forM {statements : List Node} {u : Unit} (hb : d.imports.Binds s.importEntries)
    (hn : ∀ n ∈ statements, s.Holds n)
    (h : Succeeds (statements.forM (registerExport s names)) d u d') :
    Registers s names Node.registered d (statements.map Node.exportForm) d' :=
  registers_statements hb
    (fun n hmem _ hc => ((hn n hmem).child (Node.mem_of_child? hc)).declaresAs) h

/-! ## The exports of a module -/

/-- When the imports of a module are collected and then its exports registered, the registrations
and the exported names are those of the export statements, one after another, where of declared
variables those named `undefined` are left out. The modules that exports are taken from have
records, and the names are those of the registrations, but for defaults in place. -/
theorem registerExports_exact {u : Unit} (hs : s.IsLaidOut) (hm : s.IsModule)
    (h : outcome (do collectImports s names; registerExports s names) (Draft.ofText s.text) =
      (.ok u, d)) :
    d.exports = s.exportForms.flatMap (s.registrations Node.registered d.imports) ∧
      d.exportNames = s.exportForms.flatMap (s.exportedNames Node.registered) ∧
      (∀ f ∈ s.exportForms, ∀ source, f.source? = some source →
        ∃ id, d.imports.record? (s.stringAt source) = some id) ∧
      d.exports.filterMap Export.name? =
        (s.exportForms.filter fun f => !f.isInPlace).flatMap (s.exportedNames Node.registered) := by
  obtain ⟨_, d₁, h₁, h₂⟩ := succeeds_bind.1 h
  obtain ⟨hbinds, hexports, hnames⟩ := collectImports_binds h₁
  have hholds : ∀ n ∈ s.statements.filter (fun n => n.kind = .exportStatement), s.Holds n := by
    intro n hn
    have hroot := Script.mem_root_of_mem_statements (List.mem_filter.1 hn).1
    exact ⟨hs, (Node.all_iff.1 hs.spans).2 n hroot, (Node.all_iff.1 hm.shaped).2 n hroot⟩
  have hregisters := registers_forM hbinds hholds h₂
  have hall : d.exports = s.exportForms.flatMap (s.registrations Node.registered d.imports) := by
    rw [hregisters.exports_eq, hexports]
    rfl
  refine ⟨hall, ?_, hregisters.recorded, ?_⟩
  · rw [hregisters.names_eq, hnames]
    rfl
  · -- A default in place is the only form with a name and no registration.
    rw [hall, List.filterMap_flatMap, Script.flatMap_filter_eq]
    refine List.flatMap_congr fun f _ => ?_
    cases hf : f.isInPlace with
    | true => rw [Script.registrations_of_isInPlace hf]; rfl
    | false => exact Script.filterMap_registrations hf

def exportsModule : String :=
  "export \x7b a as e \x7d;\nimport \x7b a \x7d from './a';\nexport const \x7b b, c: [d] \x7d = a;\n" ++
    "export \x7b x as y \x7d from './z';\nexport * as w from './z';\nexport * from './v';\n" ++
    "export default function g() \x7b\x7d\n"

theorem registerExports_exact_exportsModule :
    let s := Script.ofModule exportsModule
    let d := Draft.ofExports s
    s.exportForms.length = 6 ∧
      d.exports = s.exportForms.flatMap (s.registrations Node.registered d.imports) ∧
      d.exportNames = s.exportForms.flatMap (s.exportedNames Node.registered) := by
  intro s d
  have hready : s.IsReady ∧ s.exportForms.length = 6 := by
    have h : s.isReady = true ∧ s.exportForms.length = 6 := by decide +kernel
    exact ⟨Script.isReady_ofModule h.1, h.2⟩
  obtain ⟨hexports, hnames, -⟩ :=
    registerExports_exact hready.1.laidOut hready.1.module hready.1.completes
  exact ⟨hready.2, hexports, hnames⟩

def undefinedModule : String := "export const [undefined] = [1];\n"

/-- A variable named `undefined` is introduced by an exported declaration, but not exported. -/
theorem exportNames_undefinedModule :
    let s := Script.ofModule undefinedModule
    let d := Draft.ofExports s
    s.IsReady ∧ s.exportForms.flatMap (s.exportedNames Node.introduced) = ["undefined"] ∧
      d.exportNames = [] := by
  intro s d
  have h : s.isReady = true ∧
      s.exportForms.flatMap (s.exportedNames Node.introduced) = ["undefined"] ∧
      d.exportNames = [] := by
    decide +kernel
  exact ⟨Script.isReady_ofModule h.1, h.2⟩

end RegistryScript
