import Mathlib
import RegistryScript.Proofs.Pass.Passes
import RegistryScript.Proofs.Registration.Table

/-! # The imports of a module

* `Script.importEntries`: the entries of the import statements of a script.
* `collectImports_grows`: when the imports are collected, these entries are entered into the table,
  one after another.
* `collectImports_binds`: so the table holds these entries and nothing else; no export is known yet.
-/

namespace RegistryScript
set_option autoImplicit false

variable {α β : Type} {s : Script} {names : Settings} {d d' : Draft} {es es' : List ImportEntry}

/-! ## Names -/

def Script.exportNameAt (s : Script) (name : Node) : Text :=
  if name.kind = .string then s.stringAt name else s.textAt name

theorem stringValue_eq {n : Node} {t : Text} (h : s.stringValue n = .ok t) : t = s.stringAt n := by
  rw [Script.stringAt, h]
  rfl

theorem exportName_eq {n : Node} {t : Text} (h : s.exportName n = .ok t) : t = s.exportNameAt n := by
  rw [Script.exportName] at h
  rw [Script.exportNameAt]
  split at h
  · next hk => rw [if_pos hk, stringValue_eq h]
  · next hk => rw [if_neg hk, Script.textOf_eq h]

/-! ## Entries -/

namespace Script

def specifierEntry? (s : Script) (specifier : Text) (n : Node) : Option ImportEntry :=
  (n.child? .name).map fun name =>
    ⟨((n.child? .givenName).map s.textAt).getD (s.exportNameAt name), specifier,
      some (s.exportNameAt name)⟩

def partEntries (s : Script) (specifier : Text) (part : Node) : List ImportEntry :=
  match part.kind with
  | .identifier => [⟨s.textAt part, specifier, some "default"⟩]
  | .namespaceImport =>
    (part.namedChildren.filter fun c => c.kind = .identifier).map fun c =>
      ⟨s.textAt c, specifier, none⟩
  | .namedImports =>
    (part.namedChildren.filter fun c => c.kind = .importSpecifier).filterMap
      (s.specifierEntry? specifier)
  | _ => []

def statementEntries (s : Script) (n : Node) : List ImportEntry :=
  match n.source? with
  | none => []
  | some source =>
    (n.namedChildren.filter fun c => c.kind = .importClause).flatMap fun clause =>
      clause.namedChildren.flatMap (s.partEntries (s.stringAt source))

def importEntries (s : Script) : List ImportEntry :=
  (s.statements.filter fun n => n.kind = .importStatement).flatMap s.statementEntries

end Script

/-! ## Actions that enter imports -/

def Draft.SameExports (d d' : Draft) : Prop :=
  d'.exports = d.exports ∧ d'.exportNames = d.exportNames

/-- An action enters entries into the table, one after another, and no export. -/
def Enters (names : Settings) (x : Pass α) (es : List ImportEntry) : Prop :=
  ∀ d a d', Succeeds x d a d' → d.imports.Grows names es d'.imports ∧ d.SameExports d'

namespace Enters

theorem of_eq {x : Pass α} (h : ∀ d a d', Succeeds x d a d' →
    d'.imports = d.imports ∧ d.SameExports d') : Enters names x [] := by
  intro d a d' hx
  obtain ⟨himports, hexports⟩ := h d a d' hx
  refine ⟨?_, hexports⟩
  rw [himports]
  exact .refl

theorem of_pure (a : α) : Enters names (pure a : Pass α) [] := .of_eq fun d b d' h => by
  obtain ⟨-, rfl⟩ := succeeds_pure.1 h
  exact ⟨rfl, rfl, rfl⟩

theorem of_bind {x : Pass α} {f : α → Pass β} (hx : Enters names x es)
    (hf : ∀ a, Enters names (f a) es') : Enters names (x >>= f) (es ++ es') := by
  intro d b d' h
  obtain ⟨a, d₁, h₁, h₂⟩ := succeeds_bind.1 h
  obtain ⟨hg, he⟩ := hx d a d₁ h₁
  obtain ⟨hg', he'⟩ := hf a d₁ b d' h₂
  exact ⟨hg.trans hg', he'.1.trans he.1, he'.2.trans he.2⟩

theorem of_lift_bind {r : Except Fault α} {f : α → Pass β}
    (hf : ∀ a, r = .ok a → Enters names (f a) es) : Enters names (liftM r >>= f) es := by
  intro d b d' h
  obtain ⟨a, d₁, h₁, h₂⟩ := succeeds_bind.1 h
  obtain ⟨hok, rfl⟩ := succeeds_lift.1 h₁
  exact hf a hok d₁ b d' h₂

theorem of_forM {f : α → Pass PUnit} {g : α → List ImportEntry} {xs : List α}
    (hf : ∀ x ∈ xs, Enters names (f x) (g x)) : Enters names (xs.forM f) (xs.flatMap g) := by
  induction xs with
  | nil => exact of_pure _
  | cons x xs ih =>
    rw [List.flatMap_cons]
    exact of_bind (hf x List.mem_cons_self) fun _ => ih fun y hy => hf y (List.mem_cons_of_mem x hy)

end Enters

theorem succeeds_recordFor {specifier id : Text}
    (h : Succeeds (Pass.recordFor names specifier) d id d') :
    (id, d'.imports) = d.imports.recordFor names specifier ∧ d.SameExports d' := by
  obtain ⟨hid, rfl⟩ := Prod.mk.inj (Eq.symm h)
  rw [Except.ok.inj hid]
  exact ⟨rfl, rfl, rfl⟩

theorem enters_recordFor (specifier : Text) : Enters names (Pass.recordFor names specifier) [] := by
  intro d id d' h
  obtain ⟨himports, hexports⟩ := succeeds_recordFor h
  have htable : d'.imports = (d.imports.recordFor names specifier).2 := congrArg Prod.snd himports
  refine ⟨?_, hexports⟩
  rw [htable]
  exact .recordFor specifier .refl

theorem enters_bind (localName specifier : Text) (imported : Option Text) :
    Enters names (Pass.bind names localName specifier imported)
      [⟨localName, specifier, imported⟩] := by
  intro d a d' h
  obtain rfl := succeeds_modify.1 h
  exact ⟨.enter ⟨localName, specifier, imported⟩ .refl, rfl, rfl⟩

theorem enters_edit (e : Edit) : Enters names (Pass.edit e.run) [] := .of_eq fun d a d' h => by
  rw [(succeeds_edit e h).2]
  exact ⟨rfl, rfl, rfl⟩

theorem enters_deleteNode (n : Node) : Enters names (Pass.deleteNode s n) [] :=
  .of_lift_bind fun a _ => .of_lift_bind fun b _ => enters_edit (.delete a b)

/-! ## The pass -/

theorem enters_bindSpecifier {specifier : Text} (n : Node) :
    Enters names (bindSpecifier s names specifier n) (s.specifierEntry? specifier n).toList := by
  refine .of_lift_bind fun name hname => .of_lift_bind fun imported himported => ?_
  rw [Script.specifierEntry?, demand_eq_ok hname, exportName_eq himported]
  cases n.child? .givenName with
  | none => exact enters_bind _ _ _
  | some given =>
    refine .of_lift_bind fun localName hlocal => ?_
    rw [Script.textOf_eq hlocal]
    exact enters_bind _ _ _

theorem enters_bindPart {specifier : Text} (part : Node) :
    Enters names (bindPart s names specifier part) (s.partEntries specifier part) := by
  unfold bindPart Script.partEntries
  cases part.kind with
  | identifier =>
    refine .of_lift_bind fun name hname => ?_
    rw [Script.textOf_eq hname]
    exact enters_bind _ _ _
  | namespaceImport =>
    simp only [List.map_eq_flatMap]
    refine .of_forM fun c _ => .of_lift_bind fun name hname => ?_
    rw [Script.textOf_eq hname]
    exact enters_bind _ _ _
  | namedImports =>
    simp only [List.filterMap_eq_flatMap_toList]
    exact .of_forM fun c _ => enters_bindSpecifier c
  | _ => exact .of_pure _

theorem enters_collectImport (n : Node) :
    Enters names (collectImport s names n) (s.statementEntries n) := by
  unfold collectImport Script.statementEntries
  cases n.source? with
  | none => exact fun d a d' h => absurd (succeeds_bind.1 h) fun ⟨_, _, h, _⟩ => not_succeeds_throw h
  | some source =>
    refine .of_lift_bind fun specifier hs => ?_
    rw [stringValue_eq hs]
    have hclauses : ∀ sp, Enters names
        ((n.namedChildren.filter fun c => c.kind = .importClause).forM
          fun clause : Node => clause.namedChildren.forM (bindPart s names sp))
        ((n.namedChildren.filter fun c => c.kind = .importClause).flatMap fun clause =>
          clause.namedChildren.flatMap (s.partEntries sp)) := fun sp =>
      .of_forM fun clause _ => .of_forM fun part _ => enters_bindPart part
    have hrest := (hclauses (s.stringAt source)).of_bind fun _ => enters_deleteNode (s := s) n
    rw [List.append_nil] at hrest
    exact (enters_recordFor _).of_bind fun _ => hrest

theorem collectImports_grows {u : Unit} (h : Succeeds (collectImports s names) d u d') :
    d.imports.Grows names s.importEntries d'.imports ∧ d.SameExports d' := by
  have hpass : Enters names (collectImports s names) s.importEntries :=
    .of_forM fun n _ => enters_collectImport n
  exact hpass d u d' h

/-- When the imports of a fresh draft are collected, the table holds the entries of the import
statements and nothing else. -/
theorem collectImports_binds {u : Unit}
    (h : Succeeds (collectImports s names) (Draft.ofText s.text) u d) :
    d.imports.Binds s.importEntries ∧ d.exports = [] ∧ d.exportNames = [] := by
  obtain ⟨hgrows, hexports⟩ := collectImports_grows h
  exact ⟨ImportTable.binds_nil.grows hgrows, hexports⟩

end RegistryScript
