import Mathlib
import RegistryScript.Proofs.Commutation.Passes
import RegistryScript.Proofs.Envelope.Seams
import RegistryScript.Proofs.Printing.Module
import RegistryScript.Proofs.Registration.Exports

/-! # The records of a registry script

The records of the modules that a script takes something from are numbered while its statements are
read, named in expressions from then on, and declared in the header in the end.

* `Script.specifiers`: the specifiers of these modules, in the order of their first appearance.
* `Script.ReadsImport`: an expression that a name of the script is read from.
* `Script.Closes`: a draft has a record for each specifier, and its exports and references name no
  other records than those of the specifiers they stand for.
* `convertBody_closes`: so it is when the passes over the body have completed.
* `records_of_transform`: a registry script looks these records up, each once and in their order.
-/

namespace RegistryScript
set_option autoImplicit false

variable {α β : Type} {s : Script} {names : Settings} {d d' : Draft} {specifier : Text}

/-! ## Specifiers -/

namespace Script

def imported? (s : Script) (n : Node) : Option Text := n.source?.map s.stringAt

/-- The specifiers of the import statements of a script, and then those of its exports from other
modules. -/
def sources (s : Script) : List Text :=
  (s.statements.filter fun n => n.kind = .importStatement).filterMap s.imported? ++
    s.exportForms.filterMap s.forwarded?

def specifiers (s : Script) : List Text := s.sources.eraseDups

end Script

/-! ## Names of declarations of any shape -/

def Node.namesRead (n : Node) : List Node :=
  if n.kind.isVariableDeclaration then
    (n.namedChildren.filter fun c => c.kind = .variableDeclarator).flatMap fun c =>
      ((c.child? .name).map fun target => (boundIdentifiers target).toOption.getD []).getD []
  else n.ownNames

theorem boundNames?_eq {target? : Option Node} {bound : List Text}
    (h : s.boundNames? target? = .ok bound) :
    bound = ((target?.map fun target =>
      (boundIdentifiers target).toOption.getD []).getD []).map s.textAt := by
  cases target? with
  | none => exact (Except.ok.inj h).symm
  | some target =>
    rw [Script.boundNames?, Script.boundNames] at h
    cases hb : boundIdentifiers target with
    | error f =>
      rw [hb] at h
      cases h
    | ok nodes =>
      rw [hb] at h
      rw [mapM_eq_map (fun _ _ => Script.textOf_eq) h]
      simp [hb, Except.toOption]

theorem declaresAs_namesRead (declaration : Node) : s.DeclaresAs Node.namesRead declaration := by
  intro declared h
  rw [Script.declaredNames] at h
  by_cases hk : declaration.kind.isVariableDeclaration = true
  · rw [if_pos hk, Script.declaratorNames] at h
    rw [Node.namesRead, if_pos hk, List.map_flatMap]
    cases hb : (declaration.namedChildren.filter fun c => c.kind = .variableDeclarator).mapM
        fun n => s.boundNames? (n.child? .name) with
    | error f =>
      simp only [hb] at h
      cases h
    | ok bound =>
      simp only [hb] at h
      rw [← Except.ok.inj h, mapM_eq_map (fun _ _ => boundNames?_eq) hb, List.flatMap_def]
  · rw [if_neg hk, Script.ownName] at h
    rw [Node.namesRead, if_neg hk, Node.ownNames]
    cases hc : declaration.child? .name with
    | none =>
      rw [hc] at h
      exact (Except.ok.inj h).symm
    | some name =>
      rw [hc] at h
      cases ht : s.textOf name with
      | error f =>
        simp only [ht] at h
        cases h
      | ok text =>
        simp only [ht] at h
        rw [← Except.ok.inj h, Script.textOf_eq ht]
        rfl

/-! ## Records of import statements -/

/-- An action that leaves the records as they are if that of a given specifier is among them. -/
def KeepsRecords (specifier : Text) (x : Pass α) : Prop :=
  ∀ d a d', Succeeds x d a d' → ∀ id, d.imports.record? specifier = some id →
    d'.imports.records = d.imports.records

namespace KeepsRecords

theorem of_eq {x : Pass α} (h : ∀ d a d', Succeeds x d a d' → d'.imports = d.imports) :
    KeepsRecords specifier x := by
  intro d a d' hx id _
  rw [h d a d' hx]

theorem of_pure (a : α) : KeepsRecords specifier (pure a : Pass α) := .of_eq fun d b d' h => by
  obtain ⟨-, rfl⟩ := succeeds_pure.1 h
  rfl

theorem of_lift (r : Except Fault α) : KeepsRecords specifier (liftM r : Pass α) :=
  .of_eq fun d b d' h => by
    obtain ⟨-, rfl⟩ := succeeds_lift.1 h
    rfl

theorem of_bind {x : Pass α} {f : α → Pass β} (hx : KeepsRecords specifier x)
    (hf : ∀ a, KeepsRecords specifier (f a)) : KeepsRecords specifier (x >>= f) := by
  intro d b d' h id hid
  obtain ⟨a, d₁, h₁, h₂⟩ := succeeds_bind.1 h
  have hrecords := hx d a d₁ h₁ id hid
  have hid₁ : d₁.imports.record? specifier = some id := by
    rw [ImportTable.record?, hrecords]
    exact hid
  rw [hf a d₁ b d' h₂ id hid₁, hrecords]

end KeepsRecords

theorem composes_keepsRecords : Composes fun _ => KeepsRecords specifier :=
  ⟨.of_pure, fun _ => .of_lift _, .of_bind⟩

theorem keepsRecords_bind (localName : Text) (imported : Option Text) :
    KeepsRecords specifier (Pass.bind names localName specifier imported) := by
  intro d a d' h id hid
  obtain rfl := succeeds_modify.1 h
  simp only [ImportTable.add, ImportTable.recordFor, hid]

theorem keepsRecords_deleteNode (n : Node) : KeepsRecords specifier (Pass.deleteNode s n) :=
  .of_eq fun d a d' h => by rw [(succeeds_deleteNode h).2]

theorem collectImport_lists {n : Node} {u : Unit} {specifiers : List Text}
    (hl : d.imports.Lists names specifiers) (h : Succeeds (collectImport s names n) d u d') :
    d'.imports.Lists names (specifiers ++ (s.imported? n).toList) := by
  obtain ⟨source, _, id, d₁, d₂, hsource, hspecifier, h₁, h₂, hdelete⟩ := succeeds_collectImport h
  obtain rfl := stringValue_eq hspecifier
  obtain ⟨himports, -⟩ := succeeds_recordFor h₁
  have htable : d₁.imports = (d.imports.recordFor names (s.stringAt source)).2 :=
    congrArg Prod.snd himports
  have hrecord : d₁.imports.record? (s.stringAt source) = some id := by
    rw [htable, ImportTable.record?_recordFor, ← himports]
  have hrest : KeepsRecords (s.stringAt source) (do
      (n.namedChildren.filter fun c => c.kind = .importClause).forM fun clause =>
        clause.namedChildren.forM (bindPart s names (s.stringAt source))
      Pass.deleteNode s n) :=
    .of_bind (composes_keepsRecords.bindClauses keepsRecords_bind _) fun _ =>
      keepsRecords_deleteNode n
  rw [Script.imported?, hsource]
  refine ImportTable.Lists.of_records_eq ?_
    (hrest d₁ _ d' (succeeds_bind.2 ⟨_, d₂, h₂, hdelete⟩) id hrecord)
  rw [htable]
  exact hl.recordFor

theorem collectImports_lists {statements : List Node} {u : Unit} {specifiers : List Text}
    (hl : d.imports.Lists names specifiers)
    (h : Succeeds (statements.forM (collectImport s names)) d u d') :
    d'.imports.Lists names (specifiers ++ statements.filterMap s.imported?) := by
  induction statements generalizing d specifiers with
  | nil =>
    obtain ⟨-, rfl⟩ := succeeds_pure.1 h
    rwa [List.filterMap_nil, List.append_nil]
  | cons n statements ih =>
    obtain ⟨d₁, h₁, h₂⟩ := succeeds_forM_cons h
    have hrest := ih (collectImport_lists hl h₁) h₂
    rwa [List.append_assoc, List.filterMap_eq_flatMap_toList,
      ← @List.flatMap_cons _ _ n statements fun n => (s.imported? n).toList,
      ← List.filterMap_eq_flatMap_toList] at hrest

/-! ## Expressions that name records -/

def ImportEntry.expression (e : ImportEntry) (recordId : Text) : Text :=
  ImportBinding.expression ⟨e.localName, recordId, e.specifier, e.importedName⟩

def Rebinding.expression : Rebinding → Text
  | .replaced expression | .expanded expression | .declared _ expression => expression

namespace Script

variable (s names)

def NamesRecord (specifier id : Text) : Prop := names.IsRecord s.specifiers specifier id

/-- An expression that a name is read from, which an import statement binds: it names the record of
the module that this statement names. -/
def ReadsImport (name expression : Text) : Prop :=
  ∃ e id, (s.importEntries.filter fun e => e.localName = name).getLast? = some e ∧
    s.NamesRecord names e.specifier id ∧ expression = e.expression id

/-- A draft has a record for each specifier of the script, numbered in their order, and what is
registered and rebound names these records, each for its own specifier. -/
structure Closes (d : Draft) : Prop where
  records_eq : d.imports.records = names.numbered s.specifiers
  exports_eq : d.exports = s.exportForms.flatMap (s.registrations Node.namesRead d.imports)
  forwarded : ∀ f ∈ s.exportForms, ∀ source, f.source? = some source →
    s.NamesRecord names (s.stringAt source) (s.recordOf d.imports source)
  imported : ∀ name expression, s.importedExpression? d.imports name = some expression →
    s.ReadsImport names name expression
  rebound : ∀ v ∈ s.visits, ∀ r, s.rebinding? d.imports v.trail v.node = some r →
    s.ReadsImport names (s.textAt v.node) r.expression

variable {s names}

theorem expression_of_rebindingTo? {trail : Trail} {n : Node} {name expression : Text}
    {r : Rebinding} (h : rebindingTo? trail n name expression = some r) :
    r.expression = expression := by
  unfold rebindingTo? at h
  split at h
  · rw [← Option.some.inj h]
    rfl
  · obtain ⟨-, h⟩ := (Option.ite_none_right_eq_some ..).1 h
    rw [← Option.some.inj h]
    rfl
  · split at h
    · exact nomatch h
    · split at h
      all_goals
        rw [← Option.some.inj h]
        rfl

theorem expression_of_rebinding? {t : ImportTable} {trail : Trail} {n : Node} {r : Rebinding}
    (h : s.rebinding? t trail n = some r) : t.expression? (s.textAt n) = some r.expression := by
  unfold rebinding? at h
  split at h
  · exact nomatch h
  · split at h
    · exact nomatch h
    · next binding hget =>
      split at h
      · exact nomatch h
      · rw [ImportTable.expression?, hget, Option.map_some, expression_of_rebindingTo? h]

end Script

theorem readsImport_of_importedExpression? {t : ImportTable} {name expression : Text}
    (hb : t.Binds s.importEntries) (hl : t.Lists names s.sources)
    (h : s.importedExpression? t name = some expression) :
    s.ReadsImport names name expression := by
  obtain ⟨e, he, rfl⟩ := Option.map_eq_some_iff.1 h
  obtain ⟨id, hid⟩ := hb.recorded e (List.mem_filter.1 (List.mem_of_getLast? he)).1
  refine ⟨e, id, he, hl.isRecord hid, ?_⟩
  rw [ImportTable.bindingOf, hid]
  rfl

/-- When the passes over the body of a script have completed, every record that is named in it has
been entered for the specifier it is named for. -/
theorem convertBody_closes {k : Nat}
    (h : Succeeds (convertBody s names) (Draft.ofText s.text) k d) : s.Closes names d := by
  obtain ⟨_, d₁, h₁, h⟩ := succeeds_bind.1 h
  obtain ⟨_, d₂, h₂, h⟩ := succeeds_bind.1 h
  obtain ⟨k', d₃, h₃, h⟩ := succeeds_bind.1 h
  obtain ⟨_, d₄, h₄, h⟩ := succeeds_bind.1 h
  obtain ⟨-, rfl⟩ := succeeds_pure.1 h
  obtain ⟨hbinds, hnone, -⟩ := collectImports_binds h₁
  have hregisters := registers_statements hbinds (fun n _ c _ => declaresAs_namesRead c) h₂
  -- The passes behind those over imports and exports leave the table and the registrations.
  have hd₁ := (confined_collectImports _ _ _ (Draft.edits_ofText s.text) h₁).1
  have hd₂ := (confined_registerExports _ _ _ hd₁ h₂).1
  have hd₃ := (confined_rebindReferences _ _ _ hd₂ h₃).1
  have himports : d.imports = d₂.imports :=
    (redirectImports_log h₄).2.trans (rebindReferences_log h₃).imports
  have hexports : d.exports = d₂.exports := by
    rw [confined_redirectImports.frame hd₃ h₄, confined_rebindReferences.frame hd₂ h₃]
    rfl
  have hb : d.imports.Binds s.importEntries := himports ▸ hregisters.binds
  have hl : d.imports.Lists names s.sources := by
    rw [himports]
    exact hregisters.lists _ (collectImports_lists ImportTable.lists_nil h₁)
  refine ⟨hl, ?_, fun f hf source hsource => ?_,
    fun _ _ => readsImport_of_importedExpression? hb hl, fun v _ r hr => ?_⟩
  · rw [hexports, hregisters.exports_eq, hnone, List.nil_append, himports]
    rfl
  · obtain ⟨id, hid⟩ := hregisters.recorded f hf source hsource
    rw [← himports] at hid
    rw [Script.recordOf, hid]
    exact hl.isRecord hid
  · refine readsImport_of_importedExpression? hb hl ?_
    rw [← Script.expression?_eq hb]
    exact Script.expression_of_rebinding? hr

/-- For every registry script: the modules it is said to import are those that the import statements
and the exports from other modules name, each once. The header looks their records up in that order,
under names that are numbered, and no two of them are the same. The body and the trailer name no
other record, and each for the specifier that the script names there. -/
theorem records_of_transform {read : Reader} {script moduleId css : Value} {m : RegistryModule}
    (h : transform read names script moduleId css = .ok m) :
    ∃ text id s k d, script = .text text ∧ moduleId = .text id ∧
      readScript read id text = .ok s ∧
      outcome (convertBody s names) (Draft.ofText s.text) = (.ok k, d) ∧
      m.imports = s.specifiers ∧ s.specifiers.Nodup ∧
      ((names.numbered s.specifiers).map Prod.snd).Nodup ∧
      m.code = Text.join "\n" (setupLines names id ++
          (names.numbered s.specifiers).map (renderLookup names)) ++ "\n\n" ++
        Edit.rendering s.text (s.allEdits names d.imports) ++ renderTrailer names d.exports css ∧
      s.Closes names d := by
  obtain ⟨text, id, rfl, rfl⟩ := exists_texts_of_transform h
  obtain ⟨s, r, hs, hr, rfl⟩ := transform_eq_ok h
  obtain ⟨d, hrun, hframe, hserialize⟩ := serialize_of_convert hr
  have hcloses := convertBody_closes hrun
  refine ⟨text, id, s, r.1, d, rfl, rfl, hs, hrun, ?_, nodup_eraseDups _,
    names.nodup_map_snd_numbered _, ?_, hcloses⟩
  · have himports : r.2.imports = d.imports := by rw [hframe]
    rw [RegistryModule.ofDraft, himports, hcloses.records_eq, Settings.map_fst_numbered]
  · rw [RegistryModule.ofDraft, hserialize, (convertBody_log hrun).serialize, renderHeader,
      hcloses.records_eq]

def forwardingModule : Text :=
  "export \x7b x \x7d from './b';\nimport \x7b a \x7d from './a';\nexport * from 'c';\n" ++
    "import * as b from './b';\nexport \x7b a \x7d;\nb.f(a);\n"

theorem records_of_transform_forwardingModule :
    ∃ m s k d, transform Reader.ofGrammar {} (.text forwardingModule) (.text "m") .null = .ok m ∧
      readScript Reader.ofGrammar "m" forwardingModule = .ok s ∧
      outcome (convertBody s {}) (Draft.ofText s.text) = (.ok k, d) ∧ s.Closes {} d ∧
      s.specifiers = ["./a", "./b", "c"] := by
  have hm : ((transform Reader.ofGrammar {} (.text forwardingModule) (.text "m")
      .null).toOption.map RegistryModule.imports) =
        some [Text.ofString "./a", Text.ofString "./b", Text.ofString "c"] := by
    decide +kernel
  cases h : transform Reader.ofGrammar {} (.text forwardingModule) (.text "m") .null with
  | error e =>
    rw [h] at hm
    exact nomatch hm
  | ok m =>
    rw [h] at hm
    obtain ⟨text, id, s, k, d, htext, hid, hs, hrun, himports, -, -, -, hcloses⟩ :=
      records_of_transform h
    obtain rfl := Value.text.inj htext
    obtain rfl := Value.text.inj hid
    exact ⟨m, s, k, d, rfl, hs, hrun, hcloses, himports ▸ Option.some.inj hm⟩

end RegistryScript
