import Mathlib
import RegistryScript.Proofs.Commutation.Edits
import RegistryScript.Proofs.Commutation.Passes
import RegistryScript.Proofs.Registration.Records

/-! # The passes in other orders

* `convertInOrder`: the passes in a given order.
* `Stage.IsOrder`: an order in which imports are collected before exports are registered and before
  references are rebound.
* `Draft.after`: a draft when some of the passes have been made.
* `succeeds_stage`: a pass that is still to come takes one such draft to the next.
* `convertBody_in_order`: all these orders complete and end in the same way if one of them does.
-/

namespace RegistryScript
set_option autoImplicit false

open Region

variable {α : Type} {s : Script} {names : Settings} {d d' d₁ : Draft}

/-! ## Orders -/

def Stage.run (s : Script) (names : Settings) : Stage → Pass Nat
  | .imports => do collectImports s names; return 0
  | .exports => do registerExports s names; return 0
  | .references => rebindReferences s
  | .redirects => do let _ ← redirectImports s names; return 0

def convertInOrder (s : Script) (names : Settings) (order : List Stage) : Pass Nat :=
  order.foldlM (fun count stage => do return count + (← stage.run s names)) 0

theorem convertInOrder_all : convertInOrder s names Stage.all = convertBody s names := by
  simp [convertInOrder, Stage.all, Stage.run, convertBody]

structure Stage.IsOrder (order : List Stage) : Prop where
  perm : Stage.all.Perm order
  exports : order.idxOf .imports < order.idxOf .exports
  references : order.idxOf .imports < order.idxOf .references

instance (order : List Stage) : Decidable (Stage.IsOrder order) :=
  decidable_of_iff (Stage.all.Perm order ∧ order.idxOf .imports < order.idxOf .exports ∧
    order.idxOf .imports < order.idxOf .references)
    ⟨fun h => ⟨h.1, h.2.1, h.2.2⟩, fun h => ⟨h.perm, h.exports, h.references⟩⟩

namespace Stage.IsOrder

variable {order done rest : List Stage} {stage : Stage}

theorem nodup (h : IsOrder order) : order.Nodup := h.perm.nodup_iff.1 (by decide)

theorem mem (h : IsOrder order) (stage : Stage) : stage ∈ order :=
  h.perm.mem_iff.1 (by cases stage <;> decide)

theorem imports_mem (h : IsOrder (done ++ stage :: rest))
    (hneeds : stage = .exports ∨ stage = .references) : .imports ∈ done := by
  have hnot : stage ∉ done := fun hmem =>
    (List.nodup_append.1 h.nodup).2.2 stage hmem stage List.mem_cons_self rfl
  have hplace : (done ++ stage :: rest).idxOf stage = done.length := by
    rw [List.idxOf_append_of_notMem hnot, List.idxOf_cons_self, Nat.add_zero]
  have hlt : (done ++ stage :: rest).idxOf .imports < done.length := by
    rcases hneeds with rfl | rfl
    · exact hplace ▸ h.exports
    · exact hplace ▸ h.references
  by_contra himports
  rw [List.idxOf_append_of_notMem himports] at hlt
  omega

/-- Two passes in an order are different ones, and only redirections stand in front of imports. -/
theorem pairwise (h : IsOrder order) : order.Pairwise fun stage stage' => stage ≠ stage' ∧
    (stage' = .imports → stage = .redirects) := by
  rw [List.pairwise_iff_getElem]
  intro i j hi hj hij
  have hplace {k : Nat} (hk : k < order.length) : order.idxOf order[k] = k := h.nodup.idxOf_getElem k hk
  have hplace_i := hplace hi
  have hplace_j := hplace hj
  refine ⟨fun heq => ?_, fun himports => ?_⟩
  · rw [heq, hplace_j] at hplace_i
    omega
  · rw [himports] at hplace_j
    have hexports := h.exports
    have hreferences := h.references
    cases hstage : order[i] with
    | redirects => rfl
    | _ =>
      rw [hstage] at hplace_i
      omega

end Stage.IsOrder

/-! ## Drafts between passes -/

/-- The draft that some passes leave behind, given the text they leave: it has what each of them
leaves in the end, but for the imports, which are those of the first pass as long as no exports are
registered. -/
def Draft.after (d₁ d : Draft) (done : List Stage) (o : Overlay) : Draft where
  overlay := o
  imports := if .exports ∈ done then d.imports else if .imports ∈ done then d₁.imports else {}
  exports := if .exports ∈ done then d.exports else []
  exportNames := if .exports ∈ done then d.exportNames else []
  helperConstants := if .references ∈ done then d.helperConstants else []
  dynamicImports := if .redirects ∈ done then d.dynamicImports else 0

def Stage.count (k : Nat) : Stage → Nat
  | .references => k
  | _ => 0

structure Course (s : Script) (names : Settings) (d₁ d₂ d₃ : Draft) (k : Nat) (d : Draft) :
    Prop where
  imports : Succeeds (collectImports s names) (Draft.ofText s.text) () d₁
  exports : Succeeds (registerExports s names) d₁ () d₂
  references : Succeeds (rebindReferences s) d₂ k d₃
  redirects : ∃ n, Succeeds (redirectImports s names) d₃ n d

theorem exists_course {k : Nat} (h : Succeeds (convertBody s names) (Draft.ofText s.text) k d) :
    ∃ d₁ d₂ d₃, Course s names d₁ d₂ d₃ k d := by
  obtain ⟨_, d₁, h₁, h⟩ := succeeds_bind.1 h
  obtain ⟨_, d₂, h₂, h⟩ := succeeds_bind.1 h
  obtain ⟨k', d₃, h₃, h⟩ := succeeds_bind.1 h
  obtain ⟨n, d₄, h₄, h⟩ := succeeds_bind.1 h
  obtain ⟨rfl, rfl⟩ := succeeds_pure.1 h
  exact ⟨d₁, d₂, d₃, h₁, h₂, h₃, n, h₄⟩

namespace Course

variable {d₂ d₃ : Draft} {k : Nat} (h : Course s names d₁ d₂ d₃ k d)
include h

theorem edits : d₁.Edits s.text ∧ d₂.Edits s.text ∧ d₃.Edits s.text := by
  have hd₁ := (confined_collectImports _ _ _ (Draft.edits_ofText s.text) h.imports).1
  have hd₂ := (confined_registerExports _ _ _ hd₁ h.exports).1
  exact ⟨hd₁, hd₂, (confined_rebindReferences _ _ _ hd₂ h.references).1⟩

theorem imported : d₁ = { Draft.ofText s.text with overlay := d₁.overlay, imports := d₁.imports } := by
  obtain ⟨-, hexports, hnames⟩ := collectImports_binds h.imports
  have hframe := confined_collectImports.frame (Draft.edits_ofText s.text) h.imports
  rw [hframe]
  simp [merge, registry, Draft.ofText, hexports, hnames]

theorem exported : d₂ = { d₁ with
    overlay := d₂.overlay
    imports := { d₁.imports with records := d₂.imports.records }
    exports := d₂.exports
    exportNames := d₂.exportNames } := by
  have hbindings : d₂.imports.bindings = d₁.imports.bindings :=
    (registers_statements (collectImports_binds h.imports).1
      (fun n _ c _ => declaresAs_namesRead c) h.exports).bindings_eq
  have hframe := confined_registerExports.frame h.edits.1 h.exports
  rw [hframe]
  simp [merge, registry, hbindings]

theorem rebound : d₃ = { d₂ with
    overlay := d₃.overlay
    helperConstants := d₃.helperConstants } := by
  have himports := (rebindReferences_log h.references).imports
  have hframe := confined_rebindReferences.frame h.edits.2.1 h.references
  rw [hframe]
  simp [merge, rebinding, himports]

theorem redirected : d = { d₃ with
    overlay := d.overlay
    dynamicImports := d.dynamicImports } := by
  obtain ⟨n, hn⟩ := h.redirects
  have hframe := confined_redirectImports.frame h.edits.2.2 hn
  rw [hframe]
  simp [merge, calling]

end Course

/-- An action succeeds on another draft as it did, if its edits have room there. -/
theorem succeeds_replayed {x : Pass α} {r : Region} {a : α} {f : Draft} {before es : List Edit}
    (hx : Confined s.text r x) (hd : d.Edits s.text) (h : Succeeds x d a d')
    (hmerge : r.merge d f = f) (horderly : Orderly s x f es)
    (htakes : (Overlay.ofText s.text).Takes before f.overlay)
    (hroom : (before ++ es).Pairwise Edit.leavesRoom) :
    ∃ o, Succeeds x f a (r.merge d' { f with overlay := o }) := by
  have hf : f.Edits s.text :=
    ⟨htakes.consistent (Overlay.consistent_ofText _), htakes.base_eq⟩
  rcases (hx d a d' hd h).2 f hf with ⟨o, ho⟩ | ⟨e, f', herror, hconflict⟩
  · rw [hmerge] at ho
    exact ⟨o, ho⟩
  · rw [hmerge] at herror
    rw [horderly before htakes hroom e f' herror] at hconflict
    exact nomatch hconflict

/-! ## One pass -/

theorem rebinding?_congr {t t' : ImportTable} (h : t.bindings = t'.bindings) :
    s.rebinding? t = s.rebinding? t' := by
  have hget : t.get? = t'.get? := by
    funext name
    rw [ImportTable.get?, ImportTable.get?, h]
  funext trail n
  rw [Script.rebinding?, Script.rebinding?, hget]

theorem rebindEdits_congr {t t' : ImportTable} (h : t.bindings = t'.bindings)
    (constants : List Text) (vs : List Visit) :
    s.rebindEdits t constants vs = s.rebindEdits t' constants vs := by
  induction vs generalizing constants with
  | nil => rfl
  | cons v vs ih =>
    have hr := @rebinding?_congr s t t' h
    have hedits : s.visitEdits t constants v = s.visitEdits t' constants v := by
      rw [Script.visitEdits, Script.visitEdits, hr]
    have hconstants : s.visitConstants t constants v = s.visitConstants t' constants v := by
      rw [Script.visitConstants, Script.visitConstants, hr]
    rw [Script.rebindEdits, Script.rebindEdits, hedits, hconstants, ih]

section Stages

variable {d₂ d₃ : Draft} {k : Nat} {done : List Stage} {o : Overlay} {before : List Edit}
  (h : Course s names d₁ d₂ d₃ k d)
  (htakes : (Overlay.ofText s.text).Takes before o)
include h htakes

theorem Course.succeeds_imports (hnew : .imports ∉ done) (hexports : .exports ∉ done)
    (hroom : (before ++ s.importEdits).Pairwise Edit.leavesRoom) :
    ∃ o', Succeeds (Stage.run s names .imports) (Draft.after d₁ d done o) 0
        (Draft.after d₁ d (done ++ [.imports]) o') ∧
      (Overlay.ofText s.text).Takes (before ++ s.importEdits) o' := by
  have hmerge : registry.merge (Draft.ofText s.text) (Draft.after d₁ d done o) =
      Draft.after d₁ d done o := by
    simp [merge, registry, Draft.after, Draft.ofText, hnew, hexports]
  obtain ⟨o', hrun⟩ := succeeds_replayed confined_collectImports (Draft.edits_ofText _) h.imports
    hmerge orderly_collectImports htakes hroom
  refine ⟨o', succeeds_bind.2 ⟨(), _, hrun, succeeds_pure.2 ⟨rfl, ?_⟩⟩,
    htakes.append (collectImports_log hrun).takes⟩
  rw [h.imported]
  simp [merge, registry, Draft.after, Draft.ofText, hexports]

theorem Course.succeeds_exports (hnew : .exports ∉ done) (himports : .imports ∈ done)
    (hroom : (before ++ s.stageEdits names d.imports .exports).Pairwise Edit.leavesRoom) :
    ∃ o', Succeeds (Stage.run s names .exports) (Draft.after d₁ d done o) 0
        (Draft.after d₁ d (done ++ [.exports]) o') ∧
      (Overlay.ofText s.text).Takes (before ++ s.stageEdits names d.imports .exports) o' := by
  have hmerge : registry.merge d₁ (Draft.after d₁ d done o) = Draft.after d₁ d done o := by
    rw [h.imported]
    simp [merge, registry, Draft.after, Draft.ofText, hnew, himports]
  obtain ⟨o', hrun⟩ := succeeds_replayed confined_registerExports h.edits.1 h.exports hmerge
    orderly_registerExports htakes hroom
  refine ⟨o', succeeds_bind.2 ⟨(), _, hrun, succeeds_pure.2 ⟨rfl, ?_⟩⟩,
    htakes.append (registerExports_log hrun).takes⟩
  rw [h.redirected, h.rebound]
  simp [merge, registry, Draft.after]

theorem Course.succeeds_references (hnew : .references ∉ done) (himports : .imports ∈ done)
    (hroom : (before ++ s.stageEdits names d.imports .references).Pairwise Edit.leavesRoom) :
    ∃ o', Succeeds (Stage.run s names .references) (Draft.after d₁ d done o) k
        (Draft.after d₁ d (done ++ [.references]) o') ∧
      (Overlay.ofText s.text).Takes (before ++ s.stageEdits names d.imports .references) o' := by
  -- Whether exports have been registered or not, the bindings are those of the first pass.
  have hbindings : (Draft.after d₁ d done o).imports.bindings = d₂.imports.bindings := by
    rw [h.redirected, h.rebound, h.exported]
    simp only [Draft.after, himports, if_true]
    split <;> rfl
  have hbindings₃ : d₃.imports.bindings = d₂.imports.bindings := by rw [h.rebound]
  have hbindings' : d.imports.bindings = d₂.imports.bindings := by rw [h.redirected, hbindings₃]
  have hconstants : d₂.helperConstants = [] := by
    rw [h.exported, h.imported]
    rfl
  have hconstants' : d.helperConstants = d₃.helperConstants := by rw [h.redirected]
  have hedits : s.rebindEdits (Draft.after d₁ d done o).imports
      (Draft.after d₁ d done o).helperConstants s.visits =
        s.stageEdits names d.imports .references := by
    rw [rebindEdits_congr (hbindings.trans hbindings'.symm)]
    simp [Draft.after, hnew, Script.stageEdits]
  have hmerge : rebinding.merge d₂ (Draft.after d₁ d done o) = Draft.after d₁ d done o := by
    rw [merge, rebinding]
    simp only [cond_true, cond_false, ← hbindings]
    simp [Draft.after, hnew, hconstants]
  have hafter : ∀ o', rebinding.merge d₃ { Draft.after d₁ d done o with overlay := o' } =
      Draft.after d₁ d (done ++ [.references]) o' := by
    intro o'
    rw [merge, rebinding]
    simp only [cond_true, cond_false, hbindings₃, ← hbindings]
    simp [Draft.after, hconstants']
  obtain ⟨o', hrun⟩ := succeeds_replayed confined_rebindReferences h.edits.2.1 h.references hmerge
    orderly_rebindReferences htakes (hedits ▸ hroom)
  refine ⟨o', hafter o' ▸ hrun, ?_⟩
  rw [← hedits]
  exact htakes.append (rebindReferences_log hrun).takes

theorem Course.succeeds_redirects (hnew : .redirects ∉ done)
    (hroom : (before ++ s.stageEdits names d.imports .redirects).Pairwise Edit.leavesRoom) :
    ∃ o', Succeeds (Stage.run s names .redirects) (Draft.after d₁ d done o) 0
        (Draft.after d₁ d (done ++ [.redirects]) o') ∧
      (Overlay.ofText s.text).Takes (before ++ s.stageEdits names d.imports .redirects) o' := by
  have hmerge : calling.merge d₃ (Draft.after d₁ d done o) = Draft.after d₁ d done o := by
    rw [h.rebound, h.exported, h.imported]
    simp [merge, calling, Draft.after, Draft.ofText, hnew]
  obtain ⟨n, hn⟩ := h.redirects
  obtain ⟨o', hrun⟩ := succeeds_replayed confined_redirectImports h.edits.2.2 hn hmerge
    orderly_redirectImports htakes hroom
  refine ⟨o', succeeds_bind.2 ⟨n, _, hrun, succeeds_pure.2 ⟨rfl, ?_⟩⟩,
    htakes.append (redirectImports_log hrun).1.takes⟩
  simp [merge, calling, Draft.after]

end Stages

/-- A pass that is still to come in an order takes the draft that the passes before it left to the
next one. -/
theorem Course.succeeds_stage {d₂ d₃ : Draft} {k : Nat} (h : Course s names d₁ d₂ d₃ k d)
    (hs : s.IsLaidOut) (hexports : s.exportsAreShaped = true) {done rest : List Stage}
    {stage : Stage} (horder : Stage.IsOrder (done ++ stage :: rest)) {o : Overlay}
    (htakes : (Overlay.ofText s.text).Takes (done.flatMap (s.stageEdits names d.imports)) o) :
    ∃ o', Succeeds (stage.run s names) (Draft.after d₁ d done o) (stage.count k)
        (Draft.after d₁ d (done ++ [stage]) o') ∧
      (Overlay.ofText s.text).Takes
        ((done ++ [stage]).flatMap (s.stageEdits names d.imports)) o' := by
  have hpairwise := horder.pairwise
  rw [List.append_cons] at hpairwise
  have hroom := @Script.pairwise_flatMap_stageEdits s names d.imports hs hexports _
    (List.pairwise_append.1 hpairwise).1
  obtain ⟨-, -, hfront⟩ := List.pairwise_append.1 (List.pairwise_append.1 hpairwise).1
  have hnew : stage ∉ done := fun hmem => (hfront stage hmem stage (List.mem_singleton_self _)).1 rfl
  rw [List.flatMap_append, List.flatMap_singleton] at hroom ⊢
  cases stage with
  | imports =>
    refine h.succeeds_imports htakes hnew (fun hmem => ?_) hroom
    exact nomatch (hfront _ hmem .imports (List.mem_singleton_self _)).2 rfl
  | exports => exact h.succeeds_exports htakes hnew (horder.imports_mem (.inl rfl)) hroom
  | references => exact h.succeeds_references htakes hnew (horder.imports_mem (.inr rfl)) hroom
  | redirects => exact h.succeeds_redirects htakes hnew hroom

/-! ## All passes -/

theorem Course.succeeds_front {d₂ d₃ : Draft} {k : Nat} (h : Course s names d₁ d₂ d₃ k d)
    (hs : s.IsLaidOut) (hexports : s.exportsAreShaped = true) {done rest : List Stage}
    (horder : Stage.IsOrder (done ++ rest)) :
    ∃ o, Succeeds (convertInOrder s names done) (Draft.ofText s.text)
        (done.map (Stage.count k)).sum (Draft.after d₁ d done o) ∧
      (Overlay.ofText s.text).Takes (done.flatMap (s.stageEdits names d.imports)) o := by
  induction done using List.reverseRecOn generalizing rest with
  | nil => exact ⟨_, succeeds_pure.2 ⟨rfl, rfl⟩, Overlay.takes_nil⟩
  | append_singleton done stage ih =>
    rw [List.append_assoc, List.singleton_append] at horder
    obtain ⟨o, hrun, htakes⟩ := ih horder
    obtain ⟨o', hstage, htakes'⟩ := h.succeeds_stage hs hexports horder htakes
    refine ⟨o', ?_, htakes'⟩
    rw [convertInOrder, List.foldlM_append, List.map_append, List.sum_append, List.map_singleton,
      List.sum_singleton]
    refine succeeds_bind.2 ⟨_, _, hrun, ?_⟩
    rw [List.foldlM_cons]
    refine succeeds_bind.2 ⟨_, _, ?_, succeeds_pure.2 ⟨rfl, rfl⟩⟩
    exact succeeds_bind.2 ⟨_, _, hstage, succeeds_pure.2 ⟨rfl, rfl⟩⟩

/-- For every script whose tree is laid out over its text and whose export statements are shaped:
when the passes complete in the usual order, they complete in every order in which imports are
collected before exports are registered and before references are rebound, and leave behind the
same text, the same imports, exports and constants, and the same counts. -/
theorem convertBody_in_order {k : Nat} (hs : s.IsLaidOut) (hexports : s.exportsAreShaped = true)
    (h : outcome (convertBody s names) (Draft.ofText s.text) = (.ok k, d)) {order : List Stage}
    (horder : Stage.IsOrder order) :
    ∃ d', outcome (convertInOrder s names order) (Draft.ofText s.text) = (.ok k, d') ∧
      d'.overlay.serialize = d.overlay.serialize ∧ d' = { d with overlay := d'.overlay } := by
  obtain ⟨d₁, d₂, d₃, hcourse⟩ := exists_course h
  have horder' : Stage.IsOrder (order ++ []) := (List.append_nil order).symm ▸ horder
  obtain ⟨o, hrun, htakes⟩ := hcourse.succeeds_front hs hexports horder'
  have hcount : (order.map (Stage.count k)).sum = k := by
    rw [← (horder.perm.map (Stage.count k)).sum_eq]
    simp [Stage.all, Stage.count]
  rw [hcount] at hrun
  refine ⟨_, hrun, ?_, ?_⟩
  · have hlog := convertBody_log h
    change o.serialize = _
    rw [htakes.serialize, hlog.serialize,
      Script.rendering_of_stages hs hexports horder.perm hlog.isProper]
  · simp [Draft.after, horder.mem]

theorem convertBody_in_order_sampleModule :
    let s := Script.ofModule sampleModule
    let order : List Stage := [.redirects, .imports, .references, .exports]
    Stage.IsOrder order ∧
      ∃ d d', outcome (convertBody s {}) (Draft.ofText s.text) = (.ok 2, d) ∧
        outcome (convertInOrder s {} order) (Draft.ofText s.text) = (.ok 2, d') ∧
        d'.overlay.serialize = d.overlay.serialize := by
  intro s order
  have horder : Stage.IsOrder order := by decide
  have hready : s.isReady = true ∧
      (outcome (convertBody s {}) (Draft.ofText s.text)).1.toOption = some 2 := by
    decide +kernel
  have hs : s.IsReady := Script.isReady_ofModule hready.1
  have hrun := outcome_eq_of_toOption hready.2
  obtain ⟨d', hd', hserialize, -⟩ := convertBody_in_order hs.laidOut hs.exports hrun horder
  exact ⟨horder, _, d', hrun, hd', hserialize⟩

end RegistryScript
