import Mathlib
import RegistryScript.Proofs.Printing.Node

/-! # Printed statements

* `Script.statementEdits`: the edits of a statement but for constants in front of it.
* `Script.Exported`: what an export statement with an exported part consists of.
* `Script.stretch_eq_printStatement`: the stretch of a statement, whenever the edits that touch it
  are its own, is what is printed of it.
-/

namespace RegistryScript
set_option autoImplicit false

open Edit

namespace Script

variable {s : Script} {names : Settings} {imports : ImportTable} {statement part keyword : Node}
  {role : Role} {i : Nat}

def statementEdits (s : Script) (names : Settings) (imports : ImportTable) (statement : Node) :
    List Edit :=
  (if statement.kind = .importStatement then
    [.delete (s.startAt statement) (s.stopAt statement)] else []) ++
  ((if statement.kind = .exportStatement then exportEdits s names statement else []) ++
    ((visitsOf statement).flatMap (s.localEdits imports) ++
      if statement.kind = .importStatement then [] else s.redirectsIn names statement))

/-! ## Exported parts -/

def exportedText (names : Settings) (statement part : Node) : Text :=
  if (statement.childOfKind? .defaultKeyword).isSome && !part.keepsName then
    names.moduleBinding ++ ".default = " else []

def exportedEdit (s : Script) (names : Settings) (statement part : Node) : Edit :=
  if (statement.childOfKind? .defaultKeyword).isSome && !part.keepsName then
    .replace (s.exportStart statement) (s.startAt part) (names.moduleBinding ++ ".default = ")
  else .delete (s.exportStart statement) (s.startAt part)

structure Exported (s : Script) (names : Settings) (imports : ImportTable) (statement : Node)
    (role : Role) (i : Nat) (part keyword : Node) : Prop where
  kind : statement.kind = .exportStatement
  keyword_eq : statement.childOfKind? .exportKeyword = some keyword
  index : statement.childIndex? role = some i
  child : statement.child? role = some part
  behind : keyword.stop ≤ part.start
  calls : statement.callsOnlyAt (some i) = true
  parts : walkedParts statement = [(i, part, [statement])]
  edits : exportEdits s names statement = [s.exportedEdit names statement part]
  print : s.printExport names imports statement =
    s.printExported names imports statement role (exportedText names statement part)

theorem exportEdits_of_target (htarget : statement.defaultTarget? = some part)
    (hdeclared : (statement.childOfKind? .defaultKeyword).isSome = false →
      statement.child? .declaration = some part) :
    exportEdits s names statement = [s.exportedEdit names statement part] := by
  rw [exportEdits, exportedEdit]
  cases hdefault : (statement.childOfKind? .defaultKeyword).isSome with
  | false =>
    rw [hdeclared hdefault]
    rfl
  | true =>
    rw [htarget]
    cases hkeeps : part.keepsName with
    | false =>
      simp only [hkeeps, if_true, Bool.false_eq_true, if_false, Bool.not_false, Bool.and_self]
    | true =>
      simp only [hkeeps, if_true, Bool.false_eq_true, if_false, Bool.not_true, Bool.and_false]

variable (s names imports) in
theorem exported_of_declaration (hkind : statement.kind = .exportStatement)
    (hkeyword : statement.childOfKind? .exportKeyword = some keyword)
    (hd : statement.child? .declaration = some part) (hv : statement.child? .value = none)
    (hshape : statement.isExportShaped = true) :
    ∃ i, s.Exported names imports statement .declaration i part keyword := by
  obtain ⟨i, hi, -, -⟩ := Node.exists_child hd
  simp only [Node.isExportShaped, hkeyword, hd, hv, hi, Bool.and_eq_true, decide_eq_true_eq]
    at hshape
  refine ⟨i, hkind, hkeyword, hi, hd, hshape.1, hshape.2, ?_, ?_, ?_⟩
  · rw [walkedParts, if_pos hkind]
    simp [hi, hd, hv]
  · exact exportEdits_of_target (by rw [Node.defaultTarget?, hd]; rfl) fun _ => hd
  · simp only [printExport, exportedText, hd, Option.isSome_some, if_true]
    split
    · rfl
    · rfl

variable (s names imports) in
theorem exported_of_value (hkind : statement.kind = .exportStatement)
    (hkeyword : statement.childOfKind? .exportKeyword = some keyword)
    (hd : statement.child? .declaration = none) (hv : statement.child? .value = some part)
    (hshape : statement.isExportShaped = true) :
    ∃ i, s.Exported names imports statement .value i part keyword := by
  obtain ⟨i, hi, -, -⟩ := Node.exists_child hv
  simp only [Node.isExportShaped, hkeyword, hd, hv, hi, Bool.and_eq_true, decide_eq_true_eq]
    at hshape
  obtain ⟨⟨hdefault, hbehind⟩, hcalls⟩ := hshape
  refine ⟨i, hkind, hkeyword, hi, hv, hbehind, hcalls, ?_, ?_, ?_⟩
  · rw [walkedParts, if_pos hkind]
    simp [hi, hd, hv]
  · refine exportEdits_of_target (by rw [Node.defaultTarget?, hd, hv]; rfl) fun hno => ?_
    rw [hdefault] at hno
    exact absurd hno.symm Bool.false_ne_true
  · simp only [printExport, exportedText, hd, hv, Option.isSome_none, Bool.false_eq_true, if_false]
    split
    · rfl
    · rfl

variable (s names imports) in
/-- An export statement either has an exported part, or is without one and not a default. -/
theorem exported_cases (hkind : statement.kind = .exportStatement)
    (hshape : statement.isExportShaped = true) :
    (∃ role i part keyword, s.Exported names imports statement role i part keyword) ∨
      (walkedParts statement = [] ∧ statement.callsOnlyAt none = true ∧
        exportEdits s names statement = [.delete (s.startAt statement) (s.stopAt statement)] ∧
        s.printExport names imports statement = []) := by
  cases hkeyword : statement.childOfKind? .exportKeyword with
  | none => simp [Node.isExportShaped, hkeyword] at hshape
  | some keyword =>
    cases hd : statement.child? .declaration with
    | some declaration =>
      cases hv : statement.child? .value with
      | some value => simp [Node.isExportShaped, hkeyword, hd, hv] at hshape
      | none =>
        obtain ⟨i, h⟩ := exported_of_declaration s names imports hkind hkeyword hd hv hshape
        exact .inl ⟨.declaration, i, declaration, keyword, h⟩
    | none =>
      cases hv : statement.child? .value with
      | some value =>
        obtain ⟨i, h⟩ := exported_of_value s names imports hkind hkeyword hd hv hshape
        exact .inl ⟨.value, i, value, keyword, h⟩
      | none =>
        simp only [Node.isExportShaped, hkeyword, hd, hv, Bool.and_eq_true] at hshape
        obtain ⟨hdefault, hcalls⟩ := hshape
        refine .inr ⟨?_, hcalls, ?_, ?_⟩
        · rw [walkedParts, if_pos hkind]
          simp [hd, hv]
        · rw [exportEdits, Option.isNone_iff_eq_none.1 hdefault, hd]
          rfl
        · simp only [printExport, hd, hv, Option.isSome_none, Bool.false_eq_true, if_false]

/-- Calls that stand only at one place of a node that is no call are those of the child there. -/
theorem redirectsIn_of_callsOnlyAt {place : Option Nat} (hkind : statement.kind = .exportStatement)
    (hcalls : statement.callsOnlyAt place = true) :
    s.redirectsIn names statement = (Node.numbered 0 statement.children).flatMap fun e =>
      if place = some e.1 then (if e.2.isNamed then s.redirectsIn names e.2 else []) else [] := by
  have hcall : statement.isDynamicImport = false := by
    rw [Node.isDynamicImport, hkind]
    rfl
  rw [redirectsIn_eq, callEdits, hcall, if_neg Bool.false_ne_true, List.nil_append]
  refine List.flatMap_congr fun e he => ?_
  have hat := List.all_eq_true.1 hcalls e he
  by_cases hplace : place = some e.1
  · rw [if_pos hplace]
  · rw [decide_eq_false hplace] at hat
    rw [if_neg hplace]
    cases hn : e.2.isNamed with
    | false => rfl
    | true =>
      rw [hn] at hat
      have hno : (e.2.descendants.filter Node.isDynamicImport) = [] := by
        rw [List.filter_eq_nil_iff]
        intro call hmem hdyn
        have : e.2.descendants.any Node.isDynamicImport = true := List.any_eq_true.2 ⟨call, hmem, hdyn⟩
        rw [this] at hat
        exact absurd hat (by decide)
      rw [if_pos rfl, redirectsIn, hno]
      rfl

theorem Exported.redirectsIn (h : s.Exported names imports statement role i part keyword) :
    s.redirectsIn names statement = if part.isNamed then s.redirectsIn names part else [] := by
  obtain ⟨j, hj, hc, -⟩ := Node.exists_child h.child
  obtain rfl : j = i := Option.some.inj (hj.symm.trans h.index)
  have hat : ((Node.numbered 0 statement.children).flatMap fun e => if 0 + j = e.1 then
      if e.2.isNamed then s.redirectsIn names e.2 else [] else []) =
        if part.isNamed then s.redirectsIn names part else [] :=
    flatMap_numbered_at (fun c => if c.isNamed then s.redirectsIn names c else []) hc
  rw [redirectsIn_of_callsOnlyAt h.kind h.calls, ← hat]
  simp only [Option.some.injEq, Nat.zero_add]

theorem Exported.statementEdits (h : s.Exported names imports statement role i part keyword) :
    s.statementEdits names imports statement =
      s.exportedEdit names statement part :: s.nodeEdits names imports statement true part.isNamed
        [(statement, i)] .none part := by
  have hne : statement.kind ≠ .importStatement := by
    rw [h.kind]
    decide
  rw [Script.statementEdits, if_neg hne, if_neg hne, if_pos h.kind, h.edits, h.redirectsIn,
    visitsOf, if_neg hne, statementVisits, h.parts, nodeEdits]
  simp [partVisits, partTrail, swapEdits]

/-! ## Spans of export statements -/

theorem isSpanned_of_mem (hspans : statement.all (Node.isSpanned s.text) = true) {c : Node}
    (hc : c ∈ statement.children) : c.isSpanned s.text = true :=
  (Node.all_iff.1 ((Node.all_iff.1 hspans).2 c hc)).1

theorem Exported.bounds (h : s.Exported names imports statement role i part keyword)
    (hs : s.IsLaidOut) (hspans : statement.all (Node.isSpanned s.text) = true) :
    s.startAt statement ≤ s.exportStart statement ∧ s.exportStart statement ≤ s.startAt part ∧
      s.startAt part ≤ s.stopAt part ∧ s.stopAt part ≤ s.stopAt statement := by
  obtain ⟨j, -, hj, -⟩ := Node.exists_child h.child
  have hkeyword : keyword ∈ statement.children := List.mem_of_find?_eq_some h.keyword_eq
  have hfollow := (hs.spanned hspans).follow
  have hpart := hfollow.bounds (List.mem_of_getElem? hj)
  have hstart : s.exportStart statement = s.startAt keyword := by
    rw [exportStart, h.keyword_eq]
    rfl
  obtain ⟨hk1, hk2, hk3, -⟩ := Node.isSpanned_iff.1 (isSpanned_of_mem hspans hkeyword)
  obtain ⟨hp1, -, -, -⟩ := Node.isSpanned_iff.1
    (isSpanned_of_mem hspans (List.mem_of_getElem? hj))
  rw [hstart]
  exact ⟨(hfollow.bounds hkeyword).1, hs.charAt_le hk1 hp1 (hk3.trans h.behind), hpart.2⟩

theorem Exported.inside (h : s.Exported names imports statement role i part keyword)
    (hs : s.IsLaidOut) (hspans : statement.all (Node.isSpanned s.text) = true)
    (hp : (s.exportedEdit names statement part).IsProper) :
    Inside (s.exportStart statement) (s.startAt part) (s.exportedEdit names statement part) := by
  have hb := (h.bounds hs hspans).2.1
  unfold exportedEdit at hp ⊢
  split
  · next hd =>
    rw [if_pos hd] at hp
    exact ⟨le_rfl, hp, le_rfl⟩
  · exact ⟨le_rfl, by exact_mod_cast hb, le_rfl⟩

theorem Exported.stretch (h : s.Exported names imports statement role i part keyword)
    (hs : s.IsLaidOut) (hspans : statement.all (Node.isSpanned s.text) = true)
    (hp : (s.exportedEdit names statement part).IsProper) :
    stretch s.text [s.exportedEdit names statement part] (s.exportStart statement)
      (s.startAt part) = exportedText names statement part := by
  unfold exportedEdit exportedText at *
  by_cases hd : ((statement.childOfKind? .defaultKeyword).isSome && !part.keepsName) = true
  · rw [if_pos hd] at hp
    rw [if_pos hd, if_pos hd]
    exact stretch_replace _ (by exact_mod_cast (show (s.exportStart statement : Int) < _ from hp))
  · rw [if_neg hd, if_neg hd]
    rcases Nat.eq_or_lt_of_le (h.bounds hs hspans).2.1 with he | hlt
    · rw [he, stretch_self]
    · exact stretch_delete hlt

/-! ## Stretches of statements -/

theorem within_nodeEdits {n : Node} {rebinds redirects : Bool} {trail : Trail} (hs : s.IsLaidOut)
    (hspans : n.all (Node.isSpanned s.text) = true) (hsound : n.all Node.isSound = true)
    (hp : ∀ e ∈ s.nodeEdits names imports statement rebinds redirects trail .none n, e.IsProper) :
    s.Within n (s.nodeEdits names imports statement rebinds redirects trail .none n) := by
  rw [nodeEdits] at hp ⊢
  refine Within.append ?_ (Within.append (within_nil n) ?_)
  · split
    · exact within_visitsIn hs hspans hsound
    · exact within_nil n
  · split
    · next hr =>
      refine within_redirectsIn hs hspans fun e he => hp e (List.mem_append_right _ ?_)
      rw [if_pos hr]
      exact he
    · exact within_nil n

theorem isDeletion_of_mem_nodeEdits {n : Node} {rebinds redirects : Bool} {trail : Trail}
    {swap : Swap} {e : Edit}
    (he : e ∈ s.nodeEdits names imports statement rebinds redirects trail swap n) :
    e.isDeletion = false := by
  rw [nodeEdits, List.mem_append, List.mem_append] at he
  rcases he with he | he | he
  · split at he
    · exact isDeletion_of_mem_visits he
    · exact absurd he List.not_mem_nil
  · exact isDeletion_of_mem_swapEdits he
  · split at he
    · exact isDeletion_of_mem_redirectsIn he
    · exact absurd he List.not_mem_nil

theorem filter_nodeEdits_self {n : Node} {rebinds redirects : Bool} {trail : Trail}
    (hs : s.IsLaidOut) (hspans : n.all (Node.isSpanned s.text) = true)
    (hsound : n.all Node.isSound = true)
    (hp : ∀ e ∈ s.nodeEdits names imports statement rebinds redirects trail .none n, e.IsProper) :
    (s.nodeEdits names imports statement rebinds redirects trail .none n).filter
        (touches (s.startAt n) (s.stopAt n)) =
      s.nodeEdits names imports statement rebinds redirects trail .none n :=
  filter_touches_eq_self fun e he =>
    ⟨within_nodeEdits hs hspans hsound hp e he, isDeletion_of_mem_nodeEdits he⟩

theorem Exported.stretch_statement (h : s.Exported names imports statement role i part keyword)
    (hs : s.IsLaidOut) (hspans : statement.all (Node.isSpanned s.text) = true)
    (hsound : statement.all Node.isSound = true) {es : List Edit}
    (hp : ∀ e ∈ s.statementEdits names imports statement, e.IsProper)
    (hes : es.filter (touches (s.startAt statement) (s.stopAt statement)) =
      (s.statementEdits names imports statement).filter
        (touches (s.startAt statement) (s.stopAt statement))) :
    Edit.stretch s.text es (s.startAt statement) (s.stopAt statement) =
      s.printExport names imports statement := by
  obtain ⟨j, hj, hc, -⟩ := Node.exists_child h.child
  have hmem := List.mem_of_getElem? hc
  have hpspan := (Node.all_iff.1 hspans).2 part hmem
  have hpsound := (Node.all_iff.1 hsound).2 part hmem
  obtain ⟨h1, h2, h3, h4⟩ := h.bounds hs hspans
  rw [h.statementEdits] at hp hes
  have hfront := h.inside hs hspans (hp _ List.mem_cons_self)
  have hpn : ∀ e ∈ s.nodeEdits names imports statement true part.isNamed [(statement, i)] .none
      part, e.IsProper := fun e he => hp e (List.mem_cons_of_mem _ he)
  have hnode := within_nodeEdits hs hpspan hpsound hpn
  have hsub : ∀ x y, s.startAt statement ≤ x → y ≤ s.stopAt statement →
      es.filter (touches x y) = (s.exportedEdit names statement part ::
        s.nodeEdits names imports statement true part.isNamed [(statement, i)] .none part).filter
          (touches x y) := by
    intro x y hx hy
    rw [← filter_touches_of_le hx hy, hes, filter_touches_of_le hx hy]
  -- The four stretches: up to the keyword, up to the part, the part, what is behind it.
  have hs1 : Edit.stretch s.text es (s.startAt statement) (s.exportStart statement) =
      s.text.cut (s.startAt statement) (s.exportStart statement) := by
    refine stretch_untouched ?_
    rw [hsub _ _ le_rfl (h2.trans (h3.trans h4)), List.filter_cons,
      hfront.touches_eq_false (.inr le_rfl), if_neg Bool.false_ne_true]
    exact filter_touches_eq_nil hnode (.inr h2)
  have hs2 : Edit.stretch s.text es (s.exportStart statement) (s.startAt part) =
      exportedText names statement part := by
    rw [← h.stretch hs hspans (hp _ List.mem_cons_self), ← stretch_filter,
      hsub _ _ h1 (h3.trans h4), ← List.singleton_append, List.filter_append,
      filter_touches_eq_nil hnode (.inr le_rfl), List.append_nil, stretch_filter]
  have hs3 : Edit.stretch s.text es (s.startAt part) (s.stopAt part) =
      s.printNode names imports true part.isNamed [(statement, i)] .none part := by
    refine stretch_eq_printNode hs hpspan hpsound trivial hpn ?_
    rw [hsub _ _ (h1.trans h2) h4, List.filter_cons, hfront.touches_eq_false (.inl le_rfl),
      if_neg Bool.false_ne_true]
    exact filter_nodeEdits_self hs hpspan hpsound hpn
  have hs4 : Edit.stretch s.text es (s.stopAt part) (s.stopAt statement) =
      s.text.cut (s.stopAt part) (s.stopAt statement) := by
    refine stretch_untouched ?_
    rw [hsub _ _ (h1.trans (h2.trans h3)) le_rfl, List.filter_cons,
      hfront.touches_eq_false (.inl h3), if_neg Bool.false_ne_true]
    exact filter_touches_eq_nil hnode (.inl le_rfl)
  rw [h.print, printExported, h.index, h.child]
  simp only
  rw [stretch_append (h1.trans (h2.trans h3)) h4, stretch_append (h1.trans h2) h3,
    stretch_append h1 h2, hs1, hs2, hs3, hs4]

theorem statementEdits_of_import (h : statement.kind = .importStatement) :
    s.statementEdits names imports statement =
      [.delete (s.startAt statement) (s.stopAt statement)] := by
  have hne : statement.kind ≠ .exportStatement := by
    rw [h]
    decide
  rw [statementEdits, if_pos h, if_pos h, if_neg hne, visitsOf, if_pos h]
  rfl

theorem statementEdits_of_bareExport (h : statement.kind = .exportStatement)
    (hparts : walkedParts statement = []) (hcalls : statement.callsOnlyAt none = true)
    (hedits : exportEdits s names statement =
      [.delete (s.startAt statement) (s.stopAt statement)]) :
    s.statementEdits names imports statement =
      [.delete (s.startAt statement) (s.stopAt statement)] := by
  have hne : statement.kind ≠ .importStatement := by
    rw [h]
    decide
  have hred : s.redirectsIn names statement = [] := by
    rw [redirectsIn_of_callsOnlyAt h hcalls, List.flatMap_eq_nil_iff]
    intro e _
    exact if_neg (by simp)
  rw [statementEdits, if_neg hne, if_neg hne, if_pos h, hedits, hred, visitsOf, if_neg hne,
    statementVisits, hparts]
  rfl

theorem statementEdits_of_other (himport : statement.kind ≠ .importStatement)
    (hexport : statement.kind ≠ .exportStatement) :
    s.statementEdits names imports statement =
      s.nodeEdits names imports statement true true [] .none statement := by
  rw [statementEdits, if_neg himport, if_neg himport, if_neg hexport, visitsOf, if_neg himport,
    statementVisits, walkedParts, if_neg hexport, nodeEdits]
  simp [partVisits, partTrail, swapEdits]

theorem stretch_eq_nil_of_deleted (hs : s.IsLaidOut)
    (hspans : statement.all (Node.isSpanned s.text) = true) {es : List Edit}
    (hes : es.filter (touches (s.startAt statement) (s.stopAt statement)) =
      [Edit.delete (s.startAt statement) (s.stopAt statement)].filter
        (touches (s.startAt statement) (s.stopAt statement))) :
    Edit.stretch s.text es (s.startAt statement) (s.stopAt statement) = [] := by
  rcases Nat.eq_or_lt_of_le (hs.spanned hspans).start_le with he | hlt
  · rw [he, stretch_self]
  · rw [← stretch_filter, hes, stretch_filter]
    exact stretch_delete hlt

theorem stretch_eq_printStatement (hs : s.IsLaidOut)
    (hspans : statement.all (Node.isSpanned s.text) = true)
    (hsound : statement.all Node.isSound = true)
    (hshape : statement.kind = .exportStatement → statement.isExportShaped = true) {es : List Edit}
    (hp : ∀ e ∈ s.statementEdits names imports statement, e.IsProper)
    (hes : es.filter (touches (s.startAt statement) (s.stopAt statement)) =
      (s.statementEdits names imports statement).filter
        (touches (s.startAt statement) (s.stopAt statement))) :
    Edit.stretch s.text es (s.startAt statement) (s.stopAt statement) =
      s.printStatement names imports statement := by
  rw [printStatement]
  by_cases himport : statement.kind = .importStatement
  · rw [if_pos himport]
    rw [statementEdits_of_import himport] at hes
    exact stretch_eq_nil_of_deleted hs hspans hes
  rw [if_neg himport]
  by_cases hexport : statement.kind = .exportStatement
  · rw [if_pos hexport]
    rcases exported_cases s names imports hexport
      (hshape hexport) with ⟨role, i, part, keyword, h⟩ | ⟨hparts, hcalls, hedits, hprint⟩
    · exact h.stretch_statement hs hspans hsound hp hes
    · rw [hprint]
      rw [statementEdits_of_bareExport hexport hparts hcalls hedits] at hes
      exact stretch_eq_nil_of_deleted hs hspans hes
  · rw [if_neg hexport]
    rw [statementEdits_of_other himport hexport] at hp hes
    rw [filter_nodeEdits_self hs hspans hsound hp] at hes
    exact stretch_eq_printNode hs hspans hsound trivial hp hes

end Script

end RegistryScript
