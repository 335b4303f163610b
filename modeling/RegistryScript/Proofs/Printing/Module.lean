import Mathlib
import RegistryScript.Proofs.Printing.Statement
import RegistryScript.Transform

/-! # The passes are a direct printer

* `convertBody_log`: when the four passes complete, the edits they have made are those of imports,
  exports, references and calls, in this order.
* `Script.filter_statements`: those that touch a statement are its own.
* `serialize_convertBody`: the text of a script after the passes is what the printer prints.
-/

namespace RegistryScript
set_option autoImplicit false

open Edit

namespace Script

variable {s : Script} {names : Settings} {imports : ImportTable} {constants : List Text}

/-! ## The edits of all passes -/

def importEdits (s : Script) : List Edit :=
  (s.statements.filter fun n => n.kind = .importStatement).flatMap fun n =>
    [.delete (s.startAt n) (s.stopAt n)]

def allEdits (s : Script) (names : Settings) (imports : ImportTable) : List Edit :=
  s.importEdits ++
    ((s.statements.filter fun n => n.kind = .exportStatement).flatMap (exportEdits s names) ++
      (s.rebindEdits imports [] s.visits ++
        s.dynamicImports.flatMap (redirectEdits s names)))

end Script

/-- When the passes complete, all their edits are accepted, and the imports are those that the
references were rebound by. -/
theorem convertBody_log {s : Script} {names : Settings} {d : Draft} {k : Nat}
    (h : Succeeds (convertBody s names) (Draft.ofText s.text) k d) :
    (Overlay.ofText s.text).Takes (s.allEdits names d.imports) d.overlay := by
  obtain ⟨_, d₁, h₁, h⟩ := succeeds_bind.1 h
  obtain ⟨_, d₂, h₂, h⟩ := succeeds_bind.1 h
  obtain ⟨references, d₃, h₃, h⟩ := succeeds_bind.1 h
  obtain ⟨_, d₄, h₄, h⟩ := succeeds_bind.1 h
  obtain ⟨-, rfl⟩ := succeeds_pure.1 h
  have hi := collectImports_log h₁
  have he := registerExports_log h₂
  have hr := rebindReferences_log h₃
  obtain ⟨hd, himports⟩ := redirectImports_log h₄
  have hconstants : d₂.helperConstants = [] := he.constants.trans hi.constants
  have hr' : d₂.overlay.Takes (s.rebindEdits d.imports [] s.visits) d₃.overlay := by
    rw [himports, hr.imports, ← hconstants]
    exact hr.takes
  exact hi.takes.append (he.takes.append (hr'.append hd.takes))

namespace Script

variable {s : Script} {names : Settings} {imports : ImportTable} {constants : List Text}

/-! ## Edits of statements -/

theorem dynamicImports_eq : s.dynamicImports.flatMap (redirectEdits s names) =
    s.statements.flatMap fun c =>
      if c.kind = .importStatement then [] else s.redirectsIn names c := by
  rw [dynamicImports, List.flatMap_assoc, flatMap_filter_eq]
  refine List.flatMap_congr fun c _ => ?_
  by_cases h : c.kind = .importStatement
  · rw [if_neg (by simp [h]), if_pos h]
  · rw [if_pos (by simp [h]), if_neg h]
    rfl

theorem filter_plain {es : List Edit} (h : ∀ e ∈ es, e.isInsertBefore = false) :
    es.filter (fun e => !e.isInsertBefore) = es :=
  List.filter_eq_self.2 fun e he => by rw [h e he]; rfl

theorem isInsertBefore_importEdits : ∀ e ∈ s.importEdits, e.isInsertBefore = false := by
  intro e he
  obtain ⟨n, -, he⟩ := List.mem_flatMap.1 he
  rw [List.mem_singleton.1 he]
  rfl

theorem isInsertBefore_exportEdits (ns : List Node) :
    ∀ e ∈ ns.flatMap (exportEdits s names), e.isInsertBefore = false := by
  intro e he
  obtain ⟨n, -, he⟩ := List.mem_flatMap.1 he
  unfold exportEdits at he
  split at he
  · split at he
    · exact absurd he List.not_mem_nil
    · split at he
      · rw [List.mem_singleton.1 he]
        rfl
      · rw [List.mem_singleton.1 he]
        rfl
  · split at he
    · rw [List.mem_singleton.1 he]
      rfl
    · rw [List.mem_singleton.1 he]
      rfl

theorem isInsertBefore_redirectEdits (ns : List Node) :
    ∀ e ∈ ns.flatMap (redirectEdits s names), e.isInsertBefore = false := by
  intro e he
  obtain ⟨n, -, he⟩ := List.mem_flatMap.1 he
  obtain ⟨c, text, rfl⟩ := exists_replacement_of_mem_redirectEdits he
  rfl

theorem filter_allEdits :
    (s.allEdits names imports).filter (fun e => !e.isInsertBefore) =
      (s.statements.flatMap fun c =>
        if c.kind = .importStatement then [.delete (s.startAt c) (s.stopAt c)] else []) ++
      ((s.statements.flatMap fun c =>
        if c.kind = .exportStatement then exportEdits s names c else []) ++
      ((s.statements.flatMap fun c => (visitsOf c).flatMap (s.localEdits imports)) ++
        s.statements.flatMap fun c =>
          if c.kind = .importStatement then [] else s.redirectsIn names c)) := by
  have himports : s.importEdits = s.statements.flatMap fun c =>
      if c.kind = .importStatement then [.delete (s.startAt c) (s.stopAt c)] else [] := by
    rw [importEdits, flatMap_filter_eq]
    refine List.flatMap_congr fun c _ => ?_
    simp only [decide_eq_true_eq]
  have hexports : ((s.statements.filter fun n => n.kind = .exportStatement).flatMap
      (exportEdits s names)) = s.statements.flatMap fun c =>
        if c.kind = .exportStatement then exportEdits s names c else [] := by
    rw [flatMap_filter_eq]
    refine List.flatMap_congr fun c _ => ?_
    simp only [decide_eq_true_eq]
  rw [allEdits, List.filter_append, List.filter_append, List.filter_append,
    filter_plain isInsertBefore_importEdits, filter_plain (isInsertBefore_exportEdits _),
    filter_plain (isInsertBefore_redirectEdits _), filter_rebindEdits, himports, hexports,
    visits_eq, List.flatMap_assoc, dynamicImports_eq]

theorem mem_filter_allEdits {e : Edit} :
    e ∈ (s.allEdits names imports).filter (fun e => !e.isInsertBefore) ↔
      ∃ c ∈ s.statements, e ∈ s.statementEdits names imports c := by
  rw [filter_allEdits]
  simp only [statementEdits, List.mem_append, List.mem_flatMap, and_or_left, exists_or]

theorem textsBefore_plain {es : List Edit} (h : ∀ e ∈ es, e.isInsertBefore = false) (p : Int) :
    textsBefore p es = [] := by
  rw [textsBefore, List.filterMap_eq_nil_iff]
  intro e he
  have hno := h e he
  cases e with
  | insertBefore q text => exact absurd hno.symm Bool.false_ne_true
  | _ => rfl

theorem textsBefore_allEdits (p : Int) :
    textsBefore p (s.allEdits names imports) = textsBefore p (s.rebindEdits imports []
      ((s.root.children.filter isStatement).flatMap visitsOf)) := by
  rw [allEdits, textsBefore_append, textsBefore_append, textsBefore_append,
    textsBefore_plain isInsertBefore_importEdits, textsBefore_plain (isInsertBefore_exportEdits _),
    textsBefore_plain (isInsertBefore_redirectEdits _), List.nil_append, List.nil_append,
    List.append_nil, visits_eq, statements_eq]

/-! ## Statements and their edits -/

structure Convertible (s : Script) (names : Settings) (imports : ImportTable) : Prop where
  laidOut : s.IsLaidOut
  shaped : s.exportsAreShaped = true
  proper : ∀ e ∈ s.allEdits names imports, e.IsProper

section Convertible

variable (h : s.Convertible names imports) {c : Node}
include h

theorem Convertible.spans (hc : c ∈ s.root.children) :
    c.all (Node.isSpanned s.text) = true ∧ c.all Node.isSound = true :=
  ⟨(Node.all_iff.1 h.laidOut.spans).2 c hc, (Node.all_iff.1 h.laidOut.sound).2 c hc⟩

theorem Convertible.isExportShaped (hc : c ∈ s.root.children) (hst : isStatement c = true)
    (hk : c.kind = .exportStatement) : c.isExportShaped = true := by
  have := List.all_eq_true.1 h.shaped c (mem_statements hc hst)
  simpa [hk] using this

theorem Convertible.proper_statement (hc : c ∈ s.root.children) (hst : isStatement c = true) :
    ∀ e ∈ s.statementEdits names imports c, e.IsProper := by
  intro e he
  have hall := mem_filter_allEdits.2 ⟨c, mem_statements hc hst, he⟩
  exact h.proper e (List.mem_filter.1 hall).1

theorem Convertible.within_deletion (hc : c ∈ s.root.children) :
    s.Within c [.delete (s.startAt c) (s.stopAt c)] := by
  have hle := (h.laidOut.spanned (h.spans hc).1).start_le
  intro e he
  rw [List.mem_singleton.1 he]
  exact ⟨le_rfl, by exact_mod_cast hle, le_rfl⟩

theorem Convertible.within_exportEdits (hc : c ∈ s.root.children) (hst : isStatement c = true)
    (hk : c.kind = .exportStatement) : s.Within c (exportEdits s names c) := by
  obtain ⟨hspans, -⟩ := h.spans hc
  have hp := h.proper_statement hc hst
  rcases exported_cases s names imports hk
    (h.isExportShaped hc hst hk) with ⟨role, i, part, keyword, hex⟩ | ⟨-, -, hedits, -⟩
  · rw [hex.edits]
    rw [hex.statementEdits] at hp
    obtain ⟨h1, h2, h3, h4⟩ := hex.bounds h.laidOut hspans
    intro e he
    rw [List.mem_singleton.1 he]
    exact (hex.inside h.laidOut hspans (hp _ List.mem_cons_self)).mono h1 (h3.trans h4)
  · rw [hedits]
    exact h.within_deletion hc

theorem Convertible.within_statement (hc : c ∈ s.root.children) (hst : isStatement c = true) :
    s.Within c (s.statementEdits names imports c) := by
  have himport : s.Within c (if c.kind = .importStatement then
      [.delete (s.startAt c) (s.stopAt c)] else []) := by
    split
    · exact h.within_deletion hc
    · exact within_nil c
  have hexport : s.Within c
      (if c.kind = .exportStatement then exportEdits s names c else []) := by
    split
    · next hk => exact h.within_exportEdits hc hst hk
    · exact within_nil c
  have hcalls : s.Within c
      (if c.kind = .importStatement then [] else s.redirectsIn names c) := by
    split
    · exact within_nil c
    · next hk =>
      refine within_redirectsIn h.laidOut (h.spans hc).1 fun e he =>
        h.proper_statement hc hst e ?_
      rw [statementEdits, if_neg hk, if_neg hk]
      exact List.mem_append_right _ (List.mem_append_right _ (List.mem_append_right _ he))
  rw [statementEdits]
  exact himport.append (hexport.append ((within_visitsOf imports h.laidOut hc).append hcalls))

theorem Convertible.filter_statement {i : Nat} (hi : s.root.children[i]? = some c)
    (hst : isStatement c = true) :
    ((s.allEdits names imports).filter fun e => !e.isInsertBefore).filter
        (touches (s.startAt c) (s.stopAt c)) =
      (s.statementEdits names imports c).filter (touches (s.startAt c) (s.stopAt c)) := by
  have hpart : ∀ F : Node → List Edit,
      (∀ c, ∀ e ∈ F c, e ∈ s.statementEdits names imports c) →
      ∀ c ∈ s.root.children, isStatement c = true → s.Within c (F c) :=
    fun F hF c hc hst e he => h.within_statement hc hst e (hF c e he)
  have h1 := h.laidOut.filter_statements (hpart (fun c => if c.kind = .importStatement then
    [.delete (s.startAt c) (s.stopAt c)] else []) fun c e he => List.mem_append_left _ he) hi hst
  have h2 := h.laidOut.filter_statements (hpart (fun c => if c.kind = .exportStatement then
    exportEdits s names c else []) fun c e he =>
      List.mem_append_right _ (List.mem_append_left _ he)) hi hst
  have h3 := h.laidOut.filter_statements (hpart
    (fun c => (visitsOf c).flatMap (s.localEdits imports))
    fun c e he => List.mem_append_right _ (List.mem_append_right _
      (List.mem_append_left _ he))) hi hst
  have h4 := h.laidOut.filter_statements (hpart (fun c => if c.kind = .importStatement then [] else
    s.redirectsIn names c) fun c e he => List.mem_append_right _ (List.mem_append_right _
      (List.mem_append_right _ he))) hi hst
  rw [filter_allEdits, List.filter_append, List.filter_append, List.filter_append, h1, h2, h3, h4,
    statementEdits, List.filter_append, List.filter_append, List.filter_append]

theorem Convertible.exists_statement {e : Edit} (he : e ∈ s.allEdits names imports)
    (hb : e.isInsertBefore = false) :
    ∃ c ∈ s.root.children, isStatement c = true ∧ Inside (s.startAt c) (s.stopAt c) e := by
  obtain ⟨c, hc, hin⟩ := mem_filter_allEdits.1 (List.mem_filter.2 ⟨he, by rw [hb]; rfl⟩)
  obtain ⟨hnamed, hkind⟩ := List.mem_filter.1 hc
  obtain ⟨hchild, hn⟩ := List.mem_filter.1 hnamed
  have hst : isStatement c = true := by rw [isStatement, hn, hkind]; rfl
  exact ⟨c, hchild, hst, h.within_statement hchild hst e hin⟩

/-! ## Constants -/

theorem Convertible.constantsOf_eq_nil (hc : c ∈ s.root.children)
    (he : s.startAt c = s.stopAt c) : s.constantsOf imports constants (visitsOf c) = [] := by
  by_contra hne
  obtain ⟨v, hv, hr⟩ := exists_declared_of_constantsOf_ne_nil s imports hne
  obtain ⟨r, hr⟩ := Option.isSome_iff_exists.1 hr
  obtain ⟨-, -, hin⟩ := mem_visitsOf h.laidOut hc hv
  have hlt := (h.laidOut.word (Node.all_iff.1 hin.spans).1 (Node.all_iff.1 hin.sound).1
    (isWord_of_isNameUse (isNameUse_of_rebinding? hr))).2
  have := hin.start_le
  have := hin.le_stop
  omega

/-- In front of an offset stand no constants, unless a statement starts there that is not empty. -/
theorem Convertible.textsBefore_statements {cs : List Node} {p : Nat}
    (hcs : ∀ c ∈ cs, c ∈ s.root.children)
    (hp : ∀ c ∈ cs, isStatement c = true → s.startAt c = p → s.startAt c = s.stopAt c) :
    (textsBefore p (s.rebindEdits imports constants
      ((cs.filter isStatement).flatMap visitsOf))).flatten = [] := by
  induction cs generalizing constants with
  | nil => rfl
  | cons c cs ih =>
    have hrest := fun constants => @ih constants
      (fun d hd => hcs d (List.mem_cons_of_mem c hd))
      (fun d hd => hp d (List.mem_cons_of_mem c hd))
    have hc := hcs c List.mem_cons_self
    by_cases hst : isStatement c = true
    · have hvs : ∀ v ∈ visitsOf c, v.statement = c := fun v hv =>
        (mem_visitsOf h.laidOut hc hv).2.1
      rw [List.filter_cons, if_pos hst, List.flatMap_cons, rebindEdits_append,
        textsBefore_append, List.flatten_append, hrest, List.append_nil,
        textsBefore_rebindEdits s imports constants hvs]
      split
      · next hat =>
        exact h.constantsOf_eq_nil hc (hp c List.mem_cons_self hst (by exact_mod_cast hat))
      · rfl
    · rw [List.filter_cons, if_neg hst]
      exact hrest constants

/-! ## Stretches of the whole text -/

theorem Convertible.stretch_gap {x y : Nat}
    (hgap : ∀ c ∈ s.root.children, isStatement c = true → s.stopAt c ≤ x ∨ y ≤ s.startAt c) :
    stretch s.text (s.allEdits names imports) x y = s.text.cut x y := by
  have hempty : ∀ p : Nat, x ≤ p → p < y →
      (textsBefore p (s.allEdits names imports)).flatten = [] := by
    intro p hx hy
    rw [textsBefore_allEdits]
    refine h.textsBefore_statements (fun _ hc => hc) fun c hc hst hat => ?_
    have hb := h.laidOut.followStatements.bounds hc
    rcases hgap c hc hst with hstop | hstart
    · omega
    · omega
  rw [stretch_of_textsBefore_eq_nil hempty]
  refine stretch_untouched ?_
  rw [List.filter_eq_nil_iff]
  intro e he
  obtain ⟨hmem, hb⟩ := List.mem_filter.1 he
  obtain ⟨c, hc, hst, hin⟩ := h.exists_statement hmem (by simpa using hb)
  rw [hin.touches_eq_false (hgap c hc hst)]
  exact Bool.false_ne_true

/-- What the passes insert in front of the start of a statement that is not empty are the constants
of the statement. -/
theorem Convertible.textsBefore_statement {pre post : List Node}
    (hlist : s.root.children = pre ++ c :: post) (hst : isStatement c = true)
    (hlt : s.startAt c < s.stopAt c) :
    (textsBefore (s.startAt c) (s.allEdits names imports)).flatten =
      s.constantsOf imports (s.rebindConstants imports []
        ((pre.filter isStatement).flatMap visitsOf)) (visitsOf c) := by
  have hfollow := h.laidOut.followStatements
  rw [hlist] at hfollow
  obtain ⟨hpre, hpost⟩ := hfollow.apart_of_append
  have hmem : ∀ d, d ∈ pre ∨ d = c ∨ d ∈ post → d ∈ s.root.children := fun d hd => by
    rwa [hlist, List.mem_append, List.mem_cons]
  have hvs : ∀ v ∈ visitsOf c, v.statement = c := fun v hv =>
    (mem_visitsOf h.laidOut (hmem c (.inr (.inl rfl))) hv).2.1
  rw [textsBefore_allEdits, hlist, List.filter_append, List.filter_cons, if_pos hst,
    List.flatMap_append, List.flatMap_cons, rebindEdits_append, rebindEdits_append,
    textsBefore_append, textsBefore_append, List.flatten_append, List.flatten_append,
    textsBefore_rebindEdits s imports _ hvs, if_pos rfl,
    h.textsBefore_statements (fun d hd => hmem d (.inl hd)) ?_,
    h.textsBefore_statements (fun d hd => hmem d (.inr (.inr hd))) ?_, List.nil_append,
    List.append_nil]
  · intro d hd _ hat
    have := hpost d hd
    omega
  · intro d hd _ hat
    have hbounds := h.laidOut.followStatements.bounds (hmem d (.inl hd))
    have := hpre d hd
    omega

theorem Convertible.textsBefore_inside {pre post : List Node} {p : Nat}
    (hlist : s.root.children = pre ++ c :: post) (hstart : s.startAt c < p)
    (hstop : p < s.stopAt c) : (textsBefore p (s.allEdits names imports)).flatten = [] := by
  have hfollow := h.laidOut.followStatements
  rw [hlist] at hfollow
  obtain ⟨hpre, hpost⟩ := hfollow.apart_of_append
  rw [textsBefore_allEdits]
  refine h.textsBefore_statements (fun _ hd => hd) fun d hd _ hat => ?_
  have hbounds := h.laidOut.followStatements.bounds hd
  rw [hlist, List.mem_append, List.mem_cons] at hd
  rcases hd with hd | rfl | hd
  · have := hpre d hd
    omega
  · omega
  · have := hpost d hd
    omega

theorem Convertible.stretch_statement {pre post : List Node}
    (hlist : s.root.children = pre ++ c :: post) (hst : isStatement c = true) :
    stretch s.text (s.allEdits names imports) (s.startAt c) (s.stopAt c) =
      s.constantsOf imports (s.rebindConstants imports []
        ((pre.filter isStatement).flatMap visitsOf)) (visitsOf c) ++
        s.printStatement names imports c := by
  have hi : s.root.children[pre.length]? = some c := by
    rw [hlist, List.getElem?_append_right le_rfl, Nat.sub_self]
    rfl
  have hc := List.mem_of_getElem? hi
  obtain ⟨hspans, hsound⟩ := h.spans hc
  have hprint := stretch_eq_printStatement h.laidOut hspans hsound
    (fun hk => h.isExportShaped hc hst hk) (h.proper_statement hc hst) (h.filter_statement hi hst)
  rcases Nat.eq_or_lt_of_le (h.laidOut.followStatements.bounds hc).2.1 with heq | hlt
  · rw [h.constantsOf_eq_nil hc heq, ← hprint, heq, stretch_self, stretch_self]
    rfl
  · rw [stretch_eq_textsBefore hlt fun p hstart hstop => h.textsBefore_inside hlist hstart hstop,
      h.textsBefore_statement hlist hst hlt, hprint]

theorem Convertible.stretch_eq_printStatements {cs pre : List Node} {start : Nat}
    (hlist : s.root.children = pre ++ cs) (hfollow : s.Follow start s.text.length cs)
    (hpre : ∀ c ∈ pre, isStatement c = true → s.stopAt c ≤ start) :
    stretch s.text (s.allEdits names imports) start s.text.length =
      s.printStatements names imports (s.rebindConstants imports []
        ((pre.filter isStatement).flatMap visitsOf)) start cs := by
  -- On what is still to be printed; the constants declared by then are those of the statements
  -- that are printed already.
  induction cs generalizing pre start with
  | nil =>
    rw [List.append_nil] at hlist
    rw [printStatements, h.stretch_gap fun c hc hst => .inl (hpre c (hlist ▸ hc) hst), Text.cut,
      List.take_length]
  | cons c cs ih =>
    obtain ⟨h1, h2, h3⟩ := hfollow
    have hlist' : s.root.children = (pre ++ [c]) ++ cs := by
      rw [hlist, List.append_assoc]
      rfl
    rw [printStatements]
    by_cases hst : isStatement c = true
    · have hconstants : s.rebindConstants imports [] (((pre ++ [c]).filter isStatement).flatMap
          visitsOf) = s.rebindConstants imports (s.rebindConstants imports []
            ((pre.filter isStatement).flatMap visitsOf)) (visitsOf c) := by
        rw [List.filter_append, List.filter_singleton, hst, List.flatMap_append, rebindConstants,
          rebindConstants, rebindConstants, List.foldl_append]
        simp
      have hgap : stretch s.text (s.allEdits names imports) start (s.startAt c) =
          s.text.cut start (s.startAt c) := by
        refine h.stretch_gap fun d hd hdst => ?_
        rw [hlist, List.mem_append, List.mem_cons] at hd
        rcases hd with hd | rfl | hd
        · exact .inl (hpre d hd hdst)
        · exact .inr le_rfl
        · exact .inr (h2.trans (h3.bounds hd).1)
      have hrest := ih hlist' h3 fun d hd hdst => by
        rcases List.mem_append.1 hd with hd | hd
        · exact (hpre d hd hdst).trans (h1.trans h2)
        · rw [List.mem_singleton.1 hd]
      rw [if_pos hst, stretch_append (h1.trans h2) h3.le, stretch_append h1 h2, hgap, hrest,
        h.stretch_statement hlist hst, hconstants]
      simp only [List.append_assoc]
    · have hfilter : (pre ++ [c]).filter isStatement = pre.filter isStatement := by
        rw [Bool.not_eq_true] at hst
        rw [List.filter_append, List.filter_singleton, hst, cond_false, List.append_nil]
      rw [if_neg hst, ← hfilter]
      refine ih hlist' (h3.weaken (h1.trans h2)) fun d hd hdst => ?_
      rcases List.mem_append.1 hd with hd | hd
      · exact hpre d hd hdst
      · rw [List.mem_singleton.1 hd] at hdst
        exact absurd hdst hst

theorem Convertible.rendering_eq :
    Edit.rendering s.text (s.allEdits names imports) = s.printModule names imports := by
  have hroot := h.laidOut.spanned h.laidOut.spans
  have hplain : ∀ e ∈ s.allEdits names imports, e.isInsertBefore = false →
      Inside 0 s.text.length e := by
    intro e he hb
    obtain ⟨c, hc, -, hin⟩ := h.exists_statement he hb
    exact hin.mono (Nat.zero_le _) ((h.laidOut.followStatements.bounds hc).2.2.trans hroot.stop_le)
  have hbefore : (textsBefore s.text.length (s.allEdits names imports)).flatten = [] := by
    rw [textsBefore_allEdits]
    refine h.textsBefore_statements (fun _ hc => hc) fun c hc _ hat => ?_
    have hb := h.laidOut.followStatements.bounds hc
    have := hroot.stop_le
    omega
  rw [rendering_eq_stretch_of_inside hplain hbefore,
    h.stretch_eq_printStatements (List.nil_append s.root.children).symm
      ((h.laidOut.followStatements.weaken (Nat.zero_le _)).extend hroot.stop_le)
      fun c hc => absurd hc List.not_mem_nil, printModule]
  simp [rebindConstants]

end Convertible

end Script

/-- For every script whose tree is laid out over its text and whose export statements are shaped:
when the four passes complete, the text they leave behind is what the printer prints. -/
theorem serialize_convertBody {s : Script} {names : Settings} {k : Nat} {d : Draft}
    (hs : s.IsLaidOut) (hexports : s.exportsAreShaped = true)
    (h : outcome (convertBody s names) (Draft.ofText s.text) = (.ok k, d)) :
    d.overlay.serialize = s.printModule names d.imports := by
  have hlog := convertBody_log h
  have hconvertible : s.Convertible names d.imports := ⟨hs, hexports, hlog.isProper⟩
  rw [hlog.serialize, hconvertible.rendering_eq]

def sampleModule : String :=
  "import { x } from 'a';\nexport default class extends x {}\nx(import('./b'), import('c'));\n"

theorem serialize_convertBody_sampleModule :
    let s := Script.ofModule sampleModule
    s.IsLaidOut ∧ s.exportsAreShaped = true ∧
      ∃ k d, outcome (convertBody s {}) (Draft.ofText s.text) = (.ok k, d) ∧
        d.overlay.serialize = s.printModule {} d.imports := by
  intro s
  have hs : s.IsLaidOut := Script.isLaidOut_ofModule (by decide +kernel) (by decide +kernel)
  have hexports : s.exportsAreShaped = true := by decide +kernel
  have hok : (outcome (convertBody s {}) (Draft.ofText s.text)).1.toOption = some 2 := by
    decide +kernel
  rcases h : outcome (convertBody s {}) (Draft.ofText s.text) with ⟨_ | k, d⟩
  · rw [h] at hok
    exact nomatch hok
  · exact ⟨hs, hexports, k, d, rfl, serialize_convertBody hs hexports h⟩

end RegistryScript
