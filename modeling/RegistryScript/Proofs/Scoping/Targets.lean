import Mathlib
import RegistryScript.Proofs.Registration.Exports
import RegistryScript.Proofs.Scoping.Resolution

/-! # What a declaration target binds

Which of the identifiers in a declaration target are bound by it is told by the nodes between the
target and the identifier: each one is entered where a pattern binds names, past keys and default
values.

* `Node.bindsAt`, `Node.Binds`: a part of a target binds names at a place; a target binds an
  identifier.
* `mem_bindings_iff`, `mem_targets_iff`: the collected identifiers are those that are bound.
* `pairwise_targets`: they are collected in source order, each once.
* `Script.AreBoundNames`: some names are those that a target binds.
* `declaredNames_exact`: the names of targets and declarations; but variables named `undefined` are
  overlooked.
-/

namespace RegistryScript
set_option autoImplicit false

/-! ## Bound identifiers -/

def Kind.isBindingName : Kind → Bool
  | .identifier | .shorthandPropertyIdentifierPattern | .undefined => true
  | _ => false

namespace Node

/-- A part of a target binds names by the node at a place of it. -/
def bindsAt (p : Node) (i : Nat) : Bool :=
  match p.kind with
  | .objectPattern | .arrayPattern | .restPattern => (p.children[i]?).any isNamed
  | .pairPattern => p.isChildAt .value i
  | .assignmentPattern | .objectAssignmentPattern => p.isChildAt .left i
  | _ => false

def Binds (target m : Node) : Prop :=
  m.kind.isBindingName = true ∧
    ∃ trail, Trail.Leads target trail m ∧ ∀ e ∈ trail, e.1.bindsAt e.2 = true

variable {n m c p : Node} {i : Nat} {ns : List Node} {role : Role}

theorem isPattern_of_bindsAt (h : p.bindsAt i = true) :
    p.kind.isPattern = true := by
  unfold bindsAt at h
  split at h <;> simp_all [Kind.isPattern]

theorem binds_iff : n.Binds m ↔
    (m = n ∧ n.kind.isBindingName = true) ∨
      ∃ i c, n.children[i]? = some c ∧ n.bindsAt i = true ∧ c.Binds m := by
  constructor
  · rintro ⟨hname, trail, hleads, hbinds⟩
    rcases List.eq_nil_or_concat trail with rfl | ⟨trail, ⟨p, i⟩, rfl⟩
    · rw [Trail.Leads] at hleads
      exact .inl ⟨hleads, hleads ▸ hname⟩
    · rw [List.concat_eq_append] at hleads hbinds
      obtain ⟨rfl, c, hc, hinner⟩ := hleads.of_concat
      have hi := hbinds (p, i) (List.mem_append_right _ List.mem_cons_self)
      exact .inr ⟨i, c, hc, hi, hname, trail, hinner, fun e he =>
        hbinds e (List.mem_append_left _ he)⟩
  · rintro (⟨rfl, hname⟩ | ⟨i, c, hc, hi, hname, trail, hleads, hbinds⟩)
    · exact ⟨hname, [], rfl, fun _ he => absurd he List.not_mem_nil⟩
    · refine ⟨hname, trail ++ [(n, i)], hleads.append ⟨hc, rfl⟩, fun e he => ?_⟩
      rcases List.mem_append.1 he with he | he
      · exact hbinds e he
      · rw [List.mem_singleton.1 he]
        exact hi

/-! ## Collected identifiers -/

theorem bindingsAmong_eq : bindingsAmong ns = (ns.filter isNamed).flatMap bindings := by
  induction ns with
  | nil => rfl
  | cons n ns ih =>
    rw [bindingsAmong, List.filter_cons]
    split
    · rw [List.flatMap_cons, ih]
    · exact ih

theorem bindingsIn_eq :
    bindingsIn role ns = ((ns.find? fun c => c.role = some role).map bindings).getD [] := by
  induction ns with
  | nil => rfl
  | cons n ns ih =>
    rw [bindingsIn, List.find?_cons]
    by_cases h : n.role = some role
    · simp [h]
    · simp [h, ih]

theorem bindings_cases (n : Node) :
    (n.kind.isBindingName = true ∧ n.bindings = [n] ∧ ∀ i, n.bindsAt i = false) ∨
      (n.kind.isBindingName = false ∧ n.bindings = n.namedChildren.flatMap bindings ∧
        ∀ i, n.bindsAt i = (n.children[i]?).any isNamed) ∨
      (n.kind.isBindingName = false ∧ ∃ role,
        n.bindings = ((n.child? role).map bindings).getD [] ∧
          ∀ i, n.bindsAt i = n.isChildAt role i) ∨
      (n.kind.isBindingName = false ∧ n.bindings = [] ∧ ∀ i, n.bindsAt i = false) := by
  obtain ⟨kind, start, stop, r, isNamed, isMissing, children⟩ := n
  by_cases hname : kind.isBindingName = true
  · unfold Kind.isBindingName at hname
    split at hname
    · exact .inl ⟨rfl, rfl, fun _ => rfl⟩
    · exact .inl ⟨rfl, rfl, fun _ => rfl⟩
    · exact .inl ⟨rfl, rfl, fun _ => rfl⟩
    · exact absurd hname Bool.false_ne_true
  by_cases hpattern : kind.isPattern = true
  · unfold Kind.isPattern at hpattern
    split at hpattern
    · exact .inr (.inl ⟨rfl, bindingsAmong_eq, fun _ => rfl⟩)
    · exact .inr (.inl ⟨rfl, bindingsAmong_eq, fun _ => rfl⟩)
    · exact .inr (.inr (.inl ⟨rfl, .value, bindingsIn_eq, fun _ => rfl⟩))
    · exact .inr (.inl ⟨rfl, bindingsAmong_eq, fun _ => rfl⟩)
    · exact .inr (.inr (.inl ⟨rfl, .left, bindingsIn_eq, fun _ => rfl⟩))
    · exact .inr (.inr (.inl ⟨rfl, .left, bindingsIn_eq, fun _ => rfl⟩))
    · exact absurd hpattern Bool.false_ne_true
  refine .inr (.inr (.inr ⟨Bool.not_eq_true _ ▸ hname, ?_, fun i => ?_⟩))
  · unfold bindings
    split <;> first | rfl | exact absurd rfl hname | exact absurd rfl hpattern
  · rw [Bool.eq_false_iff]
    exact fun h => hpattern (isPattern_of_bindsAt h)

theorem mem_bindings_iff : m ∈ n.bindings ↔ n.Binds m := by
  induction n using Node.induct with
  | step n ih =>
    have hchild (i : Nat) (c : Node) (hc : n.children[i]? = some c) :
        m ∈ c.bindings ↔ c.Binds m := ih c (List.mem_of_getElem? hc)
    rw [binds_iff]
    rcases n.bindings_cases with ⟨hname, heq, hplace⟩ | ⟨hname, heq, hplace⟩ |
      ⟨hname, role, heq, hplace⟩ | ⟨hname, heq, hplace⟩
    · simp [heq, hname, hplace]
    · simp only [heq, hname, hplace, Bool.false_eq_true, and_false, false_or, List.mem_flatMap,
        namedChildren, List.mem_filter]
      constructor
      · rintro ⟨c, ⟨hc, hnamed⟩, hm⟩
        obtain ⟨i, hi⟩ := List.mem_iff_getElem?.1 hc
        exact ⟨i, c, hi, by rw [hi]; exact hnamed, (hchild i c hi).1 hm⟩
      · rintro ⟨i, c, hi, hnamed, hm⟩
        rw [hi] at hnamed
        exact ⟨c, ⟨List.mem_of_getElem? hi, hnamed⟩, (hchild i c hi).2 hm⟩
    · simp only [heq, hname, hplace, Bool.false_eq_true, and_false, false_or, isChildAt_iff]
      constructor
      · intro hm
        cases hc : n.child? role with
        | none =>
          rw [hc] at hm
          exact absurd hm List.not_mem_nil
        | some c =>
          obtain ⟨i, hi, hat, -⟩ := exists_child hc
          rw [hc] at hm
          exact ⟨i, c, hat, hi, (hchild i c hat).1 hm⟩
      · rintro ⟨i, c, hat, hi, hm⟩
        obtain ⟨c', hc', hat'⟩ := child?_of_childIndex? hi
        obtain rfl : c = c' := Option.some.inj (hat.symm.trans hat')
        rw [hc']
        exact (hchild i c hat).2 hm
    · simp [heq, hname, hplace]

theorem mem_targets_iff : m ∈ n.targets ↔ n.Binds m ∧ m.isPlainName = true := by
  rw [targets_eq_filter, List.mem_filter, mem_bindings_iff]

theorem kind_of_mem_targets (h : m ∈ n.targets) : m.kind.isNameUse = true := by
  obtain ⟨⟨hname, -⟩, hplain⟩ := mem_targets_iff.1 h
  have hne : m.kind ≠ .undefined := of_decide_eq_true hplain
  unfold Kind.isBindingName at hname
  split at hname <;> simp_all [Kind.isNameUse]

end Node

/-! ## The order of the collected identifiers -/

section Order

variable {s : Script} {n m : Node}

theorem bounds_of_mem_bindings (hs : s.IsLaidOut) (hspan : n.all (Node.isSpanned s.text) = true)
    (hm : m ∈ n.bindings) : s.startAt n ≤ s.startAt m ∧ s.stopAt m ≤ s.stopAt n := by
  obtain ⟨-, trail, hleads, -⟩ := Node.mem_bindings_iff.1 hm
  exact bounds_of_leads hs hspan hleads

theorem pairwise_bindings (hs : s.IsLaidOut) (hspan : n.all (Node.isSpanned s.text) = true) :
    n.bindings.Pairwise fun m m' => s.stopAt m ≤ s.startAt m' := by
  induction n using Node.induct with
  | step n ih =>
    have hspans := (Node.all_iff.1 hspan).2
    rcases n.bindings_cases with ⟨-, heq, -⟩ | ⟨-, heq, -⟩ | ⟨-, role, heq, -⟩ | ⟨-, heq, -⟩
    · rw [heq]
      exact List.pairwise_singleton _ _
    · rw [heq, List.pairwise_flatMap]
      constructor
      · intro c hc
        have hmem := Node.mem_of_mem_namedChildren hc
        exact ih c hmem (hspans c hmem)
      · refine ((hs.spanned hspan).follow.pairwise.filter _).imp_of_mem
          fun {c d} hc hd hle m hm m' hm' => ?_
        have hbm := bounds_of_mem_bindings hs (hspans c (Node.mem_of_mem_namedChildren hc)) hm
        have hbm' := bounds_of_mem_bindings hs (hspans d (Node.mem_of_mem_namedChildren hd)) hm'
        exact hbm.2.trans (hle.trans hbm'.1)
    · rw [heq]
      cases hc : n.child? role with
      | none => exact .nil
      | some c =>
        have hmem := Node.mem_of_child? hc
        exact ih c hmem (hspans c hmem)
    · rw [heq]
      exact .nil

theorem pairwise_targets (hs : s.IsLaidOut) (hspan : n.all (Node.isSpanned s.text) = true)
    (hsound : n.all Node.isSound = true) :
    n.targets.Pairwise fun m m' => s.startAt m < s.startAt m' := by
  have horder : n.targets.Pairwise fun m m' => s.stopAt m ≤ s.startAt m' := by
    rw [Node.targets_eq_filter]
    exact (pairwise_bindings hs hspan).filter _
  refine horder.imp_of_mem fun {m m'} hm _ hle => ?_
  have hword := Script.isWord_of_isNameUse (Node.kind_of_mem_targets hm)
  have hlt := (hs.word (Node.of_mem_targets hspan hm) (Node.of_mem_targets hsound hm) hword).2
  exact hlt.trans_le hle

end Order

/-! ## Bound names -/

namespace Script

/-- A declaration target as the grammar has it, in a script that is laid out. It is no property,
which is a part of an object pattern only. -/
structure IsTarget (s : Script) (target : Node) : Prop extends s.Holds target where
  sound : target.all Node.isSound = true
  isTarget : target.isTarget = true
  ne_pair : target.kind ≠ .pairPattern
  ne_property : target.kind ≠ .objectAssignmentPattern

/-- Some names are those that a target binds, in source order and each identifier once, if there is
one: as they are written, and without the word `undefined`. -/
def AreBoundNames (s : Script) (target : Option Node) (names : List Text) : Prop :=
  ∃ bound : List Node, names = bound.map s.textAt ∧
    (∀ m, m ∈ bound ↔ (∃ t, target = some t ∧ t.Binds m) ∧ m.isPlainName = true) ∧
    bound.Pairwise fun m m' => s.startAt m < s.startAt m'

variable {s : Script} {n c target : Node} {trail : Trail}

theorem areBoundNames_some (hs : s.IsLaidOut) (hspan : n.all (Node.isSpanned s.text) = true)
    (hsound : n.all Node.isSound = true) : s.AreBoundNames (some n) (n.targets.map s.textAt) := by
  refine ⟨n.targets, rfl, fun m => ?_, pairwise_targets hs hspan hsound⟩
  rw [Node.mem_targets_iff]
  simp

theorem areBoundNames_none : s.AreBoundNames none [] := by
  refine ⟨[], rfl, fun m => ?_, .nil⟩
  simp

theorem isTarget_of_leads (hs : s.IsLaidOut) (hshaped : s.root.all Node.isShaped = true)
    (h : Trail.Leads s.root trail n) (ht : n.isTarget = true)
    (hk : n.kind = .objectPattern ∨ n.kind = .arrayPattern) : s.IsTarget n where
  laidOut := hs
  spans := h.all hs.spans
  shaped := h.all hshaped
  sound := h.all hs.sound
  isTarget := ht
  ne_pair := by rcases hk with hk | hk <;> rw [hk] <;> nofun
  ne_property := by rcases hk with hk | hk <;> rw [hk] <;> nofun

theorem IsTarget.boundIdentifiers (h : s.IsTarget target) :
    boundIdentifiers target = .ok target.targets :=
  (collected h.shaped h.isTarget).1 h.ne_pair h.ne_property

theorem IsTarget.boundNames (h : s.IsTarget target) :
    s.boundNames target = .ok (target.targets.map s.textAt) := by
  rw [Script.boundNames, h.boundIdentifiers]
  exact mapM_eq_ok fun m hm => h.laidOut.textOf (Node.of_mem_targets h.spans hm)

end Script

/-- The names of a target are those that it binds, and a declaration introduces the names of its
declarators, one after another; but the word `undefined` is overlooked. -/
theorem declaredNames_exact (s : Script) :
    (∀ target, s.IsTarget target →
      ∃ names, s.boundNames target = .ok names ∧ s.AreBoundNames (some target) names) ∧
    ∀ declaration, s.Holds declaration → declaration.all Node.isSound = true →
      declaration.kind.isVariableDeclaration = true →
        ∃ lists, List.Forall₂
            (fun declarator names => s.boundNames? (declarator.child? .name) = .ok names ∧
              s.AreBoundNames (declarator.child? .name) names)
            (declaration.namedChildren.filter fun c => c.kind = .variableDeclarator) lists ∧
          s.declaredNames declaration = .ok lists.flatten := by
  constructor
  · intro target h
    exact ⟨_, h.boundNames, Script.areBoundNames_some h.laidOut h.spans h.sound⟩
  · intro n h hsound hk
    refine ⟨(n.namedChildren.filter fun c => c.kind = .variableDeclarator).map fun c =>
      (c.targetsAt .name).map s.textAt, ?_, ?_⟩
    · rw [List.forall₂_map_right_iff, List.forall₂_same]
      intro c hc
      obtain ⟨hmem, hkind⟩ := List.mem_filter.1 hc
      refine ⟨h.boundNames_declarator hmem (of_decide_eq_true hkind), ?_⟩
      have hspans := (Node.all_iff.1 (h.namedChild hmem).spans).2
      have hsounds := (Node.all_iff.1 (Node.all_of_mem_namedChildren hsound hmem)).2
      rw [Node.targetsAt]
      cases hname : c.child? .name with
      | none => exact Script.areBoundNames_none
      | some target =>
        have htarget := Node.mem_of_child? hname
        exact Script.areBoundNames_some h.laidOut (hspans target htarget) (hsounds target htarget)
    · rw [Script.declaredNames, if_pos hk, h.declaratorNames, Node.declared, List.map_flatMap]
      rfl

def patternModule : String := "const \x7b a: [b = c], [k]: d, ...e \x7d = f, g = 1;\n"

theorem isReady_patternModule : (Script.ofModule patternModule).IsReady :=
  Script.isReady_ofModule (by decide +kernel)

theorem declaredNames_exact_patternModule :
    let s := Script.ofModule patternModule
    (∃ target, s.IsTarget target ∧ s.boundNames target = .ok ["b", "d", "e"] ∧
      s.AreBoundNames (some target) ["b", "d", "e"]) ∧
    ∃ declaration, s.Holds declaration ∧ declaration.all Node.isSound = true ∧
      declaration.kind.isVariableDeclaration = true ∧
      s.declaredNames declaration = .ok ["b", "d", "e", "g"] ∧
      ∃ lists, List.Forall₂
          (fun declarator names => s.boundNames? (declarator.child? .name) = .ok names ∧
            s.AreBoundNames (declarator.child? .name) names)
          (declaration.namedChildren.filter fun c => c.kind = .variableDeclarator) lists ∧
        s.declaredNames declaration = .ok lists.flatten := by
  intro s
  have hs : s.IsLaidOut := isReady_patternModule.laidOut
  have hshaped : s.root.all Node.isShaped = true := isReady_patternModule.module.shaped
  constructor
  · obtain ⟨trail, n, hleads, hn⟩ := @Trail.exists_of_along s.root [0, 0, 0]
      (fun _ n => n.kind = .objectPattern && n.isTarget &&
        decide ((s.boundNames n).toOption = some (["b", "d", "e"] : List Text)))
      (by decide +kernel)
    simp only [Bool.and_eq_true, decide_eq_true_eq] at hn
    obtain ⟨⟨hk, htarget⟩, hnames⟩ := hn
    replace hnames := eq_ok_of_toOption hnames
    have ht := Script.isTarget_of_leads hs hshaped hleads htarget (.inl hk)
    obtain ⟨names, hok, hbound⟩ := (declaredNames_exact s).1 n ht
    rw [hnames] at hok
    obtain rfl := Except.ok.inj hok
    exact ⟨n, ht, hnames, hbound⟩
  · obtain ⟨trail, n, hleads, hn⟩ := @Trail.exists_of_along s.root [0]
      (fun _ n => n.kind.isVariableDeclaration &&
        decide ((s.declaredNames n).toOption = some (["b", "d", "e", "g"] : List Text)))
      (by decide +kernel)
    rw [Bool.and_eq_true, decide_eq_true_eq] at hn
    have hholds : s.Holds n := ⟨hs, hleads.all hs.spans, hleads.all hshaped⟩
    exact ⟨n, hholds, hleads.all hs.sound, hn.1, eq_ok_of_toOption hn.2,
      (declaredNames_exact s).2 n hholds (hleads.all hs.sound) hn.1⟩

def undefinedPattern : String := "const [undefined] = [1];\n"

/-- A target that binds a variable named `undefined` has no names. -/
theorem boundNames_undefinedPattern :
    let s := Script.ofModule undefinedPattern
    ∃ target, s.IsTarget target ∧ s.boundNames target = .ok [] ∧
      ∃ m, target.Binds m ∧ s.textAt m = "undefined" := by
  intro s
  have hready : s.IsReady := Script.isReady_ofModule (by decide +kernel)
  obtain ⟨trail, n, hleads, hn⟩ := @Trail.exists_of_along s.root [0, 0, 0]
    (fun _ n => n.kind = .arrayPattern && n.isTarget &&
      decide ((s.boundNames n).toOption = some []) &&
      n.bindings.any fun m => s.textAt m = "undefined")
    (by decide +kernel)
  simp only [Bool.and_eq_true, decide_eq_true_eq, List.any_eq_true] at hn
  obtain ⟨⟨⟨hk, htarget⟩, hnames⟩, m, hm, htext⟩ := hn
  exact ⟨n, Script.isTarget_of_leads hready.laidOut hready.module.shaped hleads htarget (.inr hk),
    eq_ok_of_toOption hnames, m, Node.mem_bindings_iff.1 hm, htext⟩

end RegistryScript
