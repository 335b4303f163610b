import Mathlib
import RegistryScript.Proofs.Faults.Escape
import RegistryScript.Proofs.Printing.Node
import RegistryScript.Proofs.Scoping.Collectors
import RegistryScript.Proofs.Script.Locality

/-! # Trees with all their nodes

What the passes ask for of a tree is there: the nodes that they look for, and in strings a text for
each escape sequence. Then every text that a pass reads can be read.

* `Script.isEquipped`: the parts of a node that the passes ask for are there.
* `Script.Supplies`: a node of a tree that is laid out, has the shape of a module and is equipped.
* `Script.Supplies.stringValue`, `Script.Supplies.exportName`, `Script.Supplies.declaredNames`: what
  is read from such a node.
* `Node.namesNamespace`, `namespaceName?_cases`: the one name that may be no node.
* `exists_exportKeyword`: where an exported part stands.
-/

namespace RegistryScript
set_option autoImplicit false

/-! ## Nodes -/

theorem Node.all_of_mem_descendants {p : Node → Bool} {n m : Node} (hm : m ∈ n.descendants)
    (hn : n.all p = true) : m.all p = true := by
  induction n using Node.induct with
  | step n ih =>
    rw [descendants_eq] at hm
    rcases List.mem_cons.1 hm with rfl | hm
    · exact hn
    · obtain ⟨c, hc, -, hin⟩ := mem_namedDescendants.1 hm
      exact ih c hc hin ((all_iff.1 hn).2 c hc)

namespace Script

/-- The parts of a node that the passes ask for are there: the string that names a module, the name
in a specifier, the text of a keyword and of a string, and a text for each escape sequence in it. -/
def isEquipped (s : Script) (n : Node) : Bool :=
  match n.kind with
  | .importStatement => n.source?.any fun source => source.kind = .string
  | .exportStatement => n.source?.all fun source => source.kind = .string
  | .importSpecifier | .exportSpecifier => (n.child? .name).isSome
  | .exportKeyword => decide (n.start < n.stop)
  | .string => decide (n.start < n.stop) &&
      n.namedChildren.all fun part => part.kind ≠ .escapeSequence || (s.textAt part).isEscape
  | _ => true

/-- A node of a script that is laid out, has the shape of a module and has all its parts. -/
structure Supplies (s : Script) (n : Node) : Prop where
  holds : s.Holds n
  sound : n.all Node.isSound = true
  equipped : n.all s.isEquipped = true

namespace Supplies

variable {s : Script} {n c : Node}

theorem child (h : s.Supplies n) (hc : c ∈ n.children) : s.Supplies c :=
  ⟨h.holds.child hc, (Node.all_iff.1 h.sound).2 c hc, (Node.all_iff.1 h.equipped).2 c hc⟩

theorem namedChild (h : s.Supplies n) (hc : c ∈ n.namedChildren) : s.Supplies c :=
  h.child (Node.mem_of_mem_namedChildren hc)

theorem descendant (h : s.Supplies n) (hc : c ∈ n.descendants) : s.Supplies c :=
  ⟨⟨h.holds.laidOut, Node.all_of_mem_descendants hc h.holds.spans,
    Node.all_of_mem_descendants hc h.holds.shaped⟩, Node.all_of_mem_descendants hc h.sound,
    Node.all_of_mem_descendants hc h.equipped⟩

theorem isSpanned (h : s.Supplies n) : n.isSpanned s.text = true := (Node.all_iff.1 h.holds.spans).1

theorem spanned (h : s.Supplies n) : s.Spanned n := h.holds.laidOut.spanned h.holds.spans

theorem startOf (h : s.Supplies n) : s.startOf n = .ok (s.startAt n) :=
  h.holds.laidOut.startOf h.isSpanned

theorem stopOf (h : s.Supplies n) : s.stopOf n = .ok (s.stopAt n) :=
  h.holds.laidOut.stopOf h.isSpanned

theorem textOf (h : s.Supplies n) : s.textOf n = .ok (s.textAt n) := h.holds.textOf

theorem isEquipped_eq (h : s.Supplies n) : s.isEquipped n = true := (Node.all_iff.1 h.equipped).1

theorem name (h : s.Supplies n) (hk : n.kind = .importSpecifier ∨ n.kind = .exportSpecifier) :
    ∃ name, n.child? .name = some name ∧ s.Supplies name := by
  have hname : (n.child? .name).isSome = true := by
    have := h.isEquipped_eq
    rcases hk with hk | hk <;> simpa only [isEquipped, hk] using this
  obtain ⟨name, hname⟩ := Option.isSome_iff_exists.1 hname
  exact ⟨name, hname, h.child (Node.mem_of_child? hname)⟩

theorem string (h : s.Supplies n) (hk : n.kind = .string) : n.start < n.stop ∧
    ∀ part ∈ n.namedChildren, part.kind = .escapeSequence → (s.textAt part).isEscape = true := by
  have := h.isEquipped_eq
  simp only [isEquipped, hk, Bool.and_eq_true, decide_eq_true_eq, List.all_eq_true, Bool.or_eq_true,
    ne_eq] at this
  exact ⟨this.1, fun part hpart hescape => (this.2 part hpart).resolve_left (not_not_intro hescape)⟩

theorem partValue (h : s.Supplies n) (he : n.kind = .escapeSequence → (s.textAt n).isEscape = true) :
    ∃ t, s.partValue n = .ok t := by
  rw [Script.partValue, h.textOf]
  by_cases hk : n.kind = .escapeSequence
  · obtain ⟨t, ht⟩ := decodeEscape_of_isEscape (he hk)
    refine ⟨t, ?_⟩
    change (if n.kind = .escapeSequence then _ else _) = _
    rw [if_pos hk, ht]
    rfl
  · refine ⟨s.textAt n, ?_⟩
    change (if n.kind = .escapeSequence then _ else _) = _
    rw [if_neg hk]
    rfl

theorem stringValue (h : s.Supplies n) (hk : n.kind = .string) : ∃ t, s.stringValue n = .ok t := by
  have hparts : ∀ part ∈ n.namedChildren,
      s.partValue part = .ok ((s.partValue part).toOption.getD []) := by
    intro part hpart
    obtain ⟨t, ht⟩ := (h.namedChild hpart).partValue ((h.string hk).2 part hpart)
    rw [ht]
    rfl
  rw [Script.stringValue, mapM_eq_ok hparts]
  exact ⟨_, rfl⟩

theorem exportName (h : s.Supplies n) : ∃ t, s.exportName n = .ok t := by
  rw [Script.exportName]
  by_cases hk : n.kind = .string
  · rw [if_pos hk]
    exact h.stringValue hk
  · rw [if_neg hk]
    exact ⟨_, h.textOf⟩

theorem declaredNames (h : s.Supplies n) : ∃ ts, s.declaredNames n = .ok ts := by
  rw [Script.declaredNames]
  split
  · exact ⟨_, h.holds.declaratorNames⟩
  · exact ⟨_, h.holds.ownName⟩

theorem source (h : s.Supplies n) {source : Node} (hs : n.source? = some source) :
    s.Supplies source := by
  rw [Node.source?, Option.or_eq_some_iff] at hs
  rcases hs with hs | ⟨-, hs⟩
  · exact h.child (Node.mem_of_child? hs)
  · exact h.namedChild (List.mem_of_find?_eq_some hs)

end Supplies

end Script

/-! ## Export statements -/

variable {n : Node}

def Node.namesNamespace (n : Node) : Bool := n.kind ≠ .namespaceExport || !n.namedChildren.isEmpty

theorem namespaceName?_cases (n : Node) :
    (∃ name?, namespaceName? n = .ok name? ∧ ∀ name, name? = some name →
      name ∈ n.namedChildren ∨ ∃ clause ∈ n.namedChildren, name ∈ clause.namedChildren) ∨
    namespaceName? n = .error .outside ∧ n.all Node.namesNamespace = false := by
  unfold namespaceName?
  cases hclause : n.namedChildOfKind? .namespaceExport with
  | none =>
    exact .inl ⟨_, rfl, fun name hname => .inl (List.mem_of_find?_eq_some hname)⟩
  | some clause =>
    have hmem : clause ∈ n.namedChildren := List.mem_of_find?_eq_some hclause
    have hk : clause.kind = .namespaceExport := by simpa using List.find?_some hclause
    cases hlast : clause.namedChildren.getLast? with
    | some name =>
      refine .inl ⟨some name, by simp only [hlast], fun name' hname => .inr ⟨clause, hmem, ?_⟩⟩
      rw [← Option.some.inj hname]
      exact List.mem_of_getLast? hlast
    | none =>
      refine .inr ⟨by simp only [hlast], ?_⟩
      rw [Bool.eq_false_iff]
      intro hall
      have hclause := (Node.all_iff.1 ((Node.all_iff.1 hall).2 clause
        (Node.mem_of_mem_namedChildren hmem))).1
      rw [Node.namesNamespace, hk, List.getLast?_eq_none_iff.1 hlast] at hclause
      exact nomatch hclause

theorem exists_exportKeyword (hshape : n.isExportShaped = true) :
    ∃ keyword, n.childOfKind? .exportKeyword = some keyword ∧
      ((∃ part, n.defaultTarget? = some part ∧ keyword.stop ≤ part.start) ∨
        n.defaultTarget? = none ∧ (n.childOfKind? .defaultKeyword).isSome = false) := by
  unfold Node.isExportShaped at hshape
  unfold Node.defaultTarget?
  split at hshape
  · exact nomatch hshape
  · next keyword declaration hkeyword hd hv =>
    rw [Bool.and_eq_true, decide_eq_true_eq] at hshape
    exact ⟨keyword, hkeyword, .inl ⟨declaration, by rw [hd]; rfl, hshape.1⟩⟩
  · next keyword value hkeyword hd hv =>
    rw [Bool.and_eq_true, Bool.and_eq_true, decide_eq_true_eq] at hshape
    exact ⟨keyword, hkeyword, .inl ⟨value, by rw [hd, hv]; rfl, hshape.1.2⟩⟩
  · next keyword hkeyword hd hv =>
    rw [Bool.and_eq_true] at hshape
    refine ⟨keyword, hkeyword, .inr ⟨by rw [hd, hv]; rfl, ?_⟩⟩
    simpa using hshape.1
  · exact nomatch hshape

end RegistryScript
