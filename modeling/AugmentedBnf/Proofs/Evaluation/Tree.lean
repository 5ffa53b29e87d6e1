import AugmentedBnf.Evaluation.Node

/-! # Statements about all nodes of a tree

The nodes of a tree are its root and the nodes of its children, so a statement about all of them
splits in the same way.
-/
namespace AugmentedBnf.Node

@[elab_as_elim]
theorem induction {motive : Node → Prop}
    (node : ∀ cursor kind outcome children, (∀ child ∈ children, motive child) →
      motive ⟨cursor, kind, outcome, children⟩) (root : Node) : motive root :=
  @Node.rec motive (fun children => ∀ child ∈ children, motive child) node
    (fun _ h => absurd h List.not_mem_nil)
    (fun _ _ hhead htail => List.forall_mem_cons.mpr ⟨hhead, htail⟩) root

theorem preorderAll_eq_flatMap (nodes : List Node) :
    preorderAll nodes = nodes.flatMap preorder := by
  induction nodes with
  | nil => rfl
  | cons node rest ih => rw [preorderAll, ih, List.flatMap_cons]

theorem mem_preorder_iff {node m : Node} :
    m ∈ node.preorder ↔ m = node ∨ ∃ child ∈ node.children, m ∈ child.preorder := by
  obtain ⟨cursor, kind, outcome, children⟩ := node
  rw [preorder, preorderAll_eq_flatMap, List.mem_cons, List.mem_flatMap]

/-- Every node of the tree has the property. -/
def Every (P : Node → Prop) (root : Node) : Prop := ∀ node ∈ root.preorder, P node

theorem every_iff {P : Node → Prop} {root : Node} :
    root.Every P ↔ P root ∧ ∀ child ∈ root.children, child.Every P := by
  constructor
  · intro h
    refine ⟨h root (mem_preorder_iff.mpr (.inl rfl)), fun child hchild m hm => ?_⟩
    exact h m (mem_preorder_iff.mpr (.inr ⟨child, hchild, hm⟩))
  · rintro ⟨hroot, hchildren⟩ m hm
    rcases mem_preorder_iff.mp hm with rfl | ⟨child, hchild, hm⟩
    · exact hroot
    · exact hchildren child hchild m hm

end AugmentedBnf.Node
