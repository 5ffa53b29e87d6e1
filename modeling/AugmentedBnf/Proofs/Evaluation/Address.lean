import Mathlib.Data.List.Lex
import AugmentedBnf.Proofs.Evaluation.Tree
import AugmentedBnf.Proofs.Text.Cut

/-! # The addresses of nodes

A node of a tree is told from an equal one elsewhere by its address, which says from the root down
which child to turn to. In preorder the addresses ascend lexicographically: a node stands in front of
those below it, and those below one child in front of those below the next. So every node has its
address once, the tree below a node takes up a segment of them, and how deep they are says which they
are.
-/
namespace AugmentedBnf.Node

/-- The node at an address. -/
def at? : Node → (address : List Nat) → Option Node
  | node, [] => some node
  | node, i :: address => node.children[i]?.bind fun child => at? child address

mutual
/-- The addresses in a tree, parents before children. -/
def addresses : Node → List (List Nat)
  | ⟨_, _, _, children⟩ => [] :: addressesFrom 0 children

/-- The addresses in the trees of children, of which the first is counted from a number. -/
def addressesFrom (i : Nat) : List Node → List (List Nat)
  | [] => []
  | node :: rest => (addresses node).map (i :: ·) ++ addressesFrom (i + 1) rest
end

section At

variable {root child node : Node} {i : Nat} {address : List Nat}

@[simp] theorem at?_nil (node : Node) : node.at? [] = some node := rfl

@[simp] theorem at?_cons (node : Node) (i : Nat) (address : List Nat) :
    node.at? (i :: address) = node.children[i]?.bind (·.at? address) := rfl

/-- Walking down two addresses one after the other. -/
theorem at?_append (node : Node) (address other : List Nat) :
    node.at? (address ++ other) = (node.at? address).bind (·.at? other) := by
  induction address generalizing node with
  | nil => rfl
  | cons i address ih =>
    rw [List.cons_append, at?_cons, at?_cons]
    cases node.children[i]? with
    | none => rfl
    | some child => exact ih child

theorem mem_preorder_of_at? (h : root.at? address = some node) : node ∈ root.preorder := by
  induction address generalizing root with
  | nil =>
    cases h
    exact mem_preorder_iff.mpr (.inl rfl)
  | cons i address ih =>
    obtain ⟨child, hchild, hnode⟩ := Option.bind_eq_some_iff.mp h
    exact mem_preorder_iff.mpr (.inr ⟨child, List.mem_of_getElem? hchild, ih hnode⟩)

/-- Whether no node stands next to the one at an address, below the same parent. -/
def isLast (root : Node) (address : List Nat) : Bool :=
  address.getLast?.all fun i => (root.at? (address.dropLast ++ [i + 1])).isNone

@[simp] theorem isLast_nil (root : Node) : root.isLast [] = true := rfl

theorem isLast_append (h : root.at? address = some node) (i : Nat) :
    root.isLast (address ++ [i]) = node.children[i + 1]?.isNone := by
  simp [isLast, at?_append, h]

end At

section Addresses

variable {root node : Node} {nodes : List Node} {i : Nat} {address : List Nat}

theorem mem_addressesFrom_iff : address ∈ addressesFrom i nodes ↔
    ∃ k below child, address = (i + k) :: below ∧ nodes[k]? = some child ∧
      below ∈ child.addresses := by
  induction nodes generalizing i with
  | nil => simp [addressesFrom]
  | cons node rest ih =>
    rw [addressesFrom, List.mem_append, List.mem_map, ih]
    constructor
    · rintro (⟨below, hbelow, rfl⟩ | ⟨k, below, child, rfl, hchild, hbelow⟩)
      · exact ⟨0, below, node, rfl, rfl, hbelow⟩
      · exact ⟨k + 1, below, child, by rw [Nat.add_right_comm, Nat.add_assoc], hchild, hbelow⟩
    · rintro ⟨k, below, child, rfl, hchild, hbelow⟩
      cases k with
      | zero =>
        cases hchild
        exact .inl ⟨below, hbelow, rfl⟩
      | succ k =>
        exact .inr ⟨k, below, child, by rw [Nat.add_right_comm, Nat.add_assoc], hchild, hbelow⟩

/-- The addresses are those at which there is a node. -/
theorem mem_addresses_iff : address ∈ root.addresses ↔ ∃ node, root.at? address = some node := by
  induction root using Node.induction generalizing address with
  | node cursor kind outcome children ih =>
    rw [addresses, List.mem_cons]
    cases address with
    | nil => simp
    | cons i address =>
      simp only [at?_cons, Option.bind_eq_some_iff, mem_addressesFrom_iff, Nat.zero_add,
        List.cons.injEq, reduceCtorEq, false_or]
      constructor
      · rintro ⟨k, below, child, ⟨rfl, rfl⟩, hchild, hbelow⟩
        obtain ⟨node, hnode⟩ := (ih child (List.mem_of_getElem? hchild)).mp hbelow
        exact ⟨node, child, hchild, hnode⟩
      · rintro ⟨node, child, hchild, hnode⟩
        exact ⟨i, address, child, ⟨rfl, rfl⟩, hchild,
          (ih child (List.mem_of_getElem? hchild)).mpr ⟨node, hnode⟩⟩

theorem pairwise_addressesFrom (h : ∀ node ∈ nodes, node.addresses.Pairwise (· < ·)) (i : Nat) :
    (addressesFrom i nodes).Pairwise (· < ·) := by
  induction nodes generalizing i with
  | nil => exact .nil
  | cons node rest ih =>
    obtain ⟨hnode, hrest⟩ := List.forall_mem_cons.mp h
    rw [addressesFrom, List.pairwise_append, List.pairwise_map]
    refine ⟨hnode.imp fun hlt => List.cons_lt_cons_self.mpr hlt, ih hrest (i + 1), ?_⟩
    intro address haddress other hother
    obtain ⟨below, -, rfl⟩ := List.mem_map.mp haddress
    obtain ⟨k, below', child, rfl, -, -⟩ := mem_addressesFrom_iff.mp hother
    exact List.cons_lt_cons_iff.mpr (.inl (by omega))

/-- In preorder the addresses ascend lexicographically. -/
theorem pairwise_addresses (root : Node) : root.addresses.Pairwise (· < ·) := by
  induction root using Node.induction with
  | node cursor kind outcome children ih =>
    rw [addresses]
    refine List.pairwise_cons.mpr ⟨fun address haddress => ?_, pairwise_addressesFrom ih 0⟩
    obtain ⟨k, below, child, rfl, -, -⟩ := mem_addressesFrom_iff.mp haddress
    exact List.nil_lt_cons _ _

theorem map_at?_addressesFrom (h : ∀ node ∈ nodes, node.addresses.map node.at? =
    node.preorder.map some) (parent : Node) {before : List Node}
    (hparent : parent.children = before ++ nodes) :
    (addressesFrom before.length nodes).map parent.at? = (preorderAll nodes).map some := by
  induction nodes generalizing before with
  | nil => rfl
  | cons node rest ih =>
    obtain ⟨hnode, hrest⟩ := List.forall_mem_cons.mp h
    have hat : parent.at? ∘ (before.length :: ·) = node.at? := by
      funext address
      rw [Function.comp_apply, at?_cons, hparent, List.getElem?_append_right Nat.le.refl,
        Nat.sub_self, List.getElem?_cons_zero, Option.bind_some]
    have hsplit : parent.children = before ++ [node] ++ rest := by
      rw [hparent, List.append_assoc, List.singleton_append]
    have hnext := ih hrest hsplit
    rw [List.length_append, List.length_singleton] at hnext
    rw [addressesFrom, List.map_append, List.map_map, hat, hnode, hnext, preorderAll,
      List.map_append]

/-- At the addresses stand the nodes of the tree in preorder. -/
theorem map_at?_addresses (root : Node) : root.addresses.map root.at? = root.preorder.map some := by
  induction root using Node.induction with
  | node cursor kind outcome children ih =>
    have hbelow := map_at?_addressesFrom ih ⟨cursor, kind, outcome, children⟩
      (List.nil_append children).symm
    rw [addresses, List.map_cons, preorder, List.map_cons, ← hbelow]
    rfl

theorem isInfix_addressesFrom {k : Nat} (h : nodes[k]? = some node) (i : Nat) :
    node.addresses.map ((i + k) :: ·) <:+: addressesFrom i nodes := by
  induction nodes generalizing i k with
  | nil => cases h
  | cons first rest ih =>
    rw [addressesFrom]
    cases k with
    | zero =>
      cases h
      exact (List.prefix_append _ _).isInfix
    | succ k =>
      have hrest := ih h (i + 1)
      rw [Nat.add_right_comm, Nat.add_assoc] at hrest
      exact hrest.trans (List.suffix_append _ _).isInfix

/-- The addresses of the nodes below a node are a segment of all addresses. -/
theorem isInfix_addresses (h : root.at? address = some node) :
    node.addresses.map (address ++ ·) <:+: root.addresses := by
  induction address generalizing root with
  | nil =>
    cases h
    exact ⟨[], [], by simp⟩
  | cons i address ih =>
    obtain ⟨child, hchild, hnode⟩ := Option.bind_eq_some_iff.mp h
    have hbelow := (ih hnode).map (i :: ·)
    have hfirst := isInfix_addressesFrom hchild 0
    rw [List.map_map] at hbelow
    rw [Nat.zero_add] at hfirst
    obtain ⟨cursor, kind, outcome, children⟩ := root
    exact (hbelow.trans hfirst).trans (List.suffix_cons _ _).isInfix

end Addresses

section Depths

variable {root other node : Node} {nodes others : List Node}

theorem head?_lengths_addressesFrom (i : Nat) (nodes : List Node) :
    ∀ depth ∈ ((addressesFrom i nodes).map List.length).head?, depth = 1 := by
  cases nodes with
  | nil => nofun
  | cons node rest =>
    obtain ⟨cursor, kind, outcome, children⟩ := node
    rintro depth ⟨⟩
    rfl

/-- The depths below a number of children: a child itself, and then what is below it one deeper. -/
theorem lengths_addressesFrom_cons (i : Nat) (node : Node) (rest : List Node) :
    (addressesFrom i (node :: rest)).map List.length =
      1 :: (((addressesFrom 0 node.children).map List.length).map Nat.succ ++
        (addressesFrom (i + 1) rest).map List.length) := by
  obtain ⟨cursor, kind, outcome, children⟩ := node
  simp [addressesFrom, addresses, Function.comp_def]

theorem addressesFrom_eq_of_lengths
    (h : ∀ node ∈ nodes, ∀ other : Node,
      (addressesFrom 0 node.children).map List.length =
        (addressesFrom 0 other.children).map List.length → node.addresses = other.addresses)
    {i : Nat} (hdepths : (addressesFrom i nodes).map List.length =
      (addressesFrom i others).map List.length) : addressesFrom i nodes = addressesFrom i others := by
  induction nodes generalizing i others with
  | nil => exact (List.map_eq_nil_iff.mp hdepths.symm).symm
  | cons node rest ih =>
    cases others with
    | nil => exact List.map_eq_nil_iff.mp hdepths
    | cons other others =>
      obtain ⟨hnode, hrest⟩ := List.forall_mem_cons.mp h
      rw [lengths_addressesFrom_cons, lengths_addressesFrom_cons] at hdepths
      -- what is below the first child ends where a depth is 1 again
      have hdeep : ∀ children, ∀ depth ∈ ((addressesFrom 0 children).map List.length).map Nat.succ,
          decide (1 < depth) = true := by
        intro children depth hdepth
        simp only [List.mem_map] at hdepth
        obtain ⟨-, ⟨address, haddress, rfl⟩, rfl⟩ := hdepth
        obtain ⟨k, below, child, rfl, -, -⟩ := mem_addressesFrom_iff.mp haddress
        exact decide_eq_true (by rw [List.length_cons]; omega)
      have hnext : ∀ rest, ∀ depth ∈ ((addressesFrom (i + 1) rest).map List.length).head?,
          decide (1 < depth) = false := by
        intro rest depth hdepth
        rw [head?_lengths_addressesFrom _ _ depth hdepth]
        rfl
      obtain ⟨hbelow, hbehind⟩ := Text.append_inj_of_head (hdeep _) (hnext rest) (hdeep _)
        (hnext others) (List.cons.inj hdepths).2
      rw [addressesFrom, addressesFrom, ih hrest hbehind,
        hnode other (List.map_injective_iff.mpr Nat.succ_injective hbelow)]

/-- The depths of the addresses, in preorder, determine the addresses. -/
theorem addresses_eq_of_lengths
    (h : root.addresses.map List.length = other.addresses.map List.length) :
    root.addresses = other.addresses := by
  induction root using Node.induction generalizing other with
  | node cursor kind outcome children ih =>
    obtain ⟨cursor', kind', outcome', others⟩ := other
    rw [addresses, addresses, List.map_cons, List.map_cons] at h
    have hbelow : ∀ node ∈ children, ∀ other : Node,
        (addressesFrom 0 node.children).map List.length =
          (addressesFrom 0 other.children).map List.length → node.addresses = other.addresses := by
      rintro ⟨cursor, kind, outcome, below⟩ hnode ⟨cursor', kind', outcome', below'⟩ hdepths
      refine ih _ hnode ?_
      rw [addresses, addresses, List.map_cons, List.map_cons, hdepths]
    rw [addresses, addresses, addressesFrom_eq_of_lengths hbelow (List.cons.inj h).2]

end Depths

end AugmentedBnf.Node
