import AugmentedBnf.Evaluation.Query
import AugmentedBnf.Proofs.Evaluation.Address

/-! # What queries find

The nodes that satisfy a query are selected from the preorder of the tree, and the first of them is
the one that a search stops at. A query asks for each of its criteria, so any one of them may be asked
first and the others of its answer. Below a node the same nodes are found as within the whole tree, and
there they stand side by side.
-/
namespace AugmentedBnf

namespace Query

/-- The criteria of a query, each as a query of its own. -/
def criteria (query : Query) : List Query :=
  (query.kind.map fun kind => { any with kind := some kind }).toList ++
    (query.path.map fun names => { any with path := some names }).toList ++
    (query.name.map fun name => { any with name := some name }).toList

theorem holds_eq_all_criteria (query : Query) (node : Node) :
    query.holds node = query.criteria.all fun one => one.holds node := by
  obtain ⟨kind, path, name⟩ := query
  cases kind <;> cases path <;> cases name <;> simp [criteria, holds, any, Bool.and_assoc]

/-- A node satisfies a query if it satisfies one of the criteria and the others. -/
theorem holds_of_criteria {query one : Query} {before after : List Query}
    (h : query.criteria = before ++ one :: after) (node : Node) :
    query.holds node =
      ((before ++ after).all (fun other => other.holds node) && one.holds node) := by
  rw [holds_eq_all_criteria, h, List.all_append, List.all_cons, List.all_append,
    Bool.and_left_comm, Bool.and_comm]

end Query

namespace Node

variable {query : Query} {root node : Node}

theorem filterAll_eq_flatMap (query : Query) (nodes : List Node) :
    filterAll query nodes = nodes.flatMap (filter query) := by
  induction nodes with
  | nil => rfl
  | cons node rest ih => rw [filterAll, ih, List.flatMap_cons]

theorem filter_eq (query : Query) (root : Node) :
    root.filter query = root.preorder.filter query.holds := by
  induction root using Node.induction with
  | node cursor kind outcome children ih =>
    have hbelow : children.flatMap (filter query) =
        (children.flatMap preorder).filter query.holds := by
      rw [List.filter_flatMap]
      exact List.flatMap_congr ih
    rw [filter, preorder, List.filter_cons, preorderAll_eq_flatMap, filterAll_eq_flatMap, hbelow]

theorem findAny?_eq {nodes : List Node}
    (h : ∀ node ∈ nodes, node.find? query = node.preorder.find? query.holds) :
    findAny? query nodes = (preorderAll nodes).find? query.holds := by
  induction nodes with
  | nil => rfl
  | cons node rest ih =>
    obtain ⟨hnode, hrest⟩ := List.forall_mem_cons.mp h
    rw [findAny?, preorderAll, List.find?_append, hnode, ih hrest]
    cases node.preorder.find? query.holds <;> rfl

theorem find?_eq (query : Query) (root : Node) :
    root.find? query = root.preorder.find? query.holds := by
  induction root using Node.induction with
  | node cursor kind outcome children ih =>
    rw [find?, preorder, List.find?_cons, findAny?_eq ih]
    cases query.holds ⟨cursor, kind, outcome, children⟩ <;> rfl

/-- The addresses of the nodes that satisfy a query, in preorder. -/
def hits (query : Query) (root : Node) : List (List Nat) :=
  root.addresses.filter fun address => (root.at? address).any query.holds

theorem mem_hits_iff {address : List Nat} :
    address ∈ root.hits query ↔ ∃ node, root.at? address = some node ∧ query.holds node = true := by
  rw [hits, List.mem_filter, mem_addresses_iff, Option.any_eq_true]
  constructor
  · rintro ⟨-, node, hnode, hholds⟩
    exact ⟨node, hnode, hholds⟩
  · rintro ⟨node, hnode, hholds⟩
    exact ⟨⟨node, hnode⟩, node, hnode, hholds⟩

/-- What is found stands at the addresses that satisfy the query. -/
theorem map_at?_hits (query : Query) (root : Node) :
    (root.hits query).map root.at? = (root.filter query).map some := by
  have hselect := congrArg (List.filter (Option.any query.holds)) (map_at?_addresses root)
  rw [List.filter_map, List.filter_map] at hselect
  rw [filter_eq]
  exact hselect

theorem isInfix_hits {address : List Nat} (h : root.at? address = some node) (query : Query) :
    (node.hits query).map (address ++ ·) <:+: root.hits query := by
  have hsame : ∀ below, (root.at? (address ++ below)).any query.holds =
      (node.at? below).any query.holds := by
    intro below
    rw [at?_append, h, Option.bind_some]
  have hfilter := (isInfix_addresses h).filter fun address => (root.at? address).any query.holds
  rw [List.filter_map] at hfilter
  simp only [Function.comp_def, hsame] at hfilter
  exact hfilter

/-- Searching below a node finds a segment of what is found in the whole tree. -/
theorem isInfix_filter {address : List Nat} (h : root.at? address = some node) (query : Query) :
    node.filter query <:+: root.filter query := by
  have hnodes : ∀ node : Node, (node.hits query).filterMap node.at? = node.filter query := by
    intro node
    have hsome := congrArg (List.filterMap id) (map_at?_hits query node)
    rwa [List.filterMap_map, List.filterMap_map, Function.id_comp, Function.id_comp,
      List.filterMap_some] at hsome
  have hbelow : root.at? ∘ (address ++ ·) = node.at? := by
    funext below
    rw [Function.comp_apply, at?_append, h, Option.bind_some]
  have hinfix := (isInfix_hits h query).filterMap root.at?
  rwa [List.filterMap_map, hbelow, hnodes, hnodes] at hinfix

/-- A query selects from the preorder of a tree the nodes that satisfy it, each at its own address and
once, and a search stops at the first of them. The answer to one criterion, restricted to the nodes
that satisfy the others, is the answer to the query. Below a node the query selects a segment of what
it selects in the whole tree, at the addresses that go on from that of the node. -/
theorem filter_selects (query : Query) (root : Node) :
    (root.filter query = root.preorder.filter query.holds ∧
      (root.hits query).map root.at? = (root.filter query).map some ∧
      (root.hits query).Pairwise (· < ·) ∧
      ∀ address, address ∈ root.hits query ↔
        ∃ node, root.at? address = some node ∧ query.holds node = true) ∧
    (root.find? query = (root.filter query).head? ∧
      (root.find? query = none ↔ root.filter query = [])) ∧
    (∀ before one after, query.criteria = before ++ one :: after →
      root.filter query =
        (root.filter one).filter fun node => (before ++ after).all fun other => other.holds node) ∧
    ∀ address node, root.at? address = some node →
      (node.hits query).map (address ++ ·) <:+: root.hits query ∧
        node.filter query <:+: root.filter query := by
  have hfind : root.find? query = (root.filter query).head? := by
    rw [find?_eq, filter_eq, List.head?_filter]
  refine ⟨⟨filter_eq query root, map_at?_hits query root, ?_, fun _ => mem_hits_iff⟩,
    ⟨hfind, by rw [hfind, List.head?_eq_none_iff]⟩, ?_, ?_⟩
  · exact (pairwise_addresses root).filter _
  · intro before one after hcriteria
    rw [filter_eq, filter_eq, List.filter_filter]
    exact List.filter_congr fun node _ => Query.holds_of_criteria hcriteria node
  · intro address node hnode
    exact ⟨isInfix_hits hnode query, isInfix_filter hnode query⟩

/-- The same leaf at two addresses, once below a group, and a query for its kind and its name. -/
theorem filter_selects_equal_leaves :
    let cursor := Cursor.start ['É'] ⟨['x'], .empty⟩
    let leaf := Node.success cursor .literal 1 []
    let group := Node.success cursor .group 1 [leaf]
    let root := Node.success cursor .alternation 1 [leaf, group]
    let byKind : Query := { Query.any with kind := some .literal }
    let byName : Query := { Query.any with name := some ['é'] }
    let query : Query := ⟨some .literal, none, some ['é']⟩
    query.criteria = [] ++ byKind :: [byName] ∧
      root.filter query = (root.filter byKind).filter (fun node => byName.holds node && true) ∧
      root.hits query = [[0], [1, 0]] ∧ (root.filter query).length = 2 ∧
      root.at? [1] = some group ∧ (group.hits query).map ([1] ++ ·) <:+: root.hits query ∧
      group.filter query <:+: root.filter query := by
  intro cursor leaf group root byKind byName query
  obtain ⟨⟨-, hnodes, -⟩, -, hcriteria, hbelow⟩ := filter_selects query root
  have hhits : root.hits query = [[0], [1, 0]] := by decide
  have hlength := congrArg List.length hnodes
  rw [hhits, List.length_map, List.length_map] at hlength
  exact ⟨rfl, hcriteria [] byKind [byName] rfl, hhits, hlength.symm, rfl, hbelow [1] group rfl⟩

end Node

end AugmentedBnf
