import AugmentedBnf.Proofs.Evaluation.NodeLaws
import AugmentedBnf.Proofs.Grammar.Definitions

/-! # What the path of a node records

A node stands on the path of the rules that were entered to reach it. Entering a rule adds its name
at the end, and nothing else touches the path: an attempt hands the path of its own node on to the
attempts that it makes. So a path spells the rule at the root and then the references that were
entered on the way down, in order.
-/
namespace AugmentedBnf

theorem RuleTable.keyed_of_entries {rules : RuleTable}
    (h : ∀ entry ∈ rules.entries, entry.2.name = entry.1) : rules.Keyed :=
  fun key rule hfound => h (key, rule) (mem_of_find? hfound)

/-- How a node goes on from the path and depth above it: a reference that entered its rule adds the
name of that rule, and any other node adds nothing. -/
def Node.Continues (rules : RuleTable) (path : Path) (depth : Nat) (node : Node) : Prop :=
  if node.isEntered then
    ∃ target, rules.find? target.name = some target ∧
      node.path.segments = path.segments ++ [target.name] ∧ node.cursor.depth = depth + 1
  else node.path = path ∧ node.cursor.depth = depth

namespace Attempt

/-- The name of the rule that an attempt enters, if it enters one. -/
def entered? (x : Attempt) : Option Text :=
  match x.expression with
  | .reference name => if x.node.isEntered then some name else none
  | _ => none

variable {x y : Attempt} {start : Attempt} {above : List Attempt}

theorem entered?_of_outside (h : x.node.isEntered = false) : x.entered? = none := by
  have hout : ¬ x.node.isEntered = true := by
    rw [h]
    exact Bool.false_ne_true
  unfold entered?
  split
  · rw [if_neg hout]
  · rfl

theorem continues_node (hkeyed : x.cursor.context.rules.Keyed) :
    x.node.Continues x.cursor.context.rules x.cursor.path x.cursor.depth := by
  rcases x.node_cases with ⟨hout, hcursor⟩ | ⟨name, rule, -, hrule, -, hnode⟩
  · rw [Node.Continues, hout, if_neg Bool.false_ne_true, Node.path, hcursor]
    exact ⟨rfl, rfl⟩
  · have hfound : x.cursor.context.rules.find? rule.name = some rule := by
      rw [hkeyed name rule hrule]
      exact hrule
    rw [Node.Continues, hnode, Node.isEntered_entered, if_pos rfl, Node.path, Node.cursor_entered]
    exact ⟨rule, hfound, Path.segments_fork _ _, rfl⟩

/-- The node of an attempt lies behind the name that the attempt enters. -/
theorem node_path (hkeyed : x.cursor.context.rules.Keyed) :
    x.node.path.fromTail = x.entered?.toList ++ x.cursor.path.fromTail ∧
      x.node.cursor.depth = x.cursor.depth + x.entered?.toList.length := by
  rcases x.node_cases with ⟨hout, hcursor⟩ | ⟨name, rule, hname, hrule, -, hnode⟩
  · rw [entered?_of_outside hout, Node.path, hcursor]
    exact ⟨rfl, rfl⟩
  · have hentered : x.entered? = some rule.name := by
      have hin : x.node.isEntered = true := by rw [hnode, Node.isEntered_entered]
      unfold entered?
      rw [hname]
      dsimp only
      rw [if_pos hin, hkeyed name rule hrule]
    rw [hentered, hnode, Node.path, Node.cursor_entered]
    exact ⟨rfl, rfl⟩

/-- An attempt hands on the path and the depth of its node. -/
theorem Makes.path_eq (h : x.Makes y) :
    y.cursor.path = x.node.path ∧ y.cursor.depth = x.node.cursor.depth := by
  rcases x.node_cases with ⟨hout, hcursor⟩ | ⟨name, rule, hname, hrule, hidle, hnode⟩
  · obtain ⟨-, n, -, hy⟩ | ⟨name, rule, -, -, hin, -⟩ := h.cursor_cases
    · rw [hy, Node.path, hcursor]
      exact ⟨rfl, rfl⟩
    · rw [hout] at hin
      cases hin
  · obtain ⟨e, c⟩ := x
    cases hname
    cases h with
    | body found idle =>
      obtain rfl := Option.some.inj (hrule.symm.trans found)
      rw [hnode, Node.path, Node.cursor_entered]
      exact ⟨rfl, rfl⟩

theorem Makes.context_eq (h : x.Makes y) : y.cursor.context = x.cursor.context := by
  obtain ⟨-, n, -, hy⟩ | ⟨name, rule, -, -, -, -, hy⟩ := h.cursor_cases
  · rw [hy, Cursor.moveTo_context]
  · rw [hy, Cursor.label_context]

/-- The names that the attempts of a walk enter, the last one first. -/
def trail (attempts : List Attempt) : List Text := attempts.filterMap entered?

theorem trail_cons (x : Attempt) (above : List Attempt) :
    trail (x :: above) = x.entered?.toList ++ trail above := by
  unfold trail
  rw [List.filterMap_cons]
  cases x.entered? <;> rfl

theorem context_of_lineage (walk : Lineage Makes start above x) :
    x.cursor.context = start.cursor.context := by
  induction walk with
  | root => rfl
  | next _ hstep ih => rw [hstep.context_eq, ih]

/-- Along a walk the names of the entered rules are put on the path of the start. -/
theorem path_of_lineage (hkeyed : start.cursor.context.rules.Keyed)
    (walk : Lineage Makes start above x) :
    x.node.path.fromTail = trail (x :: above) ++ start.cursor.path.fromTail ∧
      x.node.cursor.depth = start.cursor.depth + (trail (x :: above)).length := by
  induction walk with
  | root =>
    obtain ⟨hpath, hdepth⟩ := node_path hkeyed
    rw [trail_cons, trail, List.filterMap_nil, List.append_nil]
    exact ⟨hpath, hdepth⟩
  | @next above x y walk hstep ih =>
    have hkeyed' : y.cursor.context.rules.Keyed := by
      rw [hstep.context_eq, context_of_lineage walk]
      exact hkeyed
    obtain ⟨hpath, hdepth⟩ := node_path hkeyed'
    obtain ⟨hhanded, hhanded'⟩ := hstep.path_eq
    rw [hhanded, ih.1] at hpath
    rw [hhanded', ih.2] at hdepth
    rw [trail_cons y, hpath, hdepth, List.append_assoc, List.length_append]
    exact ⟨rfl, by omega⟩

end Attempt

/-- A node that entered its rule has one child, which stands at its own offset. -/
theorem Node.exists_of_isEntered {node : Node} (hlawful : node.Lawful)
    (hentered : node.isEntered = true) :
    ∃ only, node.children = [only] ∧ only.index = node.index := by
  obtain ⟨cursor, kind, outcome, children⟩ := node
  obtain ⟨hkind, houtcome⟩ := Bool.and_eq_true_iff.mp hentered
  obtain rfl : kind = .reference := by simpa using hkind
  cases outcome with
  | success n =>
    obtain ⟨only, hchildren, hindex, -⟩ := hlawful
    exact ⟨only, hchildren, hindex⟩
  | failure reason =>
    obtain rfl : reason = .referenceEvaluationFailed := by
      simpa [isSuccess, reason?, Outcome.isSuccess, Outcome.reason?] using houtcome
    rcases hlawful with ⟨-, only, hchildren, hindex, -⟩ | ⟨hreason | hreason, -⟩
    · exact ⟨only, hchildren, hindex⟩
    · cases hreason
    · cases hreason

namespace Rule

/-- Paths record exactly the rules that were entered. The root goes on from the path of the rule
alone at depth zero, and every child from the path and depth of its parent: a reference that entered
its rule adds the name of that rule, and no other node adds anything. So a path has one name more
than the depth, the one child of an entered reference stands where the reference does, and a path
spells the rule and then the references entered on the way down to its node, that node included. -/
theorem evaluateIn_paths (rule : Rule) {rules : RuleTable} (hkeyed : rules.Keyed) (input : Text) :
    (rule.evaluateIn rules input).Continues rules (.ofSegments [rule.name]) 0 ∧
    (∀ node ∈ (rule.evaluateIn rules input).preorder,
      node.path.length = node.cursor.depth + 1 ∧
      (∀ child ∈ node.children, child.Continues rules node.path node.cursor.depth) ∧
      (node.isEntered = true → ∃ only, node.children = [only] ∧ only.index = node.index)) ∧
    ∀ nodes node, Lineage Node.HasChild (rule.evaluateIn rules input) nodes node →
      ∃ above x, Lineage Attempt.Makes (rule.attempt rules input) above x ∧
        above.map Attempt.node = nodes ∧ x.node = node ∧
        node.path.segments = rule.name :: (Attempt.trail (x :: above)).reverse := by
  refine ⟨Attempt.continues_node (x := rule.attempt rules input) hkeyed, ?_, ?_⟩
  · intro node hnode
    obtain ⟨above, x, hwalk, rfl⟩ :=
      Attempt.exists_of_mem_preorder (x := rule.attempt rules input) hnode
    have hcontext : x.cursor.context.rules = rules :=
      congrArg Context.rules (Attempt.context_of_lineage hwalk)
    refine ⟨?_, ?_, Node.exists_of_isEntered (Expression.lawful_evaluate _ _)⟩
    · obtain ⟨hpath, hdepth⟩ := Attempt.path_of_lineage hkeyed hwalk
      have hstart : (rule.attempt rules input).cursor.path.fromTail = [rule.name] := rfl
      have hzero : (rule.attempt rules input).cursor.depth = 0 := rfl
      rw [Path.length, hpath, hdepth, hstart, hzero, List.length_append, List.length_singleton,
        Nat.zero_add]
    · intro child hchild
      obtain ⟨y, hmakes, rfl⟩ := Attempt.keeps_of_mem_children hchild
      obtain ⟨hpath, hdepth⟩ := hmakes.path_eq
      have hrules : y.cursor.context.rules = rules := by rw [hmakes.context_eq, hcontext]
      have hchild := Attempt.continues_node (x := y) (by rwa [hrules])
      rwa [hrules, hpath, hdepth] at hchild
  · intro nodes node walk
    obtain ⟨above, x, hwalk, hnodes, rfl⟩ := Lineage.attempts (rule.attempt rules input) walk
    refine ⟨above, x, hwalk, hnodes, rfl, ?_⟩
    obtain ⟨hpath, -⟩ := Attempt.path_of_lineage hkeyed hwalk
    have hstart : (rule.attempt rules input).cursor.path.fromTail = [rule.name] := rfl
    rw [Path.segments, hpath, hstart, List.reverse_append, List.reverse_singleton,
      List.singleton_append]

/-- A rule that refers to itself and then to another: the first reference fails for a cycle and adds
nothing to the path, the second one enters its rule. -/
theorem evaluateIn_paths_cycle :
    let rule : Rule := ⟨['A'], .concatenation [.option (.reference ['A']), .reference ['B']]⟩
    let rules : RuleTable := ⟨[(['A'], rule), (['B'], ⟨['B'], .literal (.sensitive ['é'])⟩)]⟩
    let root := rule.evaluateIn rules ['é', 'é']
    rules.Keyed ∧ root.isEntered = false ∧ root.Continues rules (.ofSegments [['A']]) 0 ∧
      (root.preorder.map fun node => (node.isEntered, node.path.segments, node.cursor.depth)) =
        [(false, [['A']], 0), (false, [['A']], 0), (true, [['A'], ['A']], 1),
          (false, [['A'], ['A']], 1), (false, [['A'], ['A']], 1), (false, [['A'], ['A']], 1),
          (true, [['A'], ['A'], ['B']], 2), (false, [['A'], ['A'], ['B']], 2),
          (true, [['A'], ['B']], 1), (false, [['A'], ['B']], 1)] ∧
      ∀ node ∈ root.preorder, node.path.length = node.cursor.depth + 1 := by
  intro rule rules root
  have hkeyed : rules.Keyed := RuleTable.keyed_of_entries (by decide)
  have hpaths := evaluateIn_paths rule hkeyed ['é', 'é']
  exact ⟨hkeyed, rfl, hpaths.1, by decide, fun node hnode => (hpaths.2.1 node hnode).1⟩

/-- Where a rule is nothing but a reference, the root is an entered reference itself, behind the name
of the rule that it enters; and where that rule is nothing but a reference, the one child of an
entered reference is behind a further name. -/
theorem evaluateIn_root_path_ne :
    let rule : Rule := ⟨['A'], .reference ['B']⟩
    let rules : RuleTable := ⟨[(['A'], rule), (['B'], ⟨['B'], .reference ['C']⟩),
      (['C'], ⟨['C'], .reference ['D']⟩), (['D'], ⟨['D'], .literal (.sensitive ['x'])⟩)]⟩
    let root := rule.evaluateIn rules ['x']
    rules.Keyed ∧ root.path.segments ≠ [['A']] ∧ root.cursor.depth ≠ 0 ∧
      ∃ child only, root.children = [child] ∧ child.isEntered = true ∧ child.children = [only] ∧
        only.path ≠ child.path ∧ only.cursor.depth ≠ child.cursor.depth := by
  intro rule rules root
  have hkeyed : rules.Keyed := RuleTable.keyed_of_entries (by decide)
  exact ⟨hkeyed, by decide, by decide, _, _, rfl, by decide, rfl, by decide, by decide⟩

end Rule

end AugmentedBnf
