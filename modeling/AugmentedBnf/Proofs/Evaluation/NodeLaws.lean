import AugmentedBnf.Proofs.Evaluation.ActiveNames

/-! # The laws of nodes

Every kind of node has a law: what its children are, where they stand, and how its outcome follows
from theirs. The laws hold at every node of every tree, below failed nodes too. Each operator obeys
its law as soon as its operands report the offset at which they were tried.
-/
namespace AugmentedBnf

namespace Node

/-- The nodes match one after the other from an offset on, and their lengths have this sum. -/
inductive Tiles : Nat → List Node → Nat → Prop where
  | nil {start : Nat} : Tiles start [] 0
  | cons {start n total : Nat} {node : Node} {rest : List Node} (place : node.index = start)
      (hit : node.length? = some n) (next : Tiles (start + n) rest total) :
      Tiles start (node :: rest) (n + total)

theorem Tiles.snoc {start total n : Nat} {nodes : List Node} {last : Node}
    (h : Tiles start nodes total) (place : last.index = start + total)
    (hit : last.length? = some n) : Tiles start (nodes ++ [last]) (total + n) := by
  induction h with
  | nil =>
    have hone : Tiles _ [last] (n + 0) := .cons place hit .nil
    rwa [Nat.add_zero, ← Nat.zero_add n] at hone
  | cons here hfirst next ih =>
    rw [Nat.add_assoc]
    exact .cons here hfirst (ih (by rw [place, Nat.add_assoc]))

/-- There is one child, at this offset and with this length, or failed where there is none. -/
def Single (children : List Node) (index : Nat) (length? : Option Nat) : Prop :=
  ∃ child, children = [child] ∧ child.index = index ∧ child.length? = length?

/-- There is one child, which failed at this offset or further on. -/
def FailedFrom (children : List Node) (index : Nat) : Prop :=
  ∃ child, children = [child] ∧ index ≤ child.index ∧ child.length? = none

/-- What the law of a kind says about the outcome of a node at an offset with these children. -/
def Law (index : Nat) (children : List Node) : Expression.Kind → Outcome → Prop
  | .literal, .success _ => children = []
  | .literal, .failure reason => reason = .literalCharsetMismatch ∧ children = []
  | .prose, .success _ => False
  | .prose, .failure reason => reason = .proseNotEvaluable ∧ children = []
  | .group, .success n => Single children index (some n)
  | .group, .failure reason => reason = .groupExpressionFailed ∧ Single children index none
  | .option, .success n =>
    Single children index (some n) ∨ (n = 0 ∧ Single children index none)
  | .option, .failure _ => False
  | .alternation, .success n => Single children index (some n)
  | .alternation, .failure reason => reason = .alternationNoMatch ∧
      ∀ child ∈ children, child.index = index ∧ child.length? = none
  | .concatenation, .success n => Tiles index children n
  | .concatenation, .failure reason =>
    reason = .concatenationInvalidSequence ∧ FailedFrom children index
  | .repetition, .success n =>
    Tiles index children n ∧ ∀ child ∈ children.dropLast, child.length? ≠ some 0
  | .repetition, .failure reason =>
    (reason = .repetitionBelowMinimum ∧ (children = [] ∨ FailedFrom children index)) ∨
      (reason = .repetitionNoProgress ∧ children = [])
  | .reference, .success n => Single children index (some n)
  | .reference, .failure reason =>
    (reason = .referenceEvaluationFailed ∧ Single children index none) ∨
      ((reason = .referenceNotFound ∨ reason = .referenceCyclicRecursion) ∧ children = [])

/-- The node obeys the law of its kind. -/
def Lawful (node : Node) : Prop := Law node.index node.children node.kind node.outcome

end Node

namespace Matcher

open Node

/-- The node that the matcher returns stands where the matcher was tried. -/
def Stays (m : Matcher) : Prop := ∀ c, (m c).index = c.index

variable {m : Matcher} {operands : List Matcher}

theorem firstMatch_places (h : ∀ m ∈ operands, m.Stays) (c : Cursor) :
    (∀ node ∈ (firstMatch c operands).1, node.index = c.index ∧ node.length? = none) ∧
      ∀ n node, (firstMatch c operands).2 = some (n, node) →
        node.index = c.index ∧ node.length? = some n := by
  induction operands with
  | nil => exact ⟨List.forall_mem_nil _, nofun⟩
  | cons m rest ih =>
    rw [List.forall_mem_cons] at h
    obtain ⟨hattempts, hfound⟩ := ih h.2
    cases hm : (m c).length? with
    | some n =>
      simp only [firstMatch, hm]
      refine ⟨List.forall_mem_nil _, fun k node heq => ?_⟩
      cases heq
      exact ⟨h.1 c, hm⟩
    | none =>
      simp only [firstMatch, hm]
      exact ⟨List.forall_mem_cons.mpr ⟨⟨h.1 c, hm⟩, hattempts⟩, hfound⟩

theorem lawful_alternation (h : ∀ m ∈ operands, m.Stays) (c : Cursor) :
    (alternation operands c).Lawful := by
  obtain ⟨hattempts, hfound⟩ := firstMatch_places h c
  unfold alternation
  split
  · rename_i attempts n node heq
    have hnode := hfound n node (by rw [heq])
    exact ⟨node, rfl, hnode.1, hnode.2⟩
  · rename_i attempts heq
    rw [heq] at hattempts
    exact ⟨rfl, hattempts⟩

theorem inSequence_tiles (h : ∀ m ∈ operands, m.Stays) (c : Cursor) {offset total : Nat}
    {nodes : List Node} (hrun : inSequence c operands offset = .ok (nodes, total)) :
    Tiles (c.index + offset) nodes total := by
  induction operands generalizing offset total nodes with
  | nil =>
    cases hrun
    exact .nil
  | cons m rest ih =>
    rw [List.forall_mem_cons] at h
    simp only [inSequence] at hrun
    split at hrun
    · cases hrun
    · rename_i n hn
      split at hrun
      · rename_i nodes' total' hrest
        cases hrun
        have hnext := ih h.2 hrest
        rw [← Nat.add_assoc] at hnext
        exact .cons (h.1 _) hn hnext
      · cases hrun

theorem inSequence_failed (h : ∀ m ∈ operands, m.Stays) (c : Cursor) {offset : Nat}
    {failed : Node} (hrun : inSequence c operands offset = .error failed) :
    c.index + offset ≤ failed.index ∧ failed.length? = none := by
  induction operands generalizing offset with
  | nil => cases hrun
  | cons m rest ih =>
    rw [List.forall_mem_cons] at h
    simp only [inSequence] at hrun
    split at hrun
    · rename_i hn
      cases hrun
      exact ⟨(h.1 (c.moveTo (c.index + offset))).ge, hn⟩
    · rename_i n hn
      split at hrun
      · cases hrun
      · rename_i other hrest
        cases hrun
        obtain ⟨hle, hnone⟩ := ih h.2 hrest
        exact ⟨by omega, hnone⟩

theorem lawful_concatenation (h : ∀ m ∈ operands, m.Stays) (c : Cursor) :
    (concatenation operands c).Lawful := by
  unfold concatenation
  split
  · rename_i nodes total hrun
    exact inSequence_tiles h c hrun
  · rename_i failed hrun
    obtain ⟨hle, hnone⟩ := inSequence_failed h c hrun
    exact ⟨rfl, failed, rfl, hle, hnone⟩

/-- What ended an iteration stands where the matches before it end. -/
def Halt.Lawful (stop : Nat) : Halt → Prop
  | atMaximum => True
  | failed attempt => attempt.index = stop ∧ attempt.length? = none
  | idle attempt => attempt.index = stop ∧ attempt.length? = some 0

theorem iterate_tiles (h : m.Stays) (c : Cursor) (count : Nat) (allowed : Option Nat)
    (offset : Nat) :
    let iteration := iterate m c count allowed offset
    Tiles (c.index + offset) iteration.matched iteration.length ∧
      (∀ node ∈ iteration.matched, node.length? ≠ some 0) ∧
      iteration.halt.Lawful (c.index + offset + iteration.length) := by
  fun_induction iterate m c count allowed offset with
  | case1 => exact ⟨.nil, List.forall_mem_nil _, trivial⟩
  | case2 => exact ⟨.nil, List.forall_mem_nil _, trivial⟩
  | case3 count allowed offset hallowed node hn =>
    exact ⟨.nil, List.forall_mem_nil _, h _, hn⟩
  | case4 count allowed offset hallowed node hn =>
    exact ⟨.nil, List.forall_mem_nil _, h _, hn⟩
  | case5 count allowed offset hallowed node n hn ih =>
    obtain ⟨htiles, hpositive, hhalt⟩ := ih
    rw [← Nat.add_assoc] at htiles
    have hsome : node.length? ≠ some 0 := by
      rw [hn]
      simp
    simp only [Iteration.push]
    refine ⟨.cons (h _) hn htiles, List.forall_mem_cons.mpr ⟨hsome, hpositive⟩, ?_⟩
    simpa only [Nat.add_assoc] using hhalt

theorem lawful_settle {c : Cursor} {min : Nat} {iteration : Iteration}
    (htiles : Tiles c.index iteration.matched iteration.length)
    (hpositive : ∀ node ∈ iteration.matched, node.length? ≠ some 0)
    (hhalt : iteration.halt.Lawful (c.index + iteration.length)) :
    (settle min c iteration).Lawful := by
  have hmatched : ∀ child ∈ iteration.matched.dropLast, child.length? ≠ some 0 :=
    fun child hchild => hpositive child (List.mem_of_mem_dropLast hchild)
  unfold settle
  cases hend : iteration.halt with
  | atMaximum =>
    dsimp only
    split
    · exact ⟨htiles, hmatched⟩
    · exact .inl ⟨rfl, .inl rfl⟩
  | failed attempt =>
    rw [hend] at hhalt
    dsimp only
    split
    · exact ⟨htiles, hmatched⟩
    · have hafter : c.index ≤ attempt.index := by
        rw [hhalt.1]
        exact Nat.le_add_right _ _
      exact .inl ⟨rfl, .inr ⟨attempt, rfl, hafter, hhalt.2⟩⟩
  | idle attempt =>
    rw [hend] at hhalt
    dsimp only
    split
    · have hall : Tiles c.index (iteration.matched ++ [attempt]) iteration.length :=
        htiles.snoc hhalt.1 hhalt.2
      -- the attempt that took nothing is the last child
      have hlast : (iteration.matched ++ [attempt]).dropLast = iteration.matched :=
        List.dropLast_concat
      exact ⟨hall, fun child hchild => hpositive child (hlast ▸ hchild)⟩
    · exact .inr ⟨rfl, rfl⟩

theorem lawful_repetition (h : m.Stays) (bounds : Bounds) (c : Cursor) :
    (repetition bounds m c).Lawful := by
  obtain ⟨htiles, hpositive, hhalt⟩ :=
    iterate_tiles h c (c.remaining.length + 1) bounds.max 0
  exact lawful_settle htiles hpositive hhalt

theorem lawful_group (h : m.Stays) (c : Cursor) : (group m c).Lawful := by
  simp only [group]
  split
  · rename_i n hn
    exact ⟨m c, rfl, h c, hn⟩
  · rename_i hn
    exact ⟨rfl, m c, rfl, h c, hn⟩

theorem lawful_option (h : m.Stays) (c : Cursor) : (option m c).Lawful := by
  cases hn : (m c).length? with
  | some n =>
    rw [option, hn]
    exact .inl ⟨m c, rfl, h c, hn⟩
  | none =>
    rw [option, hn]
    exact .inr ⟨rfl, m c, rfl, h c, hn⟩

theorem lawful_literal (value : Literal) (c : Cursor) : (literal value c).Lawful := by
  unfold literal
  split
  · exact rfl
  · exact ⟨rfl, rfl⟩

theorem lawful_reference {enter : Expression → Matcher} (h : ∀ e, (enter e).Stays) (name : Text)
    (c : Cursor) : (reference enter name c).Lawful := by
  cases hrule : c.context.rule? name with
  | none =>
    rw [reference_of_missing hrule]
    exact .inr ⟨.inl rfl, rfl⟩
  | some rule =>
    cases hactive : c.isActive rule.name with
    | true =>
      rw [reference_of_active hrule hactive]
      exact .inr ⟨.inr rfl, rfl⟩
    | false =>
      rw [reference_of_idle hrule hactive]
      unfold Node.entered
      split
      · rename_i n hn
        exact ⟨_, rfl, h rule.body _, hn⟩
      · rename_i hn
        exact .inl ⟨rfl, _, rfl, h rule.body _, hn⟩

end Matcher

/-- A node of the tree of an attempt is that of an attempt to which the first one leads. -/
theorem Attempt.exists_of_mem_preorder {x : Attempt} {m : Node} (h : m ∈ x.node.preorder) :
    ∃ above y, Lineage Makes x above y ∧ y.node = m := by
  obtain ⟨nodes, walk⟩ := Node.lineage_of_mem_preorder h .root
  obtain ⟨above, y, hwalk, -, hy⟩ := Lineage.attempts x walk
  exact ⟨above, y, hwalk, hy⟩

namespace Expression

theorem evaluate_stays (e : Expression) : Matcher.Stays e.evaluate := by
  intro c
  rcases Attempt.node_cases ⟨e, c⟩ with ⟨-, hcursor⟩ | ⟨name, rule, -, -, -, hnode⟩
  · exact congrArg Cursor.index hcursor
  · have hcursor : (e.evaluate c).cursor = c.label rule.name :=
      (congrArg Node.cursor hnode).trans (Node.cursor_entered _ _)
    rw [Node.index, hcursor, Cursor.label_index]

theorem lawful_evaluate (e : Expression) (c : Cursor) : (e.evaluate c).Lawful := by
  have hstays : ∀ operands : List Expression, ∀ m ∈ operands.map evaluate, Matcher.Stays m := by
    intro operands m hm
    obtain ⟨operand, -, rfl⟩ := List.mem_map.mp hm
    exact evaluate_stays operand
  cases e with
  | alternation operands =>
    rw [evaluate_alternation]
    exact Matcher.lawful_alternation (hstays operands) c
  | concatenation operands =>
    rw [evaluate_concatenation]
    exact Matcher.lawful_concatenation (hstays operands) c
  | repetition bounds operand =>
    rw [evaluate_repetition]
    exact Matcher.lawful_repetition (evaluate_stays operand) bounds c
  | group inner =>
    rw [evaluate_group]
    exact Matcher.lawful_group (evaluate_stays inner) c
  | option inner =>
    rw [evaluate_option]
    exact Matcher.lawful_option (evaluate_stays inner) c
  | literal value =>
    rw [evaluate_literal]
    exact Matcher.lawful_literal value c
  | reference name =>
    rw [evaluate_reference]
    exact Matcher.lawful_reference evaluate_stays name c
  | prose text => exact ⟨rfl, rfl⟩

/-- Every node of every tree obeys the law of its kind, whatever the rules, the expression and the
cursor are, and whether or not the nodes above it matched. -/
theorem evaluate_preorder_lawful (e : Expression) (c : Cursor) :
    ∀ node ∈ (e.evaluate c).preorder, node.Lawful := by
  intro node hnode
  obtain ⟨above, x, -, rfl⟩ := Attempt.exists_of_mem_preorder (x := ⟨e, c⟩) hnode
  exact lawful_evaluate x.expression x.cursor

/-- Below a failed group, a choice without a match keeps both of its attempts. -/
theorem evaluate_preorder_lawful_failed :
    let choice := alternation [literal (.sensitive ['b']), literal (.sensitive ['c'])]
    let c := Cursor.new ⟨['a', 'a', 'x'], .empty⟩ 2 0 .empty
    let root := (group choice).evaluate c
    let node := choice.evaluate c
    root.length? = none ∧ node ∈ root.preorder ∧ node.children.length = 2 ∧ node.Lawful := by
  intro choice c root node
  have hroot : root = .failure c .group .groupExpressionFailed [node] := by
    rw [show root = Matcher.group choice.evaluate c from congrFun (evaluate_group choice) c]
    rfl
  have hnode : node ∈ root.preorder := by
    rw [hroot]
    exact Node.mem_preorder_iff.mpr
      (.inr ⟨node, List.mem_singleton_self node, Node.mem_preorder_iff.mpr (.inl rfl)⟩)
  exact ⟨by rw [hroot]; rfl, hnode, by decide,
    evaluate_preorder_lawful (group choice) c node hnode⟩

end Expression

end AugmentedBnf
