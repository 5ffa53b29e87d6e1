import AugmentedBnf.Proofs.Evaluation.Attempt

/-! # What the active names record

In an evaluation that starts without active names, the active names of a cursor are exactly the
entries into rules that enclose it: none is lost when the cursor moves on, and none is left over
from a neighbour. So a reference fails for a cycle precisely when an enclosing reference entered
the same rule at the same offset, and rules nest no deeper than there are rules and offsets.
-/
namespace AugmentedBnf

/-- A walk from a root: each element stands in the relation to the next one. The elements before
the last are listed from the last one back to the root. -/
inductive Lineage {α : Type} (R : α → α → Prop) (root : α) : List α → α → Prop where
  | root : Lineage R root [] root
  | next {above : List α} {x y : α} (walk : Lineage R root above x) (step : R x y) :
      Lineage R root (x :: above) y

namespace Node

def HasChild (node child : Node) : Prop := child ∈ node.children

/-- Whether the node is a reference that entered its rule. -/
def isEntered (node : Node) : Bool :=
  node.kind == .reference && (node.isSuccess || node.reason? == some .referenceEvaluationFailed)

/-- The name that a node has at the end of its path, with its offset. -/
def entry (node : Node) : Option Text × Nat := (node.path.tail?, node.index)

@[simp] theorem isEntered_entered (inside : Cursor) (body : Node) :
    (entered inside body).isEntered = true := by
  unfold entered
  split <;> rfl

@[simp] theorem cursor_entered (inside : Cursor) (body : Node) :
    (entered inside body).cursor = inside := by
  unfold entered
  split <;> rfl

theorem entry_entered (c : Cursor) (name : Text) (body : Node) :
    (entered (c.label name) body).entry = (some name, c.index) := by
  rw [entry, path, index, cursor_entered]
  rfl

theorem lineage_of_mem_preorder {root node m : Node} (hm : m ∈ node.preorder)
    {above : List Node} (walk : Lineage HasChild root above node) :
    ∃ above', Lineage HasChild root above' m := by
  induction node using Node.induction generalizing above with
  | node cursor kind outcome children ih =>
    rcases mem_preorder_iff.mp hm with rfl | ⟨child, hchild, hm⟩
    · exact ⟨above, walk⟩
    · exact ih child hchild hm (.next walk hchild)

end Node

namespace Attempt

/-- An attempt either stays outside of rules or is a reference that enters one. -/
theorem node_cases (x : Attempt) :
    (x.node.isEntered = false ∧ x.node.cursor = x.cursor) ∨
      ∃ name rule, x.expression = .reference name ∧ x.cursor.context.rule? name = some rule ∧
        x.cursor.isActive rule.name = false ∧
        x.node = .entered (x.cursor.label rule.name)
          (rule.body.evaluate (x.cursor.label rule.name)) := by
  obtain ⟨e, c⟩ := x
  unfold node
  dsimp only
  cases e with
  | alternation operands =>
    rw [Expression.evaluate_alternation]
    unfold Matcher.alternation
    split <;> exact .inl ⟨rfl, rfl⟩
  | concatenation operands =>
    rw [Expression.evaluate_concatenation]
    unfold Matcher.concatenation
    split <;> exact .inl ⟨rfl, rfl⟩
  | repetition bounds operand =>
    rw [Expression.evaluate_repetition]
    simp only [Matcher.repetition, Matcher.settle]
    split <;> split <;> exact .inl ⟨rfl, rfl⟩
  | group inner =>
    rw [Expression.evaluate_group]
    simp only [Matcher.group]
    split <;> exact .inl ⟨rfl, rfl⟩
  | option inner =>
    rw [Expression.evaluate_option]
    exact .inl ⟨rfl, rfl⟩
  | literal value =>
    rw [Expression.evaluate_literal]
    unfold Matcher.literal
    split <;> exact .inl ⟨rfl, rfl⟩
  | prose text =>
    rw [Expression.evaluate_prose]
    exact .inl ⟨rfl, rfl⟩
  | reference name =>
    rw [Expression.evaluate_reference]
    cases hrule : c.context.rule? name with
    | none =>
      rw [Matcher.reference_of_missing hrule]
      exact .inl ⟨rfl, rfl⟩
    | some rule =>
      cases hactive : c.isActive rule.name with
      | true =>
        rw [Matcher.reference_of_active hrule hactive]
        exact .inl ⟨rfl, rfl⟩
      | false =>
        rw [Matcher.reference_of_idle hrule hactive]
        exact .inr ⟨name, rule, rfl, hrule, hactive, rfl⟩

/-- What one attempt does to the cursor of the next: it moves it past matched input, or it enters
a rule. -/
theorem Makes.cursor_cases {x y : Attempt} (h : x.Makes y) :
    (x.node.isEntered = false ∧
      ∃ n, x.cursor.Covers n ∧ y.cursor = x.cursor.moveTo (x.cursor.index + n)) ∨
    ∃ name rule, x.cursor.context.rule? name = some rule ∧
      x.cursor.isActive rule.name = false ∧ x.node.isEntered = true ∧
      x.node.entry = (some rule.name, x.cursor.index) ∧ y.cursor = x.cursor.label rule.name := by
  have houtside : ∀ x : Attempt, (∀ name, x.expression ≠ .reference name) →
      x.node.isEntered = false := by
    intro x hx
    rcases x.node_cases with hnode | ⟨name, rule, hname, -⟩
    · exact hnode.1
    · exact absurd hname (hx name)
  cases h with
  | choice missed => exact .inl ⟨houtside _ nofun, 0, Cursor.Covers.zero _, rfl⟩
  | operand row => exact .inl ⟨houtside _ nofun, _, row.covers, rfl⟩
  | round rounds more => exact .inl ⟨houtside _ nofun, _, rounds.covers, rfl⟩
  | group => exact .inl ⟨houtside _ nofun, 0, Cursor.Covers.zero _, rfl⟩
  | option => exact .inl ⟨houtside _ nofun, 0, Cursor.Covers.zero _, rfl⟩
  | @body name rule c found idle =>
    have hnode : (⟨.reference name, c⟩ : Attempt).node = .entered (c.label rule.name)
        (rule.body.evaluate (c.label rule.name)) := by
      rw [node, Expression.evaluate_reference, Matcher.reference_of_idle found idle]
    refine .inr ⟨name, rule, found, idle, ?_, ?_, rfl⟩
    · rw [hnode, Node.isEntered_entered]
    · rw [hnode, Node.entry_entered]

/-- The entries into rules among some attempts. -/
def entries (attempts : List Attempt) : List (Option Text × Nat) :=
  ((attempts.map node).filter Node.isEntered).map Node.entry

theorem entries_cons_of_outside {x : Attempt} (h : x.node.isEntered = false)
    (above : List Attempt) : entries (x :: above) = entries above := by
  have hout : ¬x.node.isEntered = true := by rw [h]; exact Bool.false_ne_true
  rw [entries, List.map_cons, List.filter_cons_of_neg hout, entries]

theorem entries_cons_of_entered {x : Attempt} (h : x.node.isEntered = true)
    (above : List Attempt) : entries (x :: above) = x.node.entry :: entries above := by
  rw [entries, List.map_cons, List.filter_cons_of_pos h, List.map_cons, entries]

end Attempt

/-- The entries that a cursor may still see: a rule of the table, at an offset ahead. -/
def Cursor.entriesAhead (c : Cursor) : Finset (Option Text × Nat) :=
  (c.offsets ×ˢ c.context.rules.names).image fun entry => (some entry.2, entry.1)

theorem Cursor.mem_entriesAhead {c : Cursor} {name : Text} {i : Nat} (hindex : i ∈ c.offsets)
    (hname : name ∈ c.context.rules.names) : (some name, i) ∈ c.entriesAhead := by
  rw [entriesAhead, Finset.mem_image]
  exact ⟨(i, name), Finset.mk_mem_product hindex hname, rfl⟩

theorem Cursor.card_entriesAhead_le (c : Cursor) :
    c.entriesAhead.card ≤ c.context.rules.size * (c.remaining.length + 1) :=
  Finset.card_image_le.trans c.card_entries_le

/-- What holds of a cursor below the given attempts, when the first of them started at `root`: its
active names are their entries, no two of them alike, and all within reach from the root. -/
structure Tracked (root : Cursor) (above : List Attempt) (c : Cursor) : Prop where
  context : c.context = root.context
  reached : ∃ n, root.Covers n ∧ c.index = root.index + n
  active : ∀ i name, (i, name) ∈ c.active ↔ (some name, i) ∈ Attempt.entries above
  nodup : (Attempt.entries above).Nodup
  depth : c.depth = (Attempt.entries above).length
  within : ∀ entry ∈ Attempt.entries above, entry ∈ root.entriesAhead

namespace Tracked

variable {root c : Cursor} {above : List Attempt}

theorem start (hactive : root.active = .empty) (hdepth : root.depth = 0) : Tracked root [] root where
  context := rfl
  reached := ⟨0, Cursor.Covers.zero root, rfl⟩
  active := by
    intro i name
    rw [hactive]
    exact iff_of_false ActiveNames.not_mem_empty List.not_mem_nil
  nodup := List.nodup_nil
  depth := hdepth
  within := List.forall_mem_nil _

theorem moveTo (h : Tracked root above c) {n : Nat} (hcovers : c.Covers n) :
    Tracked root above (c.moveTo (c.index + n)) where
  context := h.context
  reached := (Cursor.Reaches.moveTo ⟨h.context, h.reached⟩ hcovers).covered
  active := h.active
  nodup := h.nodup
  depth := h.depth
  within := h.within

/-- Entering a rule at a tracked cursor adds its entry, which was not there. -/
theorem label (h : Tracked root above c) {name : Text} {rule : Rule} {x : Attempt}
    (hrule : c.context.rule? name = some rule) (hidle : c.isActive rule.name = false)
    (hentered : x.node.isEntered = true) (hentry : x.node.entry = (some rule.name, c.index)) :
    Tracked root (x :: above) (c.label rule.name) where
  context := h.context
  reached := h.reached
  active := by
    intro i other
    rw [Cursor.mem_active_label, Attempt.entries_cons_of_entered hentered, hentry, List.mem_cons,
      h.active, Prod.mk.injEq, Prod.mk.injEq, Option.some.injEq, and_comm (a := i = _)]
  nodup := by
    rw [Attempt.entries_cons_of_entered hentered, hentry]
    refine List.nodup_cons.mpr ⟨fun hmem => ?_, h.nodup⟩
    rw [Cursor.isActive_iff.mpr ((h.active c.index rule.name).mpr hmem)] at hidle
    cases hidle
  depth := by
    rw [Attempt.entries_cons_of_entered hentered, Cursor.label_depth, h.depth, List.length_cons]
  within := by
    rw [Attempt.entries_cons_of_entered hentered, hentry]
    refine List.forall_mem_cons.mpr ⟨?_, h.within⟩
    rw [h.context] at hrule
    exact Cursor.mem_entriesAhead (Cursor.mem_offsets.mpr h.reached) (RuleTable.name_mem_names hrule)

/-- An attempt that enters no rule adds no entry. -/
theorem outside (h : Tracked root above c) {x : Attempt} (hout : x.node.isEntered = false) :
    Tracked root (x :: above) c where
  context := h.context
  reached := h.reached
  active := by rw [Attempt.entries_cons_of_outside hout]; exact h.active
  nodup := by rw [Attempt.entries_cons_of_outside hout]; exact h.nodup
  depth := by rw [Attempt.entries_cons_of_outside hout]; exact h.depth
  within := by rw [Attempt.entries_cons_of_outside hout]; exact h.within

theorem step {x y : Attempt} (h : Tracked root above x.cursor) (hstep : x.Makes y) :
    Tracked root (x :: above) y.cursor := by
  obtain ⟨hout, n, hcovers, hy⟩ | ⟨name, rule, hrule, hidle, hin, hentry, hy⟩ :=
    hstep.cursor_cases
  · rw [hy]
    exact (h.moveTo hcovers).outside hout
  · rw [hy]
    exact h.label hrule hidle hin hentry

theorem of_lineage {x y : Attempt} (hactive : x.cursor.active = .empty) (hdepth : x.cursor.depth = 0)
    (walk : Lineage Attempt.Makes x above y) : Tracked x.cursor above y.cursor := by
  induction walk with
  | root => exact start hactive hdepth
  | next walk hstep ih => exact ih.step hstep

theorem depth_le (h : Tracked root above c) :
    c.depth ≤ root.context.rules.size * (root.remaining.length + 1) := by
  calc c.depth = (Attempt.entries above).toFinset.card := by
        rw [h.depth, List.toFinset_card_of_nodup h.nodup]
    _ ≤ root.entriesAhead.card :=
        Finset.card_le_card fun entry hentry => h.within entry (List.mem_toFinset.mp hentry)
    _ ≤ _ := root.card_entriesAhead_le

/-- With the node of a tracked attempt added, the entries are still pairwise different, and its
depth is bounded as well. -/
theorem node {x : Attempt} (h : Tracked root above x.cursor) :
    (Attempt.entries (x :: above)).Nodup ∧
      x.node.cursor.depth ≤ root.context.rules.size * (root.remaining.length + 1) := by
  rcases x.node_cases with ⟨hout, hcursor⟩ | ⟨name, rule, -, hrule, hidle, hnode⟩
  · rw [Attempt.entries_cons_of_outside hout, hcursor]
    exact ⟨h.nodup, h.depth_le⟩
  · have hin : Tracked root (x :: above) (x.cursor.label rule.name) :=
      h.label hrule hidle (by rw [hnode, Node.isEntered_entered])
        (by rw [hnode, Node.entry_entered])
    rw [hnode, Node.cursor_entered]
    exact ⟨hin.nodup, hin.depth_le⟩

end Tracked

/-- The nodes from the root of a tree down are those of attempts, each making the next. -/
theorem Lineage.attempts (start : Attempt) {nodes : List Node} {m : Node}
    (walk : Lineage Node.HasChild start.node nodes m) :
    ∃ above x, Lineage Attempt.Makes start above x ∧ above.map Attempt.node = nodes ∧
      x.node = m := by
  induction walk with
  | root => exact ⟨[], start, .root, rfl, rfl⟩
  | next walk hchild ih =>
    obtain ⟨above, x, hwalk, rfl, rfl⟩ := ih
    obtain ⟨y, hmakes, hy⟩ := Attempt.keeps_of_mem_children hchild
    exact ⟨x :: above, y, .next hwalk hmakes, rfl, hy⟩

theorem reason?_reference_iff {name : Text} {rule : Rule} {c : Cursor}
    (h : c.context.rule? name = some rule) :
    ((Expression.reference name).evaluate c).reason? = some .referenceCyclicRecursion ↔
      c.isActive rule.name = true := by
  rw [Expression.evaluate_reference]
  cases hactive : c.isActive rule.name with
  | true =>
    rw [Matcher.reference_of_active h hactive]
    exact ⟨fun _ => rfl, fun _ => rfl⟩
  | false =>
    rw [Matcher.reference_of_idle h hactive, Node.entered]
    split <;> simp

namespace Rule

def attempt (rule : Rule) (rules : RuleTable) (input : Text) : Attempt :=
  ⟨rule.body, .start rule.name ⟨input, rules⟩⟩

theorem tracked_of_lineage {rule : Rule} {rules : RuleTable} {input : Text}
    {above : List Attempt} {x : Attempt}
    (walk : Lineage Attempt.Makes (rule.attempt rules input) above x) :
    Tracked (.start rule.name ⟨input, rules⟩) above x.cursor :=
  Tracked.of_lineage rfl rfl walk

/-- The bookkeeping of active names is exact. The chains of nodes in the tree of a rule are chains
of attempts; along each, the entries into rules are pairwise different; a reference to a defined
rule fails for a cycle if and only if an enclosing attempt entered that rule at the same offset;
and so no node is deeper than the rules times the offsets. -/
theorem evaluateIn_active_names (rule : Rule) (rules : RuleTable) (input : Text) :
    (∀ nodes node, Lineage Node.HasChild (rule.evaluateIn rules input) nodes node →
      ∃ above x, Lineage Attempt.Makes (rule.attempt rules input) above x ∧
        above.map Attempt.node = nodes ∧ x.node = node) ∧
    (∀ nodes node, Lineage Node.HasChild (rule.evaluateIn rules input) nodes node →
      (((node :: nodes).filter Node.isEntered).map Node.entry).Nodup) ∧
    (∀ above key c target,
      Lineage Attempt.Makes (rule.attempt rules input) above ⟨.reference key, c⟩ →
      rules.find? key = some target →
      (((Expression.reference key).evaluate c).reason? = some .referenceCyclicRecursion ↔
        ∃ x ∈ above, x.node.isEntered = true ∧ x.node.path.tail? = some target.name ∧
          x.node.index = c.index)) ∧
    ∀ node ∈ (rule.evaluateIn rules input).preorder,
      node.cursor.depth ≤ rules.size * (input.length + 1) := by
  refine ⟨fun nodes node => Lineage.attempts (rule.attempt rules input), ?_, ?_, ?_⟩
  · intro nodes node walk
    obtain ⟨above, x, hwalk, rfl, rfl⟩ := Lineage.attempts (rule.attempt rules input) walk
    exact (tracked_of_lineage hwalk).node.1
  · intro above key c target hwalk htarget
    have htracked := tracked_of_lineage hwalk
    have hfound : c.context.rule? key = some target := by
      rw [htracked.context]
      exact htarget
    rw [reason?_reference_iff hfound, Cursor.isActive_iff, htracked.active]
    simp only [Attempt.entries, List.mem_map, List.mem_filter, Node.entry, Prod.mk.injEq]
    constructor
    · rintro ⟨node, ⟨⟨x, hx, rfl⟩, hentered⟩, htail, hindex⟩
      exact ⟨x, hx, hentered, htail, hindex⟩
    · rintro ⟨x, hx, hentered, htail, hindex⟩
      exact ⟨x.node, ⟨⟨x, hx, rfl⟩, hentered⟩, htail, hindex⟩
  · intro node hnode
    obtain ⟨nodes, walk⟩ := Node.lineage_of_mem_preorder hnode .root
    obtain ⟨above, x, hwalk, rfl, rfl⟩ := Lineage.attempts (rule.attempt rules input) walk
    have hremaining : (Cursor.start rule.name ⟨input, rules⟩).remaining = input := by
      cases input <;> rfl
    have hdepth := (tracked_of_lineage hwalk).node.2
    rwa [hremaining] at hdepth

/-- A rule that is nothing but itself: the reference inside the entered rule fails for a cycle. -/
theorem evaluateIn_active_names_loop :
    let rule : Rule := ⟨['A'], .reference ['A']⟩
    let rules : RuleTable := ⟨[(['A'], rule)]⟩
    let outer := rule.attempt rules ['a']
    let c := outer.cursor.label ['A']
    Lineage Attempt.Makes outer [outer] ⟨.reference ['A'], c⟩ ∧
      ((Expression.reference ['A']).evaluate c).reason? = some .referenceCyclicRecursion ∧
      ∃ x ∈ [outer], x.node.isEntered = true ∧ x.node.path.tail? = some ['A'] ∧
        x.node.index = c.index := by
  intro rule rules outer c
  have hfound : outer.cursor.context.rule? ['A'] = some rule := rfl
  have hwalk : Lineage Attempt.Makes outer [outer] ⟨.reference ['A'], c⟩ :=
    .next .root (.body hfound rfl)
  have hreason : ((Expression.reference ['A']).evaluate c).reason? =
      some .referenceCyclicRecursion := by decide
  have hexact := (evaluateIn_active_names rule rules ['a']).2.2.1 [outer] ['A'] c rule hwalk rfl
  exact ⟨hwalk, hreason, hexact.mp hreason⟩

end Rule

end AugmentedBnf
