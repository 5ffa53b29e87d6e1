import AugmentedBnf.Proofs.Evaluation.Termination
import AugmentedBnf.Proofs.Evaluation.Tree
import AugmentedBnf.Proofs.Grammar.Table

/-! # Refusing active rules changes no finite run

A plain run enters every rule that a reference names. It cannot enter a rule at an offset at which
that rule is already being evaluated: the inner run would have as many steps as the outer one,
because the steps of a plain run depend on the expression and the place only. So a plain run, where
there is one, never meets a refusal, and evaluation returns its node.
-/
namespace AugmentedBnf

def plainly (_ : Cursor) (_ : Text) : Bool := false

/-- The plain semantics: some run that refuses no entry gives the expression this length at an
offset of the input, or none where it fails. -/
def Plain (context : Context) (e : Expression) (index : Nat) (length? : Option Nat) : Prop :=
  ∃ s node, Runs plainly s (.expression e) (.new context index 0 .empty) node ∧
    node.length? = length?

/-- Two cursors at one place of one evaluation, however they got there. -/
def Cursor.SamePlace (c d : Cursor) : Prop := c.context = d.context ∧ c.index = d.index

namespace Cursor.SamePlace

variable {c d : Cursor}

theorem moveTo (h : c.SamePlace d) (n : Nat) :
    (c.moveTo (c.index + n)).SamePlace (d.moveTo (d.index + n)) :=
  ⟨h.1, by rw [moveTo_index, moveTo_index, h.2]⟩

theorem label (h : c.SamePlace d) (name : Text) : (c.label name).SamePlace (d.label name) :=
  ⟨h.1, h.2⟩

theorem remaining_eq (h : c.SamePlace d) : c.remaining = d.remaining := by
  rw [remaining, remaining, h.1, h.2]

end Cursor.SamePlace

/-- Two tasks that go on in the same way: what they have gathered differs at most in its nodes. -/
inductive Task.Alike : Task → Task → Prop where
  | expression (e : Expression) : Alike (.expression e) (.expression e)
  | choices (operands : List Expression) (attempts attempts' : List Node) :
      Alike (.choices operands attempts) (.choices operands attempts')
  | sequel (operands : List Expression) (children children' : List Node) (length : Nat) :
      Alike (.sequel operands children length) (.sequel operands children' length)
  | rounds (bounds : Bounds) (operand : Expression) {accepted accepted' : List Node}
      (length : Nat) (same : accepted.length = accepted'.length) :
      Alike (.rounds bounds operand accepted length) (.rounds bounds operand accepted' length)

def Task.gathered : Task → List Node
  | expression _ => []
  | choices _ attempts => attempts
  | sequel _ children _ => children
  | rounds _ _ accepted _ => accepted

namespace Runs

/-- A plain run can be repeated at the same place, with as many steps and the same length. -/
theorem repeated {s : Nat} {task task' : Task} {c d : Cursor} {node : Node}
    (h : Runs plainly s task c node) (htask : task.Alike task') (hplace : c.SamePlace d) :
    ∃ node', Runs plainly s task' d node' ∧ node'.length? = node.length? := by
  induction h generalizing task' d with
  | alternation run ih =>
    cases htask
    obtain ⟨node', hrun, hlength⟩ := ih (.choices _ _ []) hplace
    exact ⟨node', .alternation hrun, hlength⟩
  | choices_end =>
    cases htask
    exact ⟨_, .choices_end, rfl⟩
  | choices_hit run hit ih =>
    cases htask
    obtain ⟨node', hrun, hlength⟩ := ih (.expression _) hplace
    exact ⟨_, .choices_hit hrun (hlength.trans hit), rfl⟩
  | choices_miss run miss next ih ihnext =>
    cases htask
    obtain ⟨node', hrun, hlength⟩ := ih (.expression _) hplace
    obtain ⟨result', hnext, hresult⟩ := ihnext (.choices _ _ _) hplace
    exact ⟨result', .choices_miss hrun (hlength.trans miss) hnext, hresult⟩
  | concatenation run ih =>
    cases htask
    obtain ⟨node', hrun, hlength⟩ := ih (.sequel _ _ [] 0) hplace
    exact ⟨node', .concatenation hrun, hlength⟩
  | sequel_end =>
    cases htask
    exact ⟨_, .sequel_end, rfl⟩
  | sequel_stop run miss ih =>
    cases htask
    obtain ⟨node', hrun, hlength⟩ := ih (.expression _) (hplace.moveTo _)
    exact ⟨_, .sequel_stop hrun (hlength.trans miss), rfl⟩
  | sequel_step run hit next ih ihnext =>
    cases htask
    obtain ⟨node', hrun, hlength⟩ := ih (.expression _) (hplace.moveTo _)
    obtain ⟨result', hnext, hresult⟩ := ihnext (.sequel _ _ _ _) hplace
    exact ⟨result', .sequel_step hrun (hlength.trans hit) hnext, hresult⟩
  | repetition run ih =>
    cases htask
    obtain ⟨node', hrun, hlength⟩ := ih (.rounds _ _ 0 rfl) hplace
    exact ⟨node', .repetition hrun, hlength⟩
  | rounds_full full =>
    cases htask with
    | rounds _ _ _ same =>
      rw [same] at full
      refine ⟨_, .rounds_full full, ?_⟩
      simp only [Matcher.length?_settle, same]
  | rounds_failed more run miss ih =>
    cases htask with
    | rounds _ _ _ same =>
      rw [same] at more
      obtain ⟨node', hrun, hlength⟩ := ih (.expression _) (hplace.moveTo _)
      refine ⟨_, .rounds_failed more hrun (hlength.trans miss), ?_⟩
      simp only [Matcher.length?_settle, same]
  | rounds_idle more run hit ih =>
    cases htask with
    | rounds _ _ _ same =>
      rw [same] at more
      obtain ⟨node', hrun, hlength⟩ := ih (.expression _) (hplace.moveTo _)
      refine ⟨_, .rounds_idle more hrun (hlength.trans hit), ?_⟩
      simp only [Matcher.length?_settle, same]
  | @rounds_step _ _ accepted _ _ _ _ _ node _ more run hit next ih ihnext =>
    cases htask with
    | @rounds _ _ _ accepted' _ same =>
      rw [same] at more
      obtain ⟨node', hrun, hlength⟩ := ih (.expression _) (hplace.moveTo _)
      have hgathered : (accepted ++ [node]).length = (accepted' ++ [node']).length := by
        simp only [List.length_append, same, List.length_singleton]
      obtain ⟨result', hnext, hresult⟩ := ihnext (.rounds _ _ _ hgathered) hplace
      exact ⟨result', .rounds_step more hrun (hlength.trans hit) hnext, hresult⟩
  | group run ih =>
    cases htask
    obtain ⟨node', hrun, hlength⟩ := ih (.expression _) hplace
    refine ⟨_, .group hrun, ?_⟩
    rw [Matcher.length?_group, Matcher.length?_group, hlength]
  | option run ih =>
    cases htask
    obtain ⟨node', hrun, hlength⟩ := ih (.expression _) hplace
    refine ⟨_, .option hrun, ?_⟩
    rw [Matcher.length?_option, Matcher.length?_option, hlength]
  | literal =>
    cases htask
    refine ⟨_, .literal, ?_⟩
    rw [Matcher.length?_literal, Matcher.length?_literal, hplace.remaining_eq]
  | prose =>
    cases htask
    exact ⟨_, .prose, rfl⟩
  | reference_missing missing =>
    cases htask
    rw [hplace.1] at missing
    exact ⟨_, .reference_missing missing, rfl⟩
  | reference_refused found refusal => cases refusal
  | reference found admitted run ih =>
    cases htask
    obtain ⟨node', hrun, hlength⟩ := ih (.expression _) (hplace.label _)
    rw [hplace.1] at found
    refine ⟨_, .reference found rfl hrun, ?_⟩
    rw [Node.length?_entered, Node.length?_entered, hlength]

/-- The steps and the length of a plain run depend on the expression and the place only. -/
theorem same_steps {s t : Nat} {e : Expression} {c d : Cursor} {node node' : Node}
    (h : Runs plainly s (.expression e) c node) (h' : Runs plainly t (.expression e) d node')
    (hplace : c.SamePlace d) : s = t ∧ node.length? = node'.length? := by
  obtain ⟨node'', hrun, hlength⟩ := h.repeated (.expression e) hplace
  obtain ⟨hsteps, rfl⟩ := hrun.deterministic h'
  exact ⟨hsteps, hlength.symm⟩

end Runs

/-- No reference below the node failed because its rule was active. -/
def Node.CycleFree (root : Node) : Prop :=
  root.Every fun node => node.reason? ≠ some .referenceCyclicRecursion

theorem Node.CycleFree.mk {c : Cursor} {kind : Expression.Kind} {outcome : Outcome}
    {children : List Node} (houtcome : outcome.reason? ≠ some .referenceCyclicRecursion)
    (hchildren : ∀ child ∈ children, child.CycleFree) :
    CycleFree ⟨c, kind, outcome, children⟩ :=
  Node.every_iff.mpr ⟨houtcome, hchildren⟩

namespace Runs

/-- A plain run fails no reference for a cycle: it returns a tree without such a node if it has
gathered none. -/
theorem cycleFree {s : Nat} {task : Task} {c : Cursor} {node : Node}
    (h : Runs plainly s task c node) (hgathered : ∀ m ∈ task.gathered, m.CycleFree) :
    node.CycleFree := by
  have hnone := List.forall_mem_nil Node.CycleFree
  induction h with
  | alternation run ih => exact ih hnone
  | choices_end => exact .mk (by decide) hgathered
  | choices_hit run hit ih => exact .mk nofun (List.forall_mem_singleton.mpr (ih hnone))
  | choices_miss run miss next ih ihnext => exact ihnext (List.forall_mem_append.mpr
    ⟨hgathered, List.forall_mem_singleton.mpr (ih hnone)⟩)
  | concatenation run ih => exact ih hnone
  | sequel_end => exact .mk nofun hgathered
  | sequel_stop run miss ih => exact .mk (by decide) (List.forall_mem_singleton.mpr (ih hnone))
  | sequel_step run hit next ih ihnext => exact ihnext (List.forall_mem_append.mpr
    ⟨hgathered, List.forall_mem_singleton.mpr (ih hnone)⟩)
  | repetition run ih => exact ih hnone
  | rounds_full full =>
    simp only [Matcher.settle]
    split
    · exact .mk nofun hgathered
    · exact .mk (by decide) hnone
  | rounds_failed more run miss ih =>
    simp only [Matcher.settle]
    split
    · exact .mk nofun hgathered
    · exact .mk (by decide) (List.forall_mem_singleton.mpr (ih hnone))
  | rounds_idle more run hit ih =>
    simp only [Matcher.settle]
    split
    · exact .mk nofun (List.forall_mem_append.mpr
    ⟨hgathered, List.forall_mem_singleton.mpr (ih hnone)⟩)
    · exact .mk (by decide) hnone
  | rounds_step more run hit next ih ihnext => exact ihnext (List.forall_mem_append.mpr
    ⟨hgathered, List.forall_mem_singleton.mpr (ih hnone)⟩)
  | group run ih =>
    simp only [Matcher.group]
    split
    · exact .mk nofun (List.forall_mem_singleton.mpr (ih hnone))
    · exact .mk (by decide) (List.forall_mem_singleton.mpr (ih hnone))
  | option run ih => exact .mk nofun (List.forall_mem_singleton.mpr (ih hnone))
  | literal =>
    simp only [Matcher.literal]
    split
    · exact .mk nofun hnone
    · exact .mk (by decide) hnone
  | prose => exact .mk (by decide) hnone
  | reference_missing missing => exact .mk (by decide) hnone
  | reference_refused found refusal => cases refusal
  | reference found admitted run ih =>
    simp only [Node.entered]
    split
    · exact .mk nofun (List.forall_mem_singleton.mpr (ih hnone))
    · exact .mk (by decide) (List.forall_mem_singleton.mpr (ih hnone))

end Runs

/-- Whatever rule is active at an offset, its plain runs there have `s` steps at least. -/
def Cursor.Outlasts (c : Cursor) (s : Nat) : Prop :=
  ∀ i key rule, (i, rule.name) ∈ c.active → c.context.rule? key = some rule →
    ∀ t d node, d.context = c.context → d.index = i →
      Runs plainly t (.expression rule.body) d node → s ≤ t

namespace Cursor.Outlasts

variable {c : Cursor} {s t : Nat}

theorem mono (h : c.Outlasts s) (hle : t ≤ s) : c.Outlasts t :=
  fun i key rule hactive hrule u d node hcontext hindex hrun =>
    hle.trans (h i key rule hactive hrule u d node hcontext hindex hrun)

theorem moveTo (h : c.Outlasts s) (i : Nat) : (c.moveTo i).Outlasts s := h

theorem fresh (h : c.active = .empty) (s : Nat) : c.Outlasts s := by
  intro i key rule hactive
  rw [h] at hactive
  cases ActiveNames.not_mem_empty hactive

/-- A rule that a shorter plain run enters at the cursor is not active there. -/
theorem idle (h : c.Outlasts s) {key : Text} {rule : Rule} (hrule : c.context.rule? key = some rule)
    {node : Node} (hrun : Runs plainly t (.expression rule.body) (c.label rule.name) node)
    (hlt : t < s) : c.isActive rule.name = false := by
  by_contra hactive
  rw [Bool.not_eq_false] at hactive
  have hle := h c.index key rule (isActive_iff.mp hactive) hrule t (c.label rule.name) node
    rfl rfl hrun
  omega

/-- Inside an entered rule its own run is the measure for the new active name. -/
theorem label (h : c.Outlasts s) (hrules : c.context.rules.Coherent) {key : Text} {rule : Rule}
    (hrule : c.context.rule? key = some rule) {node : Node}
    (hrun : Runs plainly t (.expression rule.body) (c.label rule.name) node) (hle : t ≤ s) :
    (c.label rule.name).Outlasts t := by
  intro i key' rule' hactive hrule' u d node' hcontext hindex hrun'
  rcases mem_active_label.mp hactive with heq | hactive
  · obtain ⟨rfl, hname⟩ := Prod.mk.inj heq
    rw [hrules key' key rule' rule hrule' hrule hname] at hrun'
    exact (hrun.same_steps hrun' ⟨hcontext.symm, hindex.symm⟩).1.le
  · exact hle.trans (h i key' rule' hactive hrule' u d node' hcontext hindex hrun')

end Cursor.Outlasts

namespace Runs

/-- A plain run that the active rules outlast never meets a refusal. -/
theorem guarded {s : Nat} {task : Task} {c : Cursor} {node : Node}
    (h : Runs plainly s task c node) (hrules : c.context.rules.Coherent) (hlasts : c.Outlasts s) :
    Runs Cursor.isActive s task c node := by
  induction h with
  | alternation run ih => exact .alternation (ih hrules (hlasts.mono (by omega)))
  | choices_end => exact .choices_end
  | choices_hit run hit ih => exact .choices_hit (ih hrules (hlasts.mono (by omega))) hit
  | choices_miss run miss next ih ihnext =>
    exact .choices_miss (ih hrules (hlasts.mono (by omega))) miss
      (ihnext hrules (hlasts.mono (by omega)))
  | concatenation run ih => exact .concatenation (ih hrules (hlasts.mono (by omega)))
  | sequel_end => exact .sequel_end
  | sequel_stop run miss ih =>
    exact .sequel_stop (ih hrules ((hlasts.mono (by omega)).moveTo _)) miss
  | sequel_step run hit next ih ihnext =>
    exact .sequel_step (ih hrules ((hlasts.mono (by omega)).moveTo _)) hit
      (ihnext hrules (hlasts.mono (by omega)))
  | repetition run ih => exact .repetition (ih hrules (hlasts.mono (by omega)))
  | rounds_full full => exact .rounds_full full
  | rounds_failed more run miss ih =>
    exact .rounds_failed more (ih hrules ((hlasts.mono (by omega)).moveTo _)) miss
  | rounds_idle more run hit ih =>
    exact .rounds_idle more (ih hrules ((hlasts.mono (by omega)).moveTo _)) hit
  | rounds_step more run hit next ih ihnext =>
    exact .rounds_step more (ih hrules ((hlasts.mono (by omega)).moveTo _)) hit
      (ihnext hrules (hlasts.mono (by omega)))
  | group run ih => exact .group (ih hrules (hlasts.mono (by omega)))
  | option run ih => exact .option (ih hrules (hlasts.mono (by omega)))
  | literal => exact .literal
  | prose => exact .prose
  | reference_missing missing => exact .reference_missing missing
  | reference_refused found refusal => cases refusal
  | reference found admitted run ih =>
    exact .reference found (hlasts.idle found run (by omega))
      (ih hrules (hlasts.label hrules found run (by omega)))

end Runs

theorem evaluate_of_plain_run {e : Expression} {c d : Cursor} {s : Nat} {node : Node}
    (hrules : c.context.rules.Coherent) (hfresh : c.active = .empty) (hplace : d.SamePlace c)
    (h : Runs plainly s (.expression e) d node) :
    (e.evaluate c).length? = node.length? ∧ (e.evaluate c).CycleFree := by
  obtain ⟨node', hrun, hlength⟩ := h.repeated (.expression e) hplace
  have hguarded := hrun.guarded hrules (.fresh hfresh s)
  rw [Expression.evaluate_eq_of_runs hguarded]
  exact ⟨hlength, hrun.cycleFree (List.forall_mem_nil _)⟩

/-- Where the plain semantics is defined, cycle detection cannot be seen: evaluation from a cursor
without active names has the plain outcome and meets no cycle. In particular a rule and a reference
to it have the same outcome at the start of an input, although only the reference marks the rule as
active. -/
theorem evaluate_of_plain (rules : RuleTable) (hrules : rules.Coherent) (input : Text) :
    (∀ (e : Expression) (c : Cursor) (length? : Option Nat), c.context = ⟨input, rules⟩ →
      c.active = .empty → Plain ⟨input, rules⟩ e c.index length? →
        (e.evaluate c).length? = length? ∧
          ∀ node ∈ (e.evaluate c).preorder, node.reason? ≠ some .referenceCyclicRecursion) ∧
    ∀ (name : Text) (rule : Rule) (depth : Nat) (path : Path) (length? : Option Nat),
      rules.find? name = some rule → Plain ⟨input, rules⟩ rule.body 0 length? →
        (rule.evaluateIn rules input).length? = length? ∧
          ((Expression.reference name).evaluate (.new ⟨input, rules⟩ 0 depth path)).length? =
            length? := by
  constructor
  · rintro e c length? hcontext hfresh ⟨s, node, hrun, rfl⟩
    have hplace : (Cursor.new ⟨input, rules⟩ c.index 0 .empty).SamePlace c :=
      ⟨hcontext.symm, rfl⟩
    exact evaluate_of_plain_run (by rwa [hcontext]) hfresh hplace hrun
  · rintro name rule depth path length? hfound ⟨s, node, hrun, rfl⟩
    have hstart : (Cursor.new ⟨input, rules⟩ 0 0 .empty).SamePlace
        (.start rule.name ⟨input, rules⟩) := ⟨rfl, rfl⟩
    have hinside : (Cursor.new ⟨input, rules⟩ 0 0 .empty).SamePlace
        ((Cursor.new ⟨input, rules⟩ 0 depth path).label rule.name) := ⟨rfl, rfl⟩
    refine ⟨(evaluate_of_plain_run hrules rfl hstart hrun).1, ?_⟩
    -- the run of the body is repeated inside the reference
    obtain ⟨node', hbody, hlength⟩ := hrun.repeated (.expression rule.body) hinside
    have hreference : Runs plainly (s + 1) (.expression (.reference name))
        (.new ⟨input, rules⟩ 0 depth path) _ := .reference hfound rfl hbody
    have houtcome := (evaluate_of_plain_run hrules rfl ⟨rfl, rfl⟩ hreference).1
    rw [houtcome, Node.length?_entered, hlength]

/-- Nested brackets: the plain run enters the rule again at a later offset and fails there. -/
theorem evaluate_of_plain_brackets :
    let opening := Expression.literal (.sensitive ['('])
    let closing := Expression.literal (.sensitive [')'])
    let rule : Rule :=
      ⟨['N'], .concatenation [opening, .option (.reference ['N']), closing]⟩
    let rules : RuleTable := ⟨[(['N'], rule)]⟩
    let c := (Cursor.new ⟨['(', ')'], rules⟩ 0 3 (.ofSegments [['K']]))
    rules.Coherent ∧ Plain ⟨['(', ')'], rules⟩ rule.body 0 (some 2) ∧
      (rule.body.evaluate c).length? = some 2 ∧
      (∀ node ∈ (rule.body.evaluate c).preorder,
        node.reason? ≠ some .referenceCyclicRecursion) ∧
      (rule.evaluateIn rules ['(', ')']).length? = some 2 ∧
      ((Expression.reference ['N']).evaluate c).length? = some 2 := by
  intro opening closing rule rules c
  have hkeyed : rules.Keyed := by
    intro key found h
    rw [RuleTable.find?, RuleTable.lookup_cons_eq] at h
    split at h
    · rename_i hkey
      cases h
      exact hkey.symm
    · cases h
  have hplain : Plain ⟨['(', ')'], rules⟩ rule.body 0 (some 2) := by
    let start := Cursor.new ⟨['(', ')'], rules⟩ 0 0 .empty
    have hfound : start.context.rule? ['N'] = some rule := rfl
    have hinner : Runs plainly _ (.expression (.reference ['N'])) (start.moveTo 1) _ :=
      .reference hfound rfl (.concatenation (.sequel_stop .literal rfl))
    exact ⟨_, _, .concatenation (.sequel_step (n := 1) .literal rfl
      (.sequel_step (n := 0) (.option hinner) rfl
        (.sequel_step (n := 1) .literal rfl .sequel_end))), rfl⟩
  have h := evaluate_of_plain rules hkeyed.coherent ['(', ')']
  have hbody := h.1 rule.body c (some 2) rfl rfl hplain
  have hreference := h.2 ['N'] rule 3 (.ofSegments [['K']]) (some 2) rfl hplain
  exact ⟨hkeyed.coherent, hplain, hbody.1, hbody.2, hreference.1, hreference.2⟩

/-- Where two rules bear one name, cycle detection shows. In the first table the rules under `A` and
`B` are both named `X`, and the one under `A` refers to `B`: a reference to `A` is refused the rule
under `B`, although the plain semantics enters it and the rule under `A` itself matches. In the second
table the rule that is evaluated is not the one that a reference to its name enters: the rule matches
nothing at all and succeeds, and the reference, which it holds in brackets, fails. -/
theorem evaluate_of_plain_two_bodies :
    let x := Expression.literal (.sensitive ['x'])
    let first : Rule := ⟨['X'], .reference ['B']⟩
    let rules : RuleTable := ⟨[(['A'], first), (['B'], ⟨['X'], x⟩)]⟩
    let c := Cursor.new ⟨['x'], rules⟩ 0 0 .empty
    let outside : Rule := ⟨['A'], .option (.reference ['A'])⟩
    let others : RuleTable := ⟨[(['A'], ⟨['A'], x⟩)]⟩
    let d := Cursor.new ⟨['y'], others⟩ 0 0 .empty
    (¬ rules.Coherent ∧
      Plain ⟨['x'], rules⟩ (.reference ['A']) 0 (some 1) ∧
      ((Expression.reference ['A']).evaluate c).length? = none ∧
      (∃ node ∈ ((Expression.reference ['A']).evaluate c).preorder,
        node.reason? = some .referenceCyclicRecursion) ∧
      Plain ⟨['x'], rules⟩ first.body 0 (some 1) ∧
      (first.evaluateIn rules ['x']).length? = some 1) ∧
    (Plain ⟨['y'], others⟩ outside.body 0 (some 0) ∧
      (outside.evaluateIn others ['y']).length? = some 0 ∧
      ((Expression.reference ['A']).evaluate d).length? = none) := by
  intro x first rules c outside others d
  have hA : c.context.rule? ['A'] = some first := rfl
  have hB : c.context.rule? ['B'] = some ⟨['X'], x⟩ := rfl
  have hother : d.context.rule? ['A'] = some ⟨['A'], x⟩ := rfl
  have hincoherent : ¬ rules.Coherent := fun h =>
    absurd (h ['A'] ['B'] first ⟨['X'], x⟩ hA hB rfl) nofun
  have hentered : Runs plainly 3 (.expression (.reference ['A'])) c _ :=
    .reference hA rfl (.reference hB rfl .literal)
  have hfirst : Runs plainly 2 (.expression first.body) c _ := .reference hB rfl .literal
  have houtside : Runs plainly 3 (.expression outside.body) d _ :=
    .option (.reference hother rfl .literal)
  exact ⟨⟨hincoherent, ⟨_, _, hentered, rfl⟩, by decide, by decide, ⟨_, _, hfirst, rfl⟩, by decide⟩,
    ⟨_, _, houtside, rfl⟩, by decide, by decide⟩

end AugmentedBnf
