import AugmentedBnf.Proofs.Evaluation.Lockstep
import AugmentedBnf.Proofs.Evaluation.Termination

/-! # Only reachable rules matter

An evaluation looks up the names that its expression refers to, then those that the rules found
under them refer to, and no others. So two tables that agree on a set of names which is closed under
these steps cannot be told apart by an expression that keeps to the set: it has the same tree over
both. What an extension does to other names leaves a rule as it was.
-/
namespace AugmentedBnf

namespace Expression

/-- The names that evaluating an expression over a table can come to look up. -/
inductive Reaches (rules : RuleTable) (e : Expression) : Text → Prop where
  | named {name : Text} (mention : Within (.reference name) e) : Reaches rules e name
  | through {key name : Text} {rule : Rule} (reached : Reaches rules e key)
      (found : rules.find? key = some rule) (mention : Within (.reference name) rule.body) :
      Reaches rules e name

/-- The expression refers to names of the set only. -/
def KeepsTo (names : Set Text) (e : Expression) : Prop :=
  ∀ name, Within (.reference name) e → name ∈ names

end Expression

/-- Two tables have the same rules under the names of a set, and these rules keep to the set. -/
structure RuleTable.AgreeOn (names : Set Text) (rules rules' : RuleTable) : Prop where
  same : ∀ name ∈ names, rules.find? name = rules'.find? name
  closed : ∀ name ∈ names, ∀ rule, rules.find? name = some rule → rule.body.KeepsTo names

/-- The same input, place and history, over whatever tables. -/
structure Cursor.SameView (c d : Cursor) : Prop where
  input : c.context.input = d.context.input
  index : c.index = d.index
  depth : c.depth = d.depth
  path : c.path = d.path
  active : ∀ i name, (c.moveTo i).isActive name = (d.moveTo i).isActive name

namespace Cursor

/-- Cursors with the same view over two given tables. -/
def Over (rules rules' : RuleTable) (c d : Cursor) : Prop :=
  c.context.rules = rules ∧ d.context.rules = rules' ∧ c.SameView d

namespace SameView

variable {c d : Cursor}

theorem remaining (h : c.SameView d) : c.remaining = d.remaining := by
  rw [Cursor.remaining, Cursor.remaining, h.input, h.index]

theorem isActive (h : c.SameView d) (name : Text) : c.isActive name = d.isActive name := by
  have hsame := h.active c.index name
  rwa [moveTo_self, h.index, moveTo_self] at hsame

theorem moveTo (h : c.SameView d) (n : Nat) :
    (c.moveTo (c.index + n)).SameView (d.moveTo (d.index + n)) where
  input := h.input
  index := congrArg (· + n) h.index
  depth := h.depth
  path := h.path
  active := h.active

theorem label (h : c.SameView d) (name : Text) : (c.label name).SameView (d.label name) where
  input := h.input
  index := h.index
  depth := congrArg (· + 1) h.depth
  path := congrArg (Path.fork · name) h.path
  active := by
    intro i other
    have hold := h.active i other
    rw [Bool.eq_iff_iff, isActive_iff, isActive_iff] at hold ⊢
    simp only [moveTo_index, moveTo_active, mem_active_label, h.index] at hold ⊢
    rw [hold]

end SameView

theorem lockstep_over (rules rules' : RuleTable) : Lockstep (Over rules rules') where
  remaining := fun h => h.2.2.remaining
  moveTo := fun h _ => ⟨h.1, h.2.1, h.2.2.moveTo _⟩

end Cursor

namespace Expression

variable {names : Set Text} {rules rules' : RuleTable}

theorem inStep_over (h : rules.AgreeOn names rules') (depth : Nat) {e : Expression}
    (he : e.KeepsTo names) : Matcher.InStep (Cursor.Over rules rules') (e.evaluateWithin depth)
      (e.evaluateWithin depth) := by
  induction depth generalizing e with
  | zero => exact fun c d hcd => .node hcd .nil
  | succ depth ih =>
    refine inStep_matcher (Cursor.lockstep_over rules rules')
      (fun e c n => @evaluateWithin_covers (depth + 1) e c n) e fun name hname => ?_
    have hmem : name ∈ names := he name hname
    refine .reference (fun hcd => ?_) (fun other hcd => hcd.2.2.isActive other)
      (fun other hcd => ⟨hcd.1, hcd.2.1, hcd.2.2.label other⟩) fun hcd hfound => ?_
    · rw [Context.rule?, Context.rule?, hcd.1, hcd.2.1, h.same name hmem]
    · rw [Context.rule?, hcd.1] at hfound
      exact ih (h.closed name hmem _ hfound)

/-- Every depth that exceeds the room of the cursor gives the same node. -/
theorem evaluateWithin_eq {depth : Nat} (e : Expression) {c : Cursor} (h : c.room.card < depth) :
    e.evaluateWithin depth c = e.evaluate c := by
  obtain ⟨s, hs⟩ := runs_evaluateWithin e h
  exact (evaluate_eq_of_runs hs).symm

theorem related_of_agreeOn (h : rules.AgreeOn names rules') {e : Expression}
    (he : e.KeepsTo names) {c d : Cursor} (hc : c.context.rules = rules)
    (hd : d.context.rules = rules') (hcd : c.SameView d) :
    Node.Related Cursor.SameView (e.evaluate c) (e.evaluate d) := by
  -- the two tables give two bounds on the depth, and any depth above both will do
  let depth := max (nestingBound c) (nestingBound d)
  have hdepth : c.room.card < depth := lt_max_of_lt_left c.card_room_lt_nestingBound
  have hdepth' : d.room.card < depth := lt_max_of_lt_right d.card_room_lt_nestingBound
  have htrees := inStep_over h depth he c d ⟨hc, hd, hcd⟩
  rw [evaluateWithin_eq e hdepth, evaluateWithin_eq e hdepth'] at htrees
  exact htrees.mono fun x y hxy => hxy.2.2

/-- A table agrees with every other that has the same rules under the names in reach. -/
theorem agreeOn_reaches {e : Expression}
    (h : ∀ key, e.Reaches rules key → rules.find? key = rules'.find? key) :
    rules.AgreeOn {key | e.Reaches rules key} rules' where
  same := h
  closed := fun _ hkey _ hfound _ hmention => .through hkey hfound hmention

end Expression

namespace Grammar

theorem find?_of_rule {grammar : Grammar} {name : Text} {rule : Rule}
    (h : grammar.rule name = .ok rule) : grammar.rules.find? name.upper = some rule := by
  unfold Grammar.rule at h
  cases hfound : grammar.rules.find? name.upper with
  | none =>
    rw [hfound] at h
    cases h
  | some found =>
    rw [hfound] at h
    cases h
    rfl

theorem evaluate_of_find? {grammar : Grammar} {name : Text} {rule : Rule}
    (h : grammar.rules.find? name.upper = some rule) (input : Text) :
    grammar.evaluate name input = .ok (rule.evaluateIn grammar.rules input) := by
  rw [evaluate, Grammar.rule, h]
  rfl

open Expression (related_of_agreeOn agreeOn_reaches)

/-- Evaluation depends on the rules in reach only. Over two tables that agree on a set of names and
keep to it, an expression that keeps to it has one tree, node by node; and an extension that gives
other rules only to names which a rule does not reach leaves that rule's tree as it was, on every
input. -/
theorem evaluate_of_reachable_rules :
    (∀ (names : Set Text) (rules rules' : RuleTable) (e : Expression) (c d : Cursor),
      rules.AgreeOn names rules' → e.KeepsTo names → c.context.rules = rules →
      d.context.rules = rules' → c.SameView d →
        Node.Related Cursor.SameView (e.evaluate c) (e.evaluate d)) ∧
    ∀ (base extended : Grammar) (mode : Mode) (extension name : Text) (rule : Rule),
      base.extend mode extension = .ok extended → base.rule name = .ok rule →
      (∀ key, base.rules.find? key ≠ extended.rules.find? key →
        key ≠ name.upper ∧ ¬ rule.body.Reaches base.rules key) →
      ∀ input, ∃ node node', base.evaluate name input = .ok node ∧
        extended.evaluate name input = .ok node' ∧ Node.Related Cursor.SameView node node' := by
  refine ⟨fun names rules rules' e c d h he hc hd hcd => related_of_agreeOn h he hc hd hcd, ?_⟩
  intro base extended mode extension name rule _ hrule hapart input
  have hfound : base.rules.find? name.upper = some rule := find?_of_rule hrule
  -- the rule itself and all that it reaches are the same in the extended grammar
  have hsame : extended.rules.find? name.upper = some rule := by
    by_contra hne
    rw [← hfound] at hne
    exact (hapart name.upper (Ne.symm hne)).1 rfl
  have hreached : ∀ key, rule.body.Reaches base.rules key →
      base.rules.find? key = extended.rules.find? key := by
    intro key hkey
    by_contra hne
    exact (hapart key hne).2 hkey
  refine ⟨rule.evaluateIn base.rules input, rule.evaluateIn extended.rules input,
    evaluate_of_find? hfound input, evaluate_of_find? hsame input, ?_⟩
  have hview : (Cursor.start rule.name ⟨input, base.rules⟩).SameView
      (.start rule.name ⟨input, extended.rules⟩) := ⟨rfl, rfl, rfl, rfl, fun _ _ => rfl⟩
  exact related_of_agreeOn (agreeOn_reaches hreached) (fun _ hmention => .named hmention) rfl rfl
    hview

/-- The extension gives one rule a further alternative and adds another rule; neither is in reach of
the first rule, although both refer to it. The reference in the middle of the third rule keeps to a
name that both tables agree on. -/
theorem evaluate_of_reachable_rules_referring :
    let word : Rule := ⟨['B'], .literal ⟨[.range 97 97]⟩⟩
    let rule : Rule := ⟨['A'], .option (.reference ['B'])⟩
    let base : Grammar := ⟨['A', '=', '[', 'B', ']', '\n', 'B', '=', '%', 'x', '6', '1', '\n', 'C',
      '=', 'B', '\n'], ⟨[(['A'], rule), (['B'], word), (['C'], ⟨['C'], .reference ['B']⟩)]⟩⟩
    let extension : Text := ['C', '=', 'A', '\n', 'D', '=', 'A']
    let extended : Grammar := ⟨base.source ++ extension, ⟨[(['A'], rule), (['B'], word),
      (['C'], ⟨['C'], .alternation [.reference ['B'], .reference ['A']]⟩),
      (['D'], ⟨['D'], .reference ['A']⟩)]⟩⟩
    let c : Cursor := (Cursor.start ['C'] ⟨['x', 'a'], base.rules⟩).moveTo 1
    let d : Cursor := (Cursor.start ['C'] ⟨['x', 'a'], extended.rules⟩).moveTo 1
    (base.rules.AgreeOn {['B']} extended.rules ∧ (Expression.reference ['B']).KeepsTo {['B']} ∧
      c.SameView d ∧ Node.Related Cursor.SameView ((Expression.reference ['B']).evaluate c)
        ((Expression.reference ['B']).evaluate d)) ∧
    base.extend .strict extension = .ok extended ∧ base.rule ['a'] = .ok rule ∧
      (∀ key, base.rules.find? key ≠ extended.rules.find? key →
        key ≠ ['A'] ∧ ¬ rule.body.Reaches base.rules key) ∧
      ∀ input, ∃ node node', base.evaluate ['a'] input = .ok node ∧
        extended.evaluate ['a'] input = .ok node' ∧ Node.Related Cursor.SameView node node' := by
  intro word rule base extension extended c d
  have hagree : base.rules.AgreeOn {['B']} extended.rules := by
    constructor
    · rintro name rfl
      rfl
    · rintro name rfl found hfound
      cases hfound
      intro name hmention
      cases hmention with
      | under hmem => cases hmem
  have hkeeps : (Expression.reference ['B']).KeepsTo {['B']} := by
    intro name hmention
    cases hmention with
    | self => rfl
    | under hmem => cases hmem
  have hview : c.SameView d := ⟨rfl, rfl, rfl, rfl, fun _ _ => rfl⟩
  have hextend : base.extend .strict extension = .ok extended := rfl
  have hrule : base.rule ['a'] = .ok rule := rfl
  have hreached : ∀ key, rule.body.Reaches base.rules key → key = ['B'] := by
    intro key hkey
    induction hkey with
    | named mention =>
      cases mention with
      | under hmem hinner =>
        cases List.mem_singleton.mp hmem
        cases hinner with
        | self => rfl
        | under hmem => cases hmem
    | through _ found mention ih =>
      subst ih
      cases found
      cases mention with
      | under hmem => cases hmem
  have hapart : ∀ key, base.rules.find? key ≠ extended.rules.find? key →
      key ≠ ['A'] ∧ ¬ rule.body.Reaches base.rules key := by
    intro key hdiffers
    refine ⟨?_, fun hkey => ?_⟩
    · rintro rfl
      exact hdiffers rfl
    · rw [hreached key hkey] at hdiffers
      exact hdiffers rfl
  exact ⟨⟨hagree, hkeeps, hview, evaluate_of_reachable_rules.1 _ _ _ _ c d hagree hkeeps rfl rfl
    hview⟩, hextend, hrule, hapart, evaluate_of_reachable_rules.2 base extended .strict extension
    ['a'] rule hextend hrule hapart⟩

end Grammar

end AugmentedBnf
