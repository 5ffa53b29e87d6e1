import Mathlib.Data.List.Forall2
import AugmentedBnf.Proofs.Evaluation.Language
import AugmentedBnf.Proofs.Evaluation.Tree
import AugmentedBnf.Proofs.Expression.Normal

/-! # Two evaluations in lockstep

Two evaluations that start at corresponding cursors return corresponding trees, whatever the
correspondence is, as long as nothing that an operator looks at tells the two cursors apart, and the
cursors still correspond when both move past the same match or enter the same rule.
-/
namespace AugmentedBnf

/-- Trees of the same kinds and outcomes, node by node, with cursors that correspond. -/
inductive Node.Related (R : Cursor → Cursor → Prop) : Node → Node → Prop where
  | node {c d : Cursor} {kind : Expression.Kind} {outcome : Outcome}
      {children children' : List Node} (cursor : R c d)
      (below : List.Forall₂ (Related R) children children') :
      Related R ⟨c, kind, outcome, children⟩ ⟨d, kind, outcome, children'⟩

namespace Node.Related

variable {R S : Cursor → Cursor → Prop} {m m' : Node}

theorem outcome_eq (h : Related R m m') : m.outcome = m'.outcome := by
  cases h
  rfl

theorem length?_eq (h : Related R m m') : m.length? = m'.length? :=
  congrArg Outcome.length? h.outcome_eq

theorem mono (hRS : ∀ c d, R c d → S c d) (h : Related R m m') : Related S m m' := by
  induction m using Node.induction generalizing m' with
  | node cursor kind outcome children ih =>
    cases h with
    | node hcursor hbelow =>
      have hboth : List.Forall₂ (fun child child' =>
          (∀ other, Related R child other → Related S child other) ∧ Related R child child')
          children _ :=
        (List.forall₂_and_left _ _).mpr ⟨fun child hchild other => ih child hchild, hbelow⟩
      exact .node (hRS _ _ hcursor) (hboth.imp fun child child' hpair => hpair.1 child' hpair.2)

theorem single (h : Related R m m') : List.Forall₂ (Related R) [m] [m'] := .cons h .nil

end Node.Related

/-- Corresponding cursors see the same input ahead of them, and they still correspond when both
move past the same match. -/
structure Cursor.Lockstep (R : Cursor → Cursor → Prop) : Prop where
  remaining : ∀ {c d}, R c d → c.remaining = d.remaining
  moveTo : ∀ {c d n}, R c d → c.Covers n → R (c.moveTo (c.index + n)) (d.moveTo (d.index + n))

namespace Matcher

/-- From corresponding cursors the two matchers return corresponding trees. -/
def InStep (R : Cursor → Cursor → Prop) (m m' : Matcher) : Prop :=
  ∀ c d, R c d → Node.Related R (m c) (m' d)

/-- What ended two iterations in the same way. -/
inductive Halt.Related (R : Cursor → Cursor → Prop) : Halt → Halt → Prop where
  | atMaximum : Related R .atMaximum .atMaximum
  | failed {x y : Node} (attempt : x.Related R y) : Related R (.failed x) (.failed y)
  | idle {x y : Node} (attempt : x.Related R y) : Related R (.idle x) (.idle y)

structure Iteration.Related (R : Cursor → Cursor → Prop) (i j : Iteration) : Prop where
  matched : List.Forall₂ (Node.Related R) i.matched j.matched
  length : i.length = j.length
  halt : i.halt.Related R j.halt

namespace InStep

variable {R : Cursor → Cursor → Prop} {m m' : Matcher} {f g : Expression → Matcher}
  {operands : List Expression}

/-- Either both evaluations find a match, or both gather failed attempts. -/
theorem firstMatch (h : ∀ e ∈ operands, InStep R (f e) (g e)) {c d : Cursor} (hcd : R c d) :
    (∃ attempts attempts' n x y,
      Matcher.firstMatch c (operands.map f) = (attempts, some (n, x)) ∧
      Matcher.firstMatch d (operands.map g) = (attempts', some (n, y)) ∧ x.Related R y) ∨
    ∃ attempts attempts', Matcher.firstMatch c (operands.map f) = (attempts, none) ∧
      Matcher.firstMatch d (operands.map g) = (attempts', none) ∧
      List.Forall₂ (Node.Related R) attempts attempts' := by
  induction operands with
  | nil => exact .inr ⟨[], [], rfl, rfl, .nil⟩
  | cons e rest ih =>
    rw [List.forall_mem_cons] at h
    have hnode := h.1 c d hcd
    have hlength := hnode.length?_eq
    simp only [List.map_cons, Matcher.firstMatch, ← hlength]
    cases hn : (f e c).length? with
    | some n => exact .inl ⟨[], [], n, _, _, rfl, rfl, hnode⟩
    | none =>
      rcases ih h.2 with ⟨as, bs, n, x, y, hx, hy, hxy⟩ | ⟨as, bs, hx, hy, hall⟩
      · exact .inl ⟨_, _, n, x, y, by rw [hx], by rw [hy], hxy⟩
      · exact .inr ⟨_, _, by rw [hx], by rw [hy], .cons hnode hall⟩

theorem alternation (h : ∀ e ∈ operands, InStep R (f e) (g e)) :
    InStep R (.alternation (operands.map f)) (.alternation (operands.map g)) := by
  intro c d hcd
  unfold Matcher.alternation
  rcases firstMatch h hcd with ⟨as, bs, n, x, y, hx, hy, hxy⟩ | ⟨as, bs, hx, hy, hall⟩
  · rw [hx, hy]
    exact .node hcd hxy.single
  · rw [hx, hy]
    exact .node hcd hall

/-- Either both sequences match to the end, with the same sum, or both stop at a failure. -/
theorem inSequence (hR : Cursor.Lockstep R) (h : ∀ e ∈ operands, InStep R (f e) (g e))
    (hcovers : ∀ e ∈ operands, ∀ c n, (f e c).length? = some n → c.Covers n) {c d : Cursor}
    (hcd : R c d) {offset : Nat} (hoffset : c.Covers offset) :
    (∃ nodes nodes' total, Matcher.inSequence c (operands.map f) offset = .ok (nodes, total) ∧
      Matcher.inSequence d (operands.map g) offset = .ok (nodes', total) ∧
      List.Forall₂ (Node.Related R) nodes nodes') ∨
    ∃ x y, Matcher.inSequence c (operands.map f) offset = .error x ∧
      Matcher.inSequence d (operands.map g) offset = .error y ∧ x.Related R y := by
  induction operands generalizing offset with
  | nil => exact .inl ⟨[], [], 0, rfl, rfl, .nil⟩
  | cons e rest ih =>
    rw [List.forall_mem_cons] at h hcovers
    have hnode := h.1 _ _ (hR.moveTo hcd hoffset)
    have hlength := hnode.length?_eq
    simp only [List.map_cons, Matcher.inSequence, ← hlength]
    cases hn : (f e (c.moveTo (c.index + offset))).length? with
    | none => exact .inr ⟨_, _, rfl, rfl, hnode⟩
    | some n =>
      have hnext : c.Covers (offset + n) := hoffset.add (hcovers.1 _ n hn)
      rcases ih h.2 hcovers.2 hnext with ⟨as, bs, total, hx, hy, hall⟩ | ⟨x, y, hx, hy, hxy⟩
      · exact .inl ⟨_, _, n + total, by simp only [hx], by simp only [hy], .cons hnode hall⟩
      · exact .inr ⟨x, y, by simp only [hx], by simp only [hy], hxy⟩

theorem concatenation (hR : Cursor.Lockstep R) (h : ∀ e ∈ operands, InStep R (f e) (g e))
    (hcovers : ∀ e ∈ operands, ∀ c n, (f e c).length? = some n → c.Covers n) :
    InStep R (.concatenation (operands.map f)) (.concatenation (operands.map g)) := by
  intro c d hcd
  unfold Matcher.concatenation
  rcases inSequence hR h hcovers hcd (Cursor.Covers.zero c) with
    ⟨as, bs, total, hx, hy, hall⟩ | ⟨x, y, hx, hy, hxy⟩
  · rw [hx, hy]
    exact .node hcd hall
  · rw [hx, hy]
    exact .node hcd hxy.single

theorem iterate (hR : Cursor.Lockstep R) (h : InStep R m m')
    (hcovers : ∀ c n, (m c).length? = some n → c.Covers n) {c d : Cursor} (hcd : R c d)
    (count : Nat) (allowed : Option Nat) {offset : Nat} (hoffset : c.Covers offset) :
    (Matcher.iterate m c count allowed offset).Related R
      (Matcher.iterate m' d count allowed offset) := by
  induction count generalizing allowed offset with
  | zero => exact ⟨.nil, rfl, .atMaximum⟩
  | succ count ih =>
    have hnode := h _ _ (hR.moveTo hcd hoffset)
    have hlength := hnode.length?_eq
    simp only [Matcher.iterate, ← hlength]
    by_cases hallowed : allowed = some 0
    · rw [if_pos hallowed, if_pos hallowed]
      exact ⟨.nil, rfl, .atMaximum⟩
    · rw [if_neg hallowed, if_neg hallowed]
      split
      · exact ⟨.nil, rfl, .failed hnode⟩
      · exact ⟨.nil, rfl, .idle hnode⟩
      · rename_i n hn
        have hnext := ih (allowed.map (· - 1)) (hoffset.add (hcovers _ (n + 1) hn))
        exact ⟨.cons hnode hnext.matched, congrArg (n + 1 + ·) hnext.length, hnext.halt⟩

theorem settle {i j : Iteration} (h : i.Related R j) {c d : Cursor} (hcd : R c d) (min : Nat) :
    (Matcher.settle min c i).Related R (Matcher.settle min d j) := by
  obtain ⟨matched, total, halt⟩ := i
  obtain ⟨matched', total', halt'⟩ := j
  obtain ⟨hmatched, rfl, hhalt⟩ := h
  unfold Matcher.settle
  rw [← hmatched.length_eq]
  cases hhalt with
  | atMaximum =>
    dsimp only
    split
    · exact .node hcd hmatched
    · exact .node hcd .nil
  | failed attempt =>
    dsimp only
    split
    · exact .node hcd hmatched
    · exact .node hcd attempt.single
  | idle attempt =>
    dsimp only
    split
    · exact .node hcd (List.rel_append hmatched attempt.single)
    · exact .node hcd .nil

theorem repetition (hR : Cursor.Lockstep R) (h : InStep R m m')
    (hcovers : ∀ c n, (m c).length? = some n → c.Covers n) (bounds : Bounds) :
    InStep R (.repetition bounds m) (.repetition bounds m') := by
  intro c d hcd
  unfold Matcher.repetition
  rw [← hR.remaining hcd]
  exact settle (iterate hR h hcovers hcd _ _ (Cursor.Covers.zero c)) hcd bounds.min

theorem group (h : InStep R m m') : InStep R (.group m) (.group m') := by
  intro c d hcd
  have hnode := h c d hcd
  simp only [Matcher.group, ← hnode.length?_eq]
  split
  · exact .node hcd hnode.single
  · exact .node hcd hnode.single

theorem option (h : InStep R m m') : InStep R (.option m) (.option m') := by
  intro c d hcd
  have hnode := h c d hcd
  simp only [Matcher.option, ← hnode.length?_eq]
  exact .node hcd hnode.single

theorem literal (hR : Cursor.Lockstep R) (value : Literal) :
    InStep R (.literal value) (.literal value) := by
  intro c d hcd
  unfold Matcher.literal
  rw [← hR.remaining hcd]
  split
  · exact .node hcd .nil
  · exact .node hcd .nil

theorem prose : InStep R .prose .prose := fun _ _ hcd => .node hcd .nil

/-- A reference that finds the same rule in both evaluations, idle in both or active in both. -/
theorem reference {name : Text}
    (hrule : ∀ {c d}, R c d → c.context.rule? name = d.context.rule? name)
    (hactive : ∀ {c d} (other), R c d → c.isActive other = d.isActive other)
    (hlabel : ∀ {c d} (other), R c d → R (c.label other) (d.label other))
    (hbody : ∀ {c d rule}, R c d → c.context.rule? name = some rule →
      InStep R (f rule.body) (g rule.body)) :
    InStep R (.reference f name) (.reference g name) := by
  intro c d hcd
  cases hfound : c.context.rule? name with
  | none =>
    rw [reference_of_missing hfound, reference_of_missing (hrule hcd ▸ hfound)]
    exact .node hcd .nil
  | some rule =>
    have hfound' : d.context.rule? name = some rule := hrule hcd ▸ hfound
    cases hidle : c.isActive rule.name with
    | true =>
      rw [reference_of_active hfound hidle,
        reference_of_active hfound' (hactive rule.name hcd ▸ hidle)]
      exact .node hcd .nil
    | false =>
      rw [reference_of_idle hfound hidle,
        reference_of_idle hfound' (hactive rule.name hcd ▸ hidle)]
      have hinside := hlabel rule.name hcd
      have hnode := hbody hcd hfound _ _ hinside
      unfold Node.entered
      rw [← hnode.length?_eq]
      split
      · exact .node hinside hnode.single
      · exact .node hinside hnode.single

end InStep

end Matcher

namespace Expression

variable {R : Cursor → Cursor → Prop}

/-- One more level of rules: the operators keep in step if the rules that are named do. -/
theorem inStep_matcher {enter enter' : Expression → Matcher} (hR : Cursor.Lockstep R)
    (hcovers : ∀ (e : Expression) (c : Cursor) (n : Nat),
      (e.matcher enter c).length? = some n → c.Covers n)
    (e : Expression) (hreference : ∀ name, Within (.reference name) e →
      Matcher.InStep R (.reference enter name) (.reference enter' name)) :
    Matcher.InStep R (e.matcher enter) (e.matcher enter') := by
  induction e using Expression.induction with
  | alternation operands ih =>
    rw [matcher_alternation, matcher_alternation]
    exact .alternation fun e he => ih e he fun name hname => hreference name (.under he hname)
  | concatenation operands ih =>
    rw [matcher_concatenation, matcher_concatenation]
    refine .concatenation hR (fun e he => ?_) fun e _ => hcovers e
    exact ih e he fun name hname => hreference name (.under he hname)
  | repetition bounds operand ih =>
    rw [matcher, matcher]
    refine .repetition hR (ih fun name hname => ?_) (hcovers operand) bounds
    exact hreference name (.under List.mem_cons_self hname)
  | group inner ih =>
    rw [matcher, matcher]
    exact .group (ih fun name hname => hreference name (.under List.mem_cons_self hname))
  | option inner ih =>
    rw [matcher, matcher]
    exact .option (ih fun name hname => hreference name (.under List.mem_cons_self hname))
  | literal value =>
    rw [matcher, matcher]
    exact .literal hR value
  | reference name =>
    rw [matcher, matcher]
    exact hreference name .self
  | prose text =>
    rw [matcher, matcher]
    exact .prose

end Expression

end AugmentedBnf
