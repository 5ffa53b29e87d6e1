import Mathlib.Algebra.Order.Monoid.Unbundled.Pow
import Mathlib.Computability.Language
import Mathlib.Order.FixedPoints
import AugmentedBnf.Proofs.Evaluation.Operators
import AugmentedBnf.Proofs.Evaluation.Reading

/-! # The language of an expression

A rule table assigns a language to every expression: the least assignment that satisfies the
equations of the eight operators. Evaluation is ordered and greedy and gives up on cycles, so it
need not find a string of the language; but what it matches is always one.
-/
namespace AugmentedBnf

/-- The strings with one character for each position, taken from the charset there. -/
def Literal.language (literal : Literal) : Language Char :=
  {w | List.Forall₂ (fun (set : Charset) c => c ∈ set.members) literal.positions w}

/-- The numbers of matches that the bounds of a repetition admit. -/
def Bounds.Admits (bounds : Bounds) (k : Nat) : Prop :=
  bounds.min ≤ k ∧ ∀ max, bounds.max = some max → k ≤ max

namespace Expression

/-- The right-hand sides of the language equations, given a language for every expression. -/
def layer (rules : RuleTable) (L : Expression → Language Char) : Expression → Language Char
  | alternation operands => (operands.map L).sum
  | concatenation operands => (operands.map L).prod
  | repetition bounds operand => {w | ∃ k, bounds.Admits k ∧ w ∈ L operand ^ k}
  | group inner => L inner
  | option inner => L inner + 1
  | literal value => value.language
  | reference name =>
    match rules.find? name with
    | some rule => L rule.body
    | none => 0
  | prose _ => 0

theorem mem_sum_map {operands : List Expression} {L : Expression → Language Char} {w : List Char} :
    w ∈ (operands.map L).sum ↔ ∃ e ∈ operands, w ∈ L e := by
  induction operands with
  | nil => simp
  | cons e rest ih =>
    simp only [List.map_cons, List.sum_cons, Language.mem_add, ih, List.exists_mem_cons_iff]

theorem prod_map_mono {operands : List Expression} {K L : Expression → Language Char}
    (h : K ≤ L) : (operands.map K).prod ≤ (operands.map L).prod := by
  induction operands with
  | nil => exact le_refl _
  | cons e rest ih =>
    simp only [List.map_cons, List.prod_cons]
    exact mul_le_mul' (h e) ih

theorem layer_mono (rules : RuleTable) : Monotone (layer rules) := by
  intro K L h e
  cases e with
  | alternation operands =>
    intro w hw
    obtain ⟨e, he, hwe⟩ := mem_sum_map.mp hw
    exact mem_sum_map.mpr ⟨e, he, h e hwe⟩
  | concatenation operands => exact prod_map_mono h
  | repetition bounds operand =>
    rintro w ⟨k, hk, hw⟩
    exact ⟨k, hk, pow_le_pow_left' (h operand) k hw⟩
  | group inner => exact h inner
  | option inner => exact add_le_add_left (h inner) 1
  | literal value => exact le_refl _
  | reference name =>
    simp only [layer]
    split
    · exact h _
    · exact le_refl _
  | prose text => exact le_refl _

/-- The least assignment of languages that satisfies the equations. -/
def language (rules : RuleTable) : Expression → Language Char :=
  OrderHom.lfp ⟨layer rules, layer_mono rules⟩

theorem layer_language (rules : RuleTable) (e : Expression) :
    layer rules (language rules) e = language rules e :=
  congrFun (OrderHom.map_lfp ⟨layer rules, layer_mono rules⟩) e

/-- No assignment that satisfies the equations has fewer strings anywhere. -/
theorem isLeast_language (rules : RuleTable) :
    IsLeast {L | layer rules L = L} (language rules) :=
  OrderHom.isLeast_lfp ⟨layer rules, layer_mono rules⟩

end Expression

namespace Literal

theorem exists_of_matchSets? {sets : List Charset} {t : Text} {n : Nat}
    (h : matchSets? sets t = some n) :
    ∃ w rest : Text, t = w ++ rest ∧ w.byteSize = n ∧
      List.Forall₂ (fun (set : Charset) c => c ∈ set.members) sets w := by
  fun_induction matchSets? sets t generalizing n with
  | case1 t =>
    cases h
    exact ⟨[], t, rfl, rfl, .nil⟩
  | case2 => cases h
  | case3 set sets c rest hc ih =>
    obtain ⟨k, hk, rfl⟩ := Option.map_eq_some_iff.mp h
    obtain ⟨w, tail, hw, rfl, hsets⟩ := ih hk
    refine ⟨c :: w, tail, by rw [hw, List.cons_append], rfl, ?_⟩
    exact .cons (Charset.contains_iff.mp hc) hsets
  | case4 => cases h

end Literal

namespace Matcher

/-- Over a rule table, whatever the matcher takes from the input is a string of the language. -/
def SoundFor (m : Matcher) (rules : RuleTable) (L : Language Char) : Prop :=
  ∀ c n, c.context.rules = rules → (m c).length? = some n → c.Reads n L

namespace SoundFor

variable {rules : RuleTable}

theorem alternation {f : Expression → Matcher} {L : Expression → Language Char}
    {operands : List Expression} (h : ∀ e ∈ operands, (f e).SoundFor rules (L e)) :
    (Matcher.alternation (operands.map f)).SoundFor rules (operands.map L).sum := by
  intro c n hc hn
  obtain ⟨m, hm, hlength⟩ := exists_of_alternation hn
  obtain ⟨e, he, rfl⟩ := List.mem_map.mp hm
  exact (h e he c n hc hlength).mono fun w hw => Expression.mem_sum_map.mpr ⟨e, he, hw⟩

theorem inSequence {f : Expression → Matcher} {L : Expression → Language Char}
    {operands : List Expression} (h : ∀ e ∈ operands, (f e).SoundFor rules (L e)) {c : Cursor}
    (hc : c.context.rules = rules) {offset total : Nat} {nodes : List Node}
    (hrun : Matcher.inSequence c (operands.map f) offset = .ok (nodes, total)) :
    (c.moveTo (c.index + offset)).Reads total (operands.map L).prod := by
  induction operands generalizing offset total nodes with
  | nil =>
    cases hrun
    exact Cursor.Reads.empty _
  | cons e rest ih =>
    rw [List.forall_mem_cons] at h
    simp only [List.map_cons, Matcher.inSequence] at hrun
    split at hrun
    · cases hrun
    · rename_i n hn
      split at hrun
      · rename_i nodes' total' hrest
        cases hrun
        have hfirst := h.1 (c.moveTo (c.index + offset)) n hc hn
        have hnext := ih h.2 hrest
        rw [← Nat.add_assoc] at hnext
        exact hfirst.mul hnext
      · cases hrun

theorem concatenation {f : Expression → Matcher} {L : Expression → Language Char}
    {operands : List Expression} (h : ∀ e ∈ operands, (f e).SoundFor rules (L e)) :
    (Matcher.concatenation (operands.map f)).SoundFor rules (operands.map L).prod := by
  intro c n hc hn
  obtain ⟨nodes, hrun⟩ := inSequence_of_concatenation hn
  exact inSequence h hc hrun

variable {m : Matcher} {L : Language Char}

/-- Every round of an iteration adds one factor, and the rounds stay within what is allowed. -/
theorem iterate (h : m.SoundFor rules L) {c : Cursor} (hc : c.context.rules = rules)
    (count : Nat) (allowed : Option Nat) (offset : Nat) :
    let iteration := Matcher.iterate m c count allowed offset
    (c.moveTo (c.index + offset)).Reads iteration.length (L ^ iteration.matched.length) ∧
      ∀ max, allowed = some max → iteration.matched.length ≤ max := by
  fun_induction Matcher.iterate m c count allowed offset with
  | case1 => exact ⟨Cursor.Reads.empty _, fun max _ => Nat.zero_le max⟩
  | case2 => exact ⟨Cursor.Reads.empty _, fun max _ => Nat.zero_le max⟩
  | case3 => exact ⟨Cursor.Reads.empty _, fun max _ => Nat.zero_le max⟩
  | case4 => exact ⟨Cursor.Reads.empty _, fun max _ => Nat.zero_le max⟩
  | case5 count allowed offset hallowed node n hn ih =>
    have hfirst := h (c.moveTo (c.index + offset)) (n + 1) hc hn
    have hnext := ih.1
    rw [← Nat.add_assoc] at hnext
    simp only [Iteration.push, List.length_cons, pow_succ']
    refine ⟨hfirst.mul hnext, fun max hmax => ?_⟩
    have hrest := ih.2 (max - 1) (by simp [hmax])
    have hpos : max ≠ 0 := fun hzero => hallowed (by rw [hmax, hzero])
    omega

theorem repetition (h : m.SoundFor rules L) (bounds : Bounds) :
    (Matcher.repetition bounds m).SoundFor rules {w | ∃ k, bounds.Admits k ∧ w ∈ L ^ k} := by
  intro c n hc hn
  obtain ⟨hreads, hmax⟩ := iterate h hc (c.remaining.length + 1) bounds.max 0
  rw [Matcher.repetition, length?_settle] at hn
  split at hn
  · rename_i henough
    cases hn
    exact hreads.mono fun w hw => ⟨_, ⟨henough, hmax⟩, hw⟩
  · cases hn

theorem group (h : m.SoundFor rules L) : (Matcher.group m).SoundFor rules L := by
  intro c n hc hn
  rw [length?_group] at hn
  exact h c n hc hn

theorem option (h : m.SoundFor rules L) : (Matcher.option m).SoundFor rules (L + 1) := by
  intro c n hc hn
  rw [length?_option, Option.some.injEq] at hn
  cases hm : (m c).length? with
  | some k =>
    rw [hm, Option.getD_some] at hn
    subst hn
    exact (h c k hc hm).mono fun w hw => Or.inl hw
  | none =>
    rw [hm, Option.getD_none] at hn
    subst hn
    exact (Cursor.Reads.empty c).mono fun w hw => Or.inr hw

theorem literal (value : Literal) : (Matcher.literal value).SoundFor rules value.language := by
  intro c n _ hn
  rw [length?_literal] at hn
  obtain ⟨w, rest, hrest, hsize, hw⟩ := Literal.exists_of_matchSets? hn
  exact ⟨w, rest, hw, hrest, hsize⟩

theorem prose : Matcher.prose.SoundFor rules 0 := by
  intro c n _ hn
  cases hn

theorem reference {enter : Expression → Matcher} {L : Expression → Language Char}
    (h : ∀ e, (enter e).SoundFor rules (L e)) (name : Text) :
    (Matcher.reference enter name).SoundFor rules
      (Expression.layer rules L (.reference name)) := by
  intro c n hc hn
  obtain ⟨rule, hrule, hbody⟩ := exists_of_reference hn
  rw [Context.rule?, hc] at hrule
  rw [Expression.layer, hrule]
  exact h rule.body (c.label rule.name) n hc hbody

end SoundFor

end Matcher

namespace Expression

theorem soundFor_matcher {rules : RuleTable} {enter : Expression → Matcher}
    (henter : ∀ e, (enter e).SoundFor rules (language rules e)) (e : Expression) :
    (e.matcher enter).SoundFor rules (language rules e) := by
  induction e using Expression.induction with
  | alternation operands ih =>
    rw [matcher_alternation, ← layer_language]
    exact .alternation ih
  | concatenation operands ih =>
    rw [matcher_concatenation, ← layer_language]
    exact .concatenation ih
  | repetition bounds operand ih =>
    rw [matcher, ← layer_language]
    exact .repetition ih bounds
  | group inner ih =>
    rw [matcher, ← layer_language]
    exact .group ih
  | option inner ih =>
    rw [matcher, ← layer_language]
    exact .option ih
  | literal value =>
    rw [matcher, ← layer_language]
    exact .literal value
  | reference name =>
    rw [matcher, ← layer_language]
    exact .reference henter name
  | prose text =>
    rw [matcher, ← layer_language]
    exact .prose

/-- Soundness holds however deep rules may nest: a run that gives up matches nothing. -/
theorem soundFor_evaluateWithin (rules : RuleTable) (depth : Nat) (e : Expression) :
    (e.evaluateWithin depth).SoundFor rules (language rules e) := by
  induction depth generalizing e with
  | zero =>
    intro c n _ hn
    cases hn
  | succ depth ih => exact soundFor_matcher ih e

theorem evaluateWithin_covers {depth : Nat} {e : Expression} {c : Cursor} {n : Nat}
    (h : (e.evaluateWithin depth c).length? = some n) : c.Covers n :=
  (soundFor_evaluateWithin c.context.rules depth e c n rfl h).covers

/-- A successful evaluation matches the front of the remaining input with as many bytes as its
length, and this front is a string of the expression's language. -/
theorem evaluate_mem_language (e : Expression) (c : Cursor) (n : Nat)
    (h : (e.evaluate c).length? = some n) :
    ∃ w, c.remaining.takeBytes? n = some w ∧ w ∈ language c.context.rules e :=
  (soundFor_evaluateWithin c.context.rules (nestingBound c) e c n rfl h).takeBytes?

/-- A left-recursive list of two-byte items, entered behind the first character of the input. -/
theorem evaluate_mem_language_list :
    let item := literal (.sensitive ['é'])
    let list := alternation
      [concatenation [reference ['L'], literal (.sensitive [',']), item], item]
    let c := (Cursor.new ⟨['x', 'é', ',', 'é'], ⟨[(['L'], ⟨['L'], list⟩)]⟩⟩ 1 7 .empty).label ['K']
    (list.evaluate c).length? = some 5 ∧
      ∃ w, c.remaining.takeBytes? 5 = some w ∧ w ∈ language c.context.rules list := by
  intro item list c
  have h : (list.evaluate c).length? = some 5 := by decide
  exact ⟨h, evaluate_mem_language list c 5 h⟩

end Expression

end AugmentedBnf
