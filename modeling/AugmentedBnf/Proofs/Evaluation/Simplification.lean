import AugmentedBnf.Proofs.Evaluation.Lengths
import AugmentedBnf.Proofs.Evaluation.Termination
import AugmentedBnf.Proofs.Expression.Normal

/-! # What simplification changes

Simplification takes wrappers around a single operand off the top of an expression. A choice or a
sequence of one operand matches what the operand matches. A count of exactly one does so too, except
where the operand matches without consuming anything: no such match counts towards a minimum. So
simplification keeps every match, and it adds those that a count of exactly one had refused.
-/
namespace AugmentedBnf

/-- A count of exactly one keeps the matches of its operand that consume something. -/
theorem Matcher.length?_repetition_once (m : Matcher) (c : Cursor) :
    (repetition .once m c).length? = ((m c).length?).filter (0 < ·) := by
  have hfirst : c.moveTo (c.index + 0) = c := by rw [Nat.add_zero, Cursor.moveTo_self]
  have hrest : ∀ count offset, iterate m c count (some 0) offset = ⟨[], 0, .atMaximum⟩ := by
    intro count offset
    cases count <;> rfl
  have hallowed : ¬ (some 1 : Option Nat) = some 0 := by decide
  have hleft : (some 1 : Option Nat).map (· - 1) = some 0 := rfl
  rw [repetition, length?_settle, Bounds.once]
  dsimp only
  rw [iterate, if_neg hallowed, hfirst]
  cases hm : (m c).length? with
  | none =>
    simp only [hm]
    rfl
  | some n =>
    cases n with
    | zero =>
      simp only [hm]
      rfl
    | succ n =>
      simp only [hm, hleft, hrest]
      rfl

namespace Expression

variable {e core : Expression} {counted : Bool}

/-- The boundary between what simplification keeps and what it adds. -/
theorem Collapses.length?_eq (h : Collapses counted e core) (c : Cursor) :
    (e.evaluate c).length? =
      if counted then ((core.evaluate c).length?).filter (0 < ·) else (core.evaluate c).length? := by
  induction h with
  | bare => rfl
  | wrapped wrapper inner ih =>
    cases wrapper with
    | alternation =>
      rw [evaluate_alternation, List.map_singleton, Matcher.length?_alternation_single, ih,
        Bool.false_or]
    | concatenation =>
      rw [evaluate_concatenation, List.map_singleton, Matcher.length?_concatenation_single, ih,
        Bool.false_or]
    | repetition =>
      rw [evaluate_repetition, Matcher.length?_repetition_once, ih, Bool.true_or, if_pos rfl]
      split
      · rw [Option.filter_filter]
        simp
      · rfl

/-- Simplifying once is enough: it leaves the one expression inside all wrappers. Every match stays
with its length. An expression and its simplified form match the same length or fail together,
unless a count of exactly one is among the wrappers and the simplified form matches without
consuming anything; then the expression fails. -/
theorem evaluate_simplify_exact (e : Expression) :
    e.simplify.simplify = e.simplify ∧
    ∃ counted, (∀ mark core, Collapses mark e core ↔ mark = counted ∧ core = e.simplify) ∧
      ∀ c,
        (∀ n, (e.evaluate c).length? = some n → (e.simplify.evaluate c).length? = some n) ∧
        (counted = false ∨ (e.simplify.evaluate c).length? ≠ some 0 →
          (e.evaluate c).length? = (e.simplify.evaluate c).length?) ∧
        (counted = true → (e.simplify.evaluate c).length? = some 0 →
          (e.evaluate c).length? = none) := by
  obtain ⟨counted, h⟩ := exists_collapses_simplify e
  refine ⟨simplify_of_not_wraps h.not_wraps, counted, fun mark core => ?_, fun c => ?_⟩
  · refine ⟨fun h' => h'.unique h, ?_⟩
    rintro ⟨rfl, rfl⟩
    exact h
  · have hlength := h.length?_eq c
    cases counted with
    | false =>
      rw [if_neg (by decide)] at hlength
      rw [hlength]
      exact ⟨fun n hn => hn, fun _ => rfl, nofun⟩
    | true =>
      rw [if_pos rfl] at hlength
      rw [hlength]
      refine ⟨fun n hn => (Option.filter_eq_some_iff.mp hn).1, ?_, fun _ hzero => ?_⟩
      · rintro (hmark | hpositive)
        · cases hmark
        · match (e.simplify.evaluate c).length?, hpositive with
          | none, _ => rfl
          | some 0, hzero => exact absurd rfl hzero
          | some (n + 1), _ => rfl
      · rw [hzero]
        rfl

/-- Under a choice and a sequence a count of exactly one refuses the empty match of an option: of
two texts the wrapped expression matches one, and the option matches both. -/
theorem evaluate_simplify_exact_option :
    let inner := option (literal (.sensitive ['a']))
    let e := alternation [concatenation [repetition .once inner]]
    let c := Cursor.new ⟨['a'], .empty⟩ 0 0 .empty
    let d := Cursor.new ⟨['b'], .empty⟩ 0 0 .empty
    e.simplify = inner ∧ Collapses true e inner ∧
      ((e.evaluate c).length? = some 1 ∧ (inner.evaluate c).length? = some 1) ∧
      ((inner.evaluate c).length? ≠ some 0 ∧
        (e.evaluate c).length? = (inner.evaluate c).length?) ∧
      ((inner.evaluate d).length? = some 0 ∧ (e.evaluate d).length? = none) := by
  intro inner e c d
  have hsimplify : e.simplify = inner := by
    simp only [e, inner, Bounds.once, simplify]
  obtain ⟨-, counted, hmark, hlengths⟩ := evaluate_simplify_exact e
  rw [hsimplify] at hmark hlengths
  have hcollapses : Collapses true e inner := by
    refine .wrapped .alternation (.wrapped .concatenation (.wrapped .repetition (.bare ?_)))
    change ∀ mark x, ¬ Wraps mark (option _) x
    rintro mark x ⟨⟩
  obtain ⟨rfl, -⟩ := (hmark true inner).mp hcollapses
  have hone : (e.evaluate c).length? = some 1 := by decide
  have hpositive : (inner.evaluate c).length? ≠ some 0 := by decide
  have hzero : (inner.evaluate d).length? = some 0 := by decide
  exact ⟨hsimplify, hcollapses, ⟨hone, (hlengths c).1 1 hone⟩,
    ⟨hpositive, (hlengths c).2.1 (.inr hpositive)⟩, ⟨hzero, (hlengths d).2.2 rfl hzero⟩⟩

end Expression

end AugmentedBnf
