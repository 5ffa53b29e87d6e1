import AugmentedBnf.Proofs.Evaluation.Termination
import AugmentedBnf.Proofs.Evaluation.Tree

/-! # The attempts that an evaluation makes

An attempt is an expression tried at a cursor. It makes further attempts: operands where the ones
before them ended, and the body of a rule that it enters. The tree of an evaluation keeps some of
these, each as the child of the attempt that made it.
-/
namespace AugmentedBnf

namespace Expression

/-- The operands match one after the other from the cursor on and take `n` bytes together. -/
inductive InRow (c : Cursor) : List Expression → Nat → Prop where
  | nil : InRow c [] 0
  | snoc {operands : List Expression} {e : Expression} {n k : Nat} (row : InRow c operands n)
      (hit : (e.evaluate (c.moveTo (c.index + n))).length? = some k) :
      InRow c (operands ++ [e]) (n + k)

/-- The operand matches `k` times in a row from the cursor on, each time taking something, and
takes `n` bytes together. -/
inductive Rounds (operand : Expression) (c : Cursor) : Nat → Nat → Prop where
  | zero : Rounds operand c 0 0
  | succ {k n m : Nat} (rounds : Rounds operand c k n)
      (hit : (operand.evaluate (c.moveTo (c.index + n))).length? = some (m + 1)) :
      Rounds operand c (k + 1) (n + (m + 1))

theorem InRow.covers {c : Cursor} {operands : List Expression} {n : Nat}
    (h : InRow c operands n) : c.Covers n := by
  induction h with
  | nil => exact Cursor.Covers.zero c
  | snoc row hit ih => exact ih.add (evaluate_covers hit)

theorem Rounds.covers {operand : Expression} {c : Cursor} {k n : Nat}
    (h : Rounds operand c k n) : c.Covers n := by
  induction h with
  | zero => exact Cursor.Covers.zero c
  | succ rounds hit ih => exact ih.add (evaluate_covers hit)

end Expression

/-- An expression tried at a cursor. -/
structure Attempt where
  expression : Expression
  cursor : Cursor

namespace Attempt

/-- What comes of an attempt. -/
def node (x : Attempt) : Node := x.expression.evaluate x.cursor

/-- The first attempt directly makes the second. -/
inductive Makes : Attempt → Attempt → Prop where
  | choice {before after : List Expression} {e : Expression} {c : Cursor}
      (missed : ∀ x ∈ before, (x.evaluate c).length? = none) :
      Makes ⟨.alternation (before ++ e :: after), c⟩ ⟨e, c⟩
  | operand {before after : List Expression} {e : Expression} {c : Cursor} {n : Nat}
      (row : Expression.InRow c before n) :
      Makes ⟨.concatenation (before ++ e :: after), c⟩ ⟨e, c.moveTo (c.index + n)⟩
  | round {bounds : Bounds} {e : Expression} {c : Cursor} {k n : Nat}
      (rounds : e.Rounds c k n) (more : bounds.Open k) :
      Makes ⟨.repetition bounds e, c⟩ ⟨e, c.moveTo (c.index + n)⟩
  | group {inner : Expression} {c : Cursor} : Makes ⟨.group inner, c⟩ ⟨inner, c⟩
  | option {inner : Expression} {c : Cursor} : Makes ⟨.option inner, c⟩ ⟨inner, c⟩
  | body {name : Text} {rule : Rule} {c : Cursor} (found : c.context.rule? name = some rule)
      (idle : c.isActive rule.name = false) :
      Makes ⟨.reference name, c⟩ ⟨rule.body, c.label rule.name⟩

/-- The node is that of an attempt which `x` makes. -/
def Keeps (x : Attempt) (m : Node) : Prop := ∃ y, x.Makes y ∧ y.node = m

end Attempt

/-- The task is a stage in evaluating the expression at the cursor: what was done before led to
it, and what was gathered are attempts made on the way. -/
def Task.StageOf : Task → Expression → Cursor → Prop
  | expression e, whole, _ => e = whole
  | choices rest attempts, whole, c => ∃ before, whole = .alternation (before ++ rest) ∧
      (∀ x ∈ before, (x.evaluate c).length? = none) ∧ ∀ m ∈ attempts, Attempt.Keeps ⟨whole, c⟩ m
  | sequel rest children n, whole, c => ∃ before, whole = .concatenation (before ++ rest) ∧
      Expression.InRow c before n ∧ ∀ m ∈ children, Attempt.Keeps ⟨whole, c⟩ m
  | rounds bounds operand accepted n, whole, c => whole = .repetition bounds operand ∧
      operand.Rounds c accepted.length n ∧ ∀ m ∈ accepted, Attempt.Keeps ⟨whole, c⟩ m

namespace Runs

open Expression in
/-- Whatever stage a run starts from, the children of its node are attempts of the whole. -/
theorem keeps_children {s : Nat} {task : Task} {c : Cursor} {node : Node}
    (h : Runs Cursor.isActive s task c node) {whole : Expression} (hstage : task.StageOf whole c) :
    ∀ m ∈ node.children, Attempt.Keeps ⟨whole, c⟩ m := by
  have hnone := fun x => List.forall_mem_nil (Attempt.Keeps x)
  induction h generalizing whole with
  | alternation run ih =>
    cases hstage
    exact ih ⟨[], rfl, List.forall_mem_nil _, hnone _⟩
  | choices_end =>
    obtain ⟨before, -, -, hkept⟩ := hstage
    exact hkept
  | choices_hit run hit ih =>
    obtain ⟨before, rfl, hmissed, -⟩ := hstage
    exact List.forall_mem_singleton.mpr ⟨_, .choice hmissed, evaluate_eq_of_runs run⟩
  | choices_miss run miss next ih ihnext =>
    obtain ⟨before, rfl, hmissed, hkept⟩ := hstage
    have hnode := evaluate_eq_of_runs run
    refine ihnext ⟨before ++ [_], by rw [List.append_assoc]; rfl, ?_, ?_⟩
    · refine List.forall_mem_append.mpr ⟨hmissed, List.forall_mem_singleton.mpr ?_⟩
      rw [hnode, miss]
    · exact List.forall_mem_append.mpr
        ⟨hkept, List.forall_mem_singleton.mpr ⟨_, .choice hmissed, hnode⟩⟩
  | concatenation run ih =>
    cases hstage
    exact ih ⟨[], rfl, .nil, hnone _⟩
  | sequel_end =>
    obtain ⟨before, -, -, hkept⟩ := hstage
    exact hkept
  | sequel_stop run miss ih =>
    obtain ⟨before, rfl, hrow, -⟩ := hstage
    exact List.forall_mem_singleton.mpr ⟨_, .operand hrow, evaluate_eq_of_runs run⟩
  | sequel_step run hit next ih ihnext =>
    obtain ⟨before, rfl, hrow, hkept⟩ := hstage
    have hnode := evaluate_eq_of_runs run
    refine ihnext ⟨before ++ [_], by rw [List.append_assoc]; rfl,
      .snoc hrow (by rw [hnode, hit]), ?_⟩
    exact List.forall_mem_append.mpr
      ⟨hkept, List.forall_mem_singleton.mpr ⟨_, .operand hrow, hnode⟩⟩
  | repetition run ih =>
    cases hstage
    exact ih ⟨rfl, .zero, hnone _⟩
  | rounds_full full =>
    obtain ⟨rfl, -, hkept⟩ := hstage
    simp only [Matcher.settle]
    split
    · exact hkept
    · exact hnone _
  | rounds_failed more run miss ih =>
    obtain ⟨rfl, hrounds, hkept⟩ := hstage
    simp only [Matcher.settle]
    split
    · exact hkept
    · exact List.forall_mem_singleton.mpr ⟨_, .round hrounds more, evaluate_eq_of_runs run⟩
  | rounds_idle more run hit ih =>
    obtain ⟨rfl, hrounds, hkept⟩ := hstage
    simp only [Matcher.settle]
    split
    · exact List.forall_mem_append.mpr ⟨hkept, List.forall_mem_singleton.mpr
        ⟨_, .round hrounds more, evaluate_eq_of_runs run⟩⟩
    · exact hnone _
  | rounds_step more run hit next ih ihnext =>
    obtain ⟨rfl, hrounds, hkept⟩ := hstage
    have hnode := evaluate_eq_of_runs run
    refine ihnext ⟨rfl, ?_, List.forall_mem_append.mpr
      ⟨hkept, List.forall_mem_singleton.mpr ⟨_, .round hrounds more, hnode⟩⟩⟩
    rw [List.length_append, List.length_singleton]
    exact .succ hrounds (by rw [hnode, hit])
  | group run ih =>
    cases hstage
    simp only [Matcher.group]
    split <;> exact List.forall_mem_singleton.mpr ⟨_, .group, evaluate_eq_of_runs run⟩
  | option run ih =>
    cases hstage
    exact List.forall_mem_singleton.mpr ⟨_, .option, evaluate_eq_of_runs run⟩
  | literal =>
    simp only [Matcher.literal]
    split <;> exact hnone _
  | prose => exact hnone _
  | reference_missing missing => exact hnone _
  | reference_refused found refusal => exact hnone _
  | reference found admitted run ih =>
    cases hstage
    simp only [Node.entered]
    split <;>
      exact List.forall_mem_singleton.mpr ⟨_, .body found admitted, evaluate_eq_of_runs run⟩

end Runs

namespace Attempt

/-- The children of a node are attempts which the attempt of the node makes. -/
theorem keeps_of_mem_children {x : Attempt} {m : Node} (h : m ∈ x.node.children) : x.Keeps m := by
  obtain ⟨s, hs⟩ := Expression.runs_evaluate x.expression x.cursor
  exact hs.keeps_children rfl m h

/-- A further attempt is of a smaller expression and has no more room, or it has less room. -/
theorem Makes.decreases {x y : Attempt} (h : x.Makes y) :
    Prod.Lex (· < ·) (· < ·) (y.cursor.room.card, sizeOf y.expression)
      (x.cursor.room.card, sizeOf x.expression) := by
  have hsmaller : ∀ {y x : Attempt}, y.cursor.room.card ≤ x.cursor.room.card →
      sizeOf y.expression < sizeOf x.expression →
      Prod.Lex (· < ·) (· < ·) (y.cursor.room.card, sizeOf y.expression)
        (x.cursor.room.card, sizeOf x.expression) := by
    intro y x hroom hsize
    rcases hroom.lt_or_eq with hlt | heq
    · exact .left _ _ hlt
    · rw [heq]
      exact .right _ hsize
  have hmember : ∀ (before after : List Expression) (e : Expression),
      sizeOf e < sizeOf (before ++ e :: after) :=
    fun before after e => List.sizeOf_lt_of_mem (by simp)
  cases h with
  | @choice before after e c missed =>
    refine hsmaller (le_refl _) ?_
    have hsize := hmember before after e
    simp only [Expression.alternation.sizeOf_spec]
    omega
  | @operand before after e c n row =>
    refine hsmaller (Cursor.card_room_moveTo_le row.covers) ?_
    have hsize := hmember before after e
    simp only [Expression.concatenation.sizeOf_spec]
    omega
  | round rounds more =>
    refine hsmaller (Cursor.card_room_moveTo_le rounds.covers) ?_
    simp only [Expression.repetition.sizeOf_spec]
    omega
  | group =>
    refine hsmaller (le_refl _) ?_
    simp only [Expression.group.sizeOf_spec]
    omega
  | option =>
    refine hsmaller (le_refl _) ?_
    simp only [Expression.option.sizeOf_spec]
    omega
  | body found idle => exact .left _ _ (Cursor.card_room_label_lt found idle)

theorem wellFounded_makes : WellFounded fun y x : Attempt => x.Makes y := by
  have hlex : WellFounded (Prod.Lex (· < · : Nat → Nat → Prop) (· < · : Nat → Nat → Prop)) :=
    WellFounded.prod_lex Nat.lt_wfRel.wf Nat.lt_wfRel.wf
  exact Subrelation.wf Makes.decreases
    (InvImage.wf (fun x : Attempt => (x.cursor.room.card, sizeOf x.expression)) hlex)

/-- Evaluation comes to an end, whatever the rules, the expression and the cursor are: attempts
cannot make further attempts without end, and there is exactly one run, with finitely many calls
and rounds, which returns the node that the evaluator gives. -/
theorem evaluate_terminates :
    (WellFounded fun y x : Attempt => x.Makes y) ∧
    ∀ (e : Expression) (c : Cursor), ∃ steps, ∀ s node,
      Runs Cursor.isActive s (.expression e) c node ↔ s = steps ∧ node = e.evaluate c := by
  refine ⟨wellFounded_makes, fun e c => ?_⟩
  obtain ⟨steps, hsteps⟩ := Expression.runs_evaluate e c
  refine ⟨steps, fun s node => ⟨fun h => h.deterministic hsteps, ?_⟩⟩
  rintro ⟨rfl, rfl⟩
  exact hsteps

end Attempt

end AugmentedBnf
