import Mathlib.Data.List.Forall2
import AugmentedBnf.Evaluation.Basic

/-! # The operators one by one

What each operator makes of the nodes of its operands, and the induction on expressions that
goes with it. Nothing here depends on how rules are entered.
-/
namespace AugmentedBnf

/-- What holds of both images of each member holds of the mapped lists place by place. -/
theorem forall₂_map_map {α β γ : Type} {R : β → γ → Prop} {f : α → β} {g : α → γ} {xs : List α}
    (h : ∀ x ∈ xs, R (f x) (g x)) : List.Forall₂ R (xs.map f) (xs.map g) := by
  rw [List.forall₂_map_left_iff, List.forall₂_map_right_iff, List.forall₂_same]
  exact h

namespace Node

@[simp] theorem length?_success (c : Cursor) (kind : Expression.Kind) (n : Nat)
    (children : List Node) : (success c kind n children).length? = some n := rfl
@[simp] theorem length?_failure (c : Cursor) (kind : Expression.Kind) (reason : Reason)
    (children : List Node) : (failure c kind reason children).length? = none := rfl
@[simp] theorem reason?_success (c : Cursor) (kind : Expression.Kind) (n : Nat)
    (children : List Node) : (success c kind n children).reason? = none := rfl
@[simp] theorem reason?_failure (c : Cursor) (kind : Expression.Kind) (reason : Reason)
    (children : List Node) : (failure c kind reason children).reason? = some reason := rfl

/-- The node of a reference to a rule that was entered, by what came of the body. -/
def entered (inside : Cursor) (body : Node) : Node :=
  match body.length? with
  | some length => .success inside .reference length [body]
  | none => .failure inside .reference .referenceEvaluationFailed [body]

@[simp] theorem length?_entered (inside : Cursor) (body : Node) :
    (entered inside body).length? = body.length? := by
  unfold entered
  cases h : body.length? <;> rfl

end Node

namespace Expression

/-- Induction on expressions, with the hypothesis for every operand in a list. -/
@[elab_as_elim]
theorem induction {motive : Expression → Prop}
    (alternation : ∀ operands, (∀ e ∈ operands, motive e) → motive (.alternation operands))
    (concatenation : ∀ operands, (∀ e ∈ operands, motive e) → motive (.concatenation operands))
    (repetition : ∀ bounds operand, motive operand → motive (.repetition bounds operand))
    (group : ∀ inner, motive inner → motive (.group inner))
    (option : ∀ inner, motive inner → motive (.option inner))
    (literal : ∀ value, motive (.literal value))
    (reference : ∀ name, motive (.reference name))
    (prose : ∀ text, motive (.prose text)) (e : Expression) : motive e :=
  @Expression.rec motive (fun operands => ∀ e ∈ operands, motive e) alternation concatenation
    repetition group option literal reference prose (fun _ h => absurd h List.not_mem_nil)
    (fun _ _ hhead htail => List.forall_mem_cons.mpr ⟨hhead, htail⟩) e

variable (enter : Expression → Matcher)

theorem matcher_alternation (operands : List Expression) :
    (alternation operands).matcher enter = .alternation (operands.map (matcher enter)) := by
  rw [matcher, matchers_eq_map]

theorem matcher_concatenation (operands : List Expression) :
    (concatenation operands).matcher enter = .concatenation (operands.map (matcher enter)) := by
  rw [matcher, matchers_eq_map]

end Expression

namespace Matcher

theorem length?_alternation_cons (m : Matcher) (operands : List Matcher) (c : Cursor) :
    (alternation (m :: operands) c).length? =
      ((m c).length?).or (alternation operands c).length? := by
  cases hm : (m c).length? with
  | some n => simp only [alternation, firstMatch, hm, Node.length?_success, Option.some_or]
  | none =>
    simp only [alternation, firstMatch, hm, Option.none_or]
    obtain ⟨attempts, found⟩ := firstMatch c operands
    cases found <;> rfl

theorem exists_of_alternation {operands : List Matcher} {c : Cursor} {n : Nat}
    (h : (alternation operands c).length? = some n) : ∃ m ∈ operands, (m c).length? = some n := by
  induction operands with
  | nil => cases h
  | cons m rest ih =>
    rw [length?_alternation_cons, Option.or_eq_some_iff] at h
    rcases h with hm | ⟨-, hrest⟩
    · exact ⟨m, List.mem_cons_self, hm⟩
    · obtain ⟨m', hmem, hm'⟩ := ih hrest
      exact ⟨m', List.mem_cons_of_mem m hmem, hm'⟩

theorem inSequence_of_concatenation {operands : List Matcher} {c : Cursor} {n : Nat}
    (h : (concatenation operands c).length? = some n) :
    ∃ nodes, inSequence c operands 0 = .ok (nodes, n) := by
  unfold concatenation at h
  split at h
  · rename_i nodes total hrun
    cases h
    exact ⟨nodes, hrun⟩
  · cases h

/-- A repetition succeeds if it found enough matches, and then it has their length. -/
theorem length?_settle (min : Nat) (c : Cursor) (iteration : Iteration) :
    (settle min c iteration).length? =
      if min ≤ iteration.matched.length then some iteration.length else none := by
  unfold settle
  cases iteration.halt <;> dsimp only <;> split <;> rfl

theorem length?_group (inner : Matcher) (c : Cursor) :
    (group inner c).length? = (inner c).length? := by
  unfold group
  cases h : (inner c).length? <;> simp [h]

theorem length?_option (inner : Matcher) (c : Cursor) :
    (option inner c).length? = some ((inner c).length?.getD 0) := rfl

theorem length?_literal (value : Literal) (c : Cursor) :
    (literal value c).length? = value.match? c.remaining := by
  unfold literal
  cases h : value.match? c.remaining <;> rfl

variable {enter : Expression → Matcher} {name : Text} {rule : Rule} {c : Cursor}

theorem reference_of_missing (h : c.context.rule? name = none) :
    reference enter name c = .failure c .reference .referenceNotFound [] := by
  simp only [reference, h]

theorem reference_of_active (h : c.context.rule? name = some rule)
    (hactive : c.isActive rule.name = true) :
    reference enter name c = .failure c .reference .referenceCyclicRecursion [] := by
  simp only [reference, h, hactive, if_true]

theorem reference_of_idle (h : c.context.rule? name = some rule)
    (hidle : c.isActive rule.name = false) :
    reference enter name c =
      .entered (c.label rule.name) (enter rule.body (c.label rule.name)) := by
  simp only [reference, h, hidle, Bool.false_eq_true, if_false]
  rfl

/-- A reference that succeeds entered its rule and has the length of the body. -/
theorem exists_of_reference {n : Nat} (h : (reference enter name c).length? = some n) :
    ∃ rule, c.context.rule? name = some rule ∧
      (enter rule.body (c.label rule.name)).length? = some n := by
  cases hrule : c.context.rule? name with
  | none =>
    rw [reference_of_missing hrule] at h
    cases h
  | some rule =>
    cases hactive : c.isActive rule.name with
    | true =>
      rw [reference_of_active hrule hactive] at h
      cases h
    | false =>
      rw [reference_of_idle hrule hactive, Node.length?_entered] at h
      exact ⟨rule, rfl, h⟩

end Matcher

end AugmentedBnf
