import AugmentedBnf.Evaluation.Matcher
import AugmentedBnf.Grammar.Basic

/-! # Evaluating expressions

An expression is evaluated by the matchers of its operators. A rule may only be entered once at
each offset, so the number of rules times the number of offsets bounds how deep rules nest.
-/
namespace AugmentedBnf

namespace Expression

mutual
/-- The matcher of an expression, given how the body of a rule is evaluated. -/
def matcher (enter : Expression → Matcher) : Expression → Matcher
  | alternation operands => .alternation (matchers enter operands)
  | concatenation operands => .concatenation (matchers enter operands)
  | repetition bounds operand => .repetition bounds (matcher enter operand)
  | group inner => .group (matcher enter inner)
  | option inner => .option (matcher enter inner)
  | literal value => .literal value
  | reference name => .reference enter name
  | prose _ => .prose

/-- The matchers of some expressions. -/
def matchers (enter : Expression → Matcher) : List Expression → List Matcher
  | [] => []
  | operand :: rest => matcher enter operand :: matchers enter rest
end

/-- Evaluates an expression in which rules nest less than `depth` deep. -/
def evaluateWithin : (depth : Nat) → Expression → Matcher
  | 0, expression => fun cursor => .failure cursor expression.kind .referenceCyclicRecursion []
  | depth + 1, expression => expression.matcher (evaluateWithin depth)

/-- A bound on the nesting of rules: each rule once at each offset from the cursor on. -/
def nestingBound (cursor : Cursor) : Nat :=
  cursor.context.rules.size * (cursor.remaining.length + 1) + 1

/-- Evaluates an expression at a cursor. -/
def evaluate (expression : Expression) (cursor : Cursor) : Node :=
  expression.evaluateWithin (nestingBound cursor) cursor

theorem matchers_eq_map (enter : Expression → Matcher) (operands : List Expression) :
    matchers enter operands = operands.map (matcher enter) := by
  induction operands with
  | nil => rfl
  | cons operand rest ih => simp [matchers, ih]

end Expression

namespace Rule

/-- Evaluates a rule from the start of an input, with its references looked up in a table. -/
def evaluateIn (rule : Rule) (rules : RuleTable) (input : Text) : Node :=
  rule.body.evaluate (.start rule.name ⟨input, rules⟩)

end Rule

namespace Grammar

/-- Evaluates the rule with a name from the start of an input. -/
def evaluate (grammar : Grammar) (name input : Text) : Except RuleNotFound Node := do
  let rule ← grammar.rule name
  return rule.evaluateIn grammar.rules input

end Grammar

end AugmentedBnf
