import AugmentedBnf.Evaluation.Cursor

/-! # Trees of attempts

A node records the evaluation of one expression at one place: what came of it and the
evaluations it rests on. A failed match is an outcome like any other.
-/
namespace AugmentedBnf

/-- Why an evaluation failed. -/
inductive Reason where
  | alternationNoMatch
  | concatenationInvalidSequence
  | literalCharsetMismatch
  | repetitionBelowMinimum
  | repetitionNoProgress
  | proseNotEvaluable
  | referenceNotFound
  | referenceEvaluationFailed
  | referenceCyclicRecursion
  | groupExpressionFailed
  deriving DecidableEq

namespace Reason

/-- Every reason. -/
def all : List Reason :=
  [alternationNoMatch, concatenationInvalidSequence, literalCharsetMismatch,
    repetitionBelowMinimum, repetitionNoProgress, proseNotEvaluable, referenceNotFound,
    referenceEvaluationFailed, referenceCyclicRecursion, groupExpressionFailed]

/-- The name of a reason in output. -/
def name : Reason → String
  | alternationNoMatch => "ALTERNATION_NO_MATCH"
  | concatenationInvalidSequence => "CONCATENATION_INVALID_SEQUENCE"
  | literalCharsetMismatch => "LITERAL_CHARSET_MISMATCH"
  | repetitionBelowMinimum => "REPETITION_BELOW_MINIMUM"
  | repetitionNoProgress => "REPETITION_NO_PROGRESS"
  | proseNotEvaluable => "PROSE_NOT_EVALUABLE"
  | referenceNotFound => "REFERENCE_NOT_FOUND"
  | referenceEvaluationFailed => "REFERENCE_EVALUATION_FAILED"
  | referenceCyclicRecursion => "REFERENCE_CYCLIC_RECURSION"
  | groupExpressionFailed => "GROUP_EXPRESSION_FAILED"

/-- The name of a reason in messages of failed assertions. -/
def title : Reason → String
  | alternationNoMatch => "AlternationNoMatch"
  | concatenationInvalidSequence => "ConcatenationInvalidSequence"
  | literalCharsetMismatch => "LiteralCharsetMismatch"
  | repetitionBelowMinimum => "RepetitionBelowMinimum"
  | repetitionNoProgress => "RepetitionNoProgress"
  | proseNotEvaluable => "ProseNotEvaluable"
  | referenceNotFound => "ReferenceNotFound"
  | referenceEvaluationFailed => "ReferenceEvaluationFailed"
  | referenceCyclicRecursion => "ReferenceCyclicRecursion"
  | groupExpressionFailed => "GroupExpressionFailed"

/-- The reason with a given name. -/
def ofName? (text : String) : Option Reason := all.find? fun reason => reason.name == text

theorem mem_all (reason : Reason) : reason ∈ all := by cases reason <;> decide

end Reason

/-- What came of an evaluation: the number of bytes matched, or why nothing matched. -/
inductive Outcome where
  | success (length : Nat)
  | failure (reason : Reason)
  deriving DecidableEq

namespace Outcome

/-- The number of bytes matched. -/
def length? : Outcome → Option Nat
  | success length => some length
  | failure _ => none

/-- Why nothing matched. -/
def reason? : Outcome → Option Reason
  | success _ => none
  | failure reason => some reason

/-- Whether something matched. -/
def isSuccess : Outcome → Bool
  | success _ => true
  | failure _ => false

/-- An outcome in messages of failed assertions. -/
def describe : Outcome → String
  | success length => s!"Success \x7b length: {length} \x7d"
  | failure reason => s!"Failure \x7b reason: {reason.title} \x7d"

end Outcome

/-- The evaluation of one expression at one place. -/
structure Node where
  cursor : Cursor
  kind : Expression.Kind
  outcome : Outcome
  children : List Node

namespace Node

/-- The node of an evaluation that matched. -/
def success (cursor : Cursor) (kind : Expression.Kind) (length : Nat) (children : List Node) : Node :=
  ⟨cursor, kind, .success length, children⟩

/-- The node of an evaluation that did not match. -/
def failure (cursor : Cursor) (kind : Expression.Kind) (reason : Reason) (children : List Node) : Node :=
  ⟨cursor, kind, .failure reason, children⟩

/-- The number of bytes matched. -/
def length? (node : Node) : Option Nat := node.outcome.length?

/-- Why nothing matched. -/
def reason? (node : Node) : Option Reason := node.outcome.reason?

/-- Whether something matched. -/
def isSuccess (node : Node) : Bool := node.outcome.isSuccess

/-- The offset at which the evaluation started. -/
def index (node : Node) : Nat := node.cursor.index

/-- The rules entered to reach the node. -/
def path (node : Node) : Path := node.cursor.path

/-- The matched input. -/
def text? (node : Node) : Option Text := node.length?.map node.cursor.window

mutual
/-- The node and all nodes below it, parents before children. -/
def preorder : Node → List Node
  | ⟨cursor, kind, outcome, children⟩ =>
    ⟨cursor, kind, outcome, children⟩ :: preorderAll children

/-- The nodes of some trees, one tree after the other. -/
def preorderAll : List Node → List Node
  | [] => []
  | node :: rest => preorder node ++ preorderAll rest
end

end Node

end AugmentedBnf
