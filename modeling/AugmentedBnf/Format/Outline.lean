import AugmentedBnf.Evaluation.Node

/-! # Trees as outlines

An outline has one line for each node, indented by its depth and joined to its parent by lines.
A matched text is shown quoted, a failure by its reason.
-/
namespace AugmentedBnf

/-- How outlines are drawn: how much of a matched text is shown, and whether failed children are
shown at all. -/
structure OutlineStyle where
  labelWidth : Nat
  showFailures : Bool
  deriving DecidableEq

/-- Thirty characters of each text, and all failures. -/
def OutlineStyle.default : OutlineStyle := ⟨30, true⟩

namespace Outline

/-- A text cut off after a number of characters, with three points for what is missing. -/
def truncate (width : Nat) (t : Text) : Text :=
  if width < t.length then t.take width ++ ['.', '.', '.'] else t

/-- What came of an evaluation: the matched text, or why nothing matched. -/
def label (width : Nat) (cursor : Cursor) : Outcome → Text
  | .success length => Text.quoted (truncate width (cursor.window length))
  | .failure reason => '✗' :: ' ' :: reason.name.toList

/-- The name of the rule that a reference entered. -/
def ruleName (cursor : Cursor) : Expression.Kind → Text
  | .reference =>
    match cursor.path.tail? with
    | some tail => ' ' :: tail
    | none => []
  | _ => []

/-- The line that joins a node to its parent. -/
def connector (isLast : Bool) : Text := if isLast then "└─".toList else "├─".toList

/-- What the lines below a node start with. -/
def rail (isLast : Bool) : Text := if isLast then "  ".toList else "│ ".toList

/-- The line of a node, after its margin. -/
def line (width : Nat) (isLast : Bool) (cursor : Cursor) (kind : Expression.Kind)
    (outcome : Outcome) : Text :=
  connector isLast ++ ' ' :: kind.name.toList ++ ruleName cursor kind ++ ' ' :: '@' ::
    Text.decimal cursor.index ++ ':' :: ' ' :: label width cursor outcome ++ ['\n']

mutual
/-- The lines of a tree. -/
def nodeLines (style : OutlineStyle) (margin : Text) (isLast : Bool) : Node → Text
  | ⟨cursor, kind, outcome, children⟩ =>
    margin ++ line style.labelWidth isLast cursor kind outcome ++
      childLines style (margin ++ rail isLast) children

/-- The lines of the children of a node; the last that is shown closes the rail. -/
def childLines (style : OutlineStyle) (margin : Text) : List Node → Text
  | [] => []
  | node :: rest =>
    if style.showFailures || node.isSuccess then
      let isLast := rest.all fun other => !(style.showFailures || other.isSuccess)
      nodeLines style margin isLast node ++ childLines style margin rest
    else childLines style margin rest
end

/-- The outline of a tree. -/
def render (style : OutlineStyle) (node : Node) : Text := nodeLines style [] true node

end Outline

end AugmentedBnf
