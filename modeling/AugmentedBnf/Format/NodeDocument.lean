import AugmentedBnf.Document.Basic
import AugmentedBnf.Evaluation.Node

/-! # Trees as documents

A node becomes a record of its kind, place, path, outcome, matched text and children.
-/
namespace AugmentedBnf.Node

/-- The document of an outcome. -/
def outcomeDocument : Outcome → Document
  | .success length => .ofFields [("type", .ofName "success"), ("length", .ofNat length)]
  | .failure reason => .ofFields [("type", .ofName "failure"), ("reason", .ofName reason.name)]

mutual
/-- The document of a tree. -/
def document : Node → Document
  | ⟨cursor, kind, outcome, children⟩ =>
    .ofFields [
      ("kind", .ofName kind.name),
      ("index", .ofNat cursor.index),
      ("path", .list (cursor.path.segments.map .text)),
      ("outcome", outcomeDocument outcome),
      ("text", .ofOption .text (outcome.length?.map cursor.window)),
      ("children", .list (documents children))]

/-- The documents of some trees. -/
def documents : List Node → List Document
  | [] => []
  | node :: rest => document node :: documents rest
end

end AugmentedBnf.Node
