import AugmentedBnf.Expression.Basic

/-! # Grammar notation

An expression is written back in grammar notation, with every terminal value in base sixteen.
-/
namespace AugmentedBnf

/-- The count in front of a repeated element. -/
def Bounds.render : Bounds → Text
  | ⟨min, none⟩ => Text.decimal min ++ ['*']
  | ⟨min, some max⟩ =>
    if max = min then Text.decimal min else Text.decimal min ++ '*' :: Text.decimal max

namespace Expression

/-- A text between brackets, with a blank on each side; an empty text leaves one blank. -/
def enclose (left : Char) (inner : Text) (right : Char) : Text :=
  if inner.isEmpty then [left, ' ', right] else left :: ' ' :: inner ++ [' ', right]

mutual
/-- An expression in grammar notation. -/
def render : Expression → Text
  | alternation operands => Text.join [' ', '/', ' '] (renderAll operands)
  | concatenation operands => Text.join [' '] (renderAll operands)
  | repetition bounds operand => bounds.render ++ render operand
  | group inner => enclose '(' (render inner) ')'
  | option inner => enclose '[' (render inner) ']'
  | literal value => value.render
  | reference name => name
  | prose text => '<' :: text ++ ['>']

/-- Each of some expressions in grammar notation. -/
def renderAll : List Expression → List Text
  | [] => []
  | operand :: rest => render operand :: renderAll rest
end

theorem renderAll_eq_map (operands : List Expression) : renderAll operands = operands.map render := by
  induction operands with
  | nil => rfl
  | cons operand rest ih => simp [renderAll, ih]

end Expression

end AugmentedBnf
