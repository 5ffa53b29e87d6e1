import AugmentedBnf.Evaluation.ActiveNames
import AugmentedBnf.Evaluation.Path
import AugmentedBnf.Grammar.Rule

/-! # Where an evaluation stands

A cursor is a place in the input together with the rules entered so far. It also records which
rule was entered at which offset: a rule that is being evaluated at an offset is not entered
again at the same offset.
-/
namespace AugmentedBnf

/-- The input and the rules of one evaluation. -/
structure Context where
  input : Text
  rules : RuleTable

namespace Context

/-- The rule with exactly this key. -/
def rule? (context : Context) (key : Text) : Option Rule := context.rules.find? key

/-- The bytes of the input from `index` on, at most `length` of them; nothing where a cut would
divide a character. -/
def window (context : Context) (index length : Nat) : Text :=
  let stop := min (index + length) context.input.byteSize
  (context.input.slice? (min index stop) stop).getD []

/-- A one-line summary. -/
def describe (context : Context) : String :=
  "Context \x7b input: " ++ String.ofList (Text.quoted context.input) ++
    s!", rules: {context.rules.size} \x7d"

end Context

/-- A place in the input, the rules entered to reach it, and the names active at each offset. -/
structure Cursor where
  context : Context
  index : Nat
  depth : Nat
  path : Path
  active : ActiveNames

namespace Cursor

/-- A cursor at which no name is active. -/
def new (context : Context) (index depth : Nat) (path : Path) : Cursor :=
  ⟨context, index, depth, path, .empty⟩

/-- The cursor with which the evaluation of a rule starts. -/
def start (name : Text) (context : Context) : Cursor := new context 0 0 (Path.empty.fork name)

/-- The cursor moved to an offset. -/
def moveTo (cursor : Cursor) (index : Nat) : Cursor := { cursor with index }

/-- The cursor inside a rule: its name is appended to the path and active at the offset. -/
def label (cursor : Cursor) (name : Text) : Cursor :=
  let names := (cursor.active.get? cursor.index).getD .empty
  { cursor with
    depth := cursor.depth + 1
    path := cursor.path.fork name
    active := cursor.active.insert cursor.index (names.insert name) }

/-- Whether a name is active at the offset of the cursor. -/
def isActive (cursor : Cursor) (name : Text) : Bool :=
  (cursor.active.get? cursor.index).any fun names => names.contains name

/-- At most `length` bytes of the input at the cursor. -/
def window (cursor : Cursor) (length : Nat) : Text := cursor.context.window cursor.index length

/-- The input from the cursor on; nothing past the end or inside a character. -/
def remaining (cursor : Cursor) : Text := (cursor.context.input.dropBytes? cursor.index).getD []

/-- A one-line summary. -/
def describe (cursor : Cursor) : String :=
  s!"Cursor \x7b index: {cursor.index}, depth: {cursor.depth}, path: " ++
    String.ofList cursor.path.describe ++ " \x7d"

theorem isActive_iff {cursor : Cursor} {name : Text} :
    cursor.isActive name = true ↔ (cursor.index, name) ∈ cursor.active := by
  rw [isActive, ActiveNames.mem_iff, Option.any_eq_true]
  simp only [NameSet.contains_iff]

theorem isActive_moveTo_iff {cursor : Cursor} {index : Nat} {name : Text} :
    (cursor.moveTo index).isActive name = true ↔ (index, name) ∈ cursor.active := isActive_iff

/-- A label makes its name active at the offset of the cursor, next to all names that are active. -/
theorem mem_active_label {cursor : Cursor} {name : Text} {entry : Nat × Text} :
    entry ∈ (cursor.label name).active ↔ entry = (cursor.index, name) ∨ entry ∈ cursor.active :=
  ActiveNames.mem_insert_iff

end Cursor

end AugmentedBnf
