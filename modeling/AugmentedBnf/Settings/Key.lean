import AugmentedBnf.Settings.Setting
import AugmentedBnf.Text.Scan

/-! # Keys of settings

A key is a path of names and positions: `output.format`, `items[0]`. Names are put in lower
case. Setting a table merges it into the one that is there, setting anything else replaces.
-/
namespace AugmentedBnf

/-- A step of a key below its first name. -/
inductive KeyStep where
  | name (text : Text)
  | position (index : Int)
  deriving DecidableEq

/-- A path to a setting. -/
structure Key where
  first : Text
  steps : List KeyStep
  deriving DecidableEq

namespace Key

/-- The characters of names in keys. -/
def isNameChar (c : Char) : Bool :=
  c.isUpper || c.isLower || c.isDigit || c == ' ' || c == '_' || c == '-'

/-- Reads a whole number that may have a minus sign. -/
def readIndex : Scan Int
  | '-' :: rest => do
    let (digits, after) ← Scan.some1 Char.isDigit rest
    let n ← Text.digits? 10 digits
    if n ≤ 0x8000000000000000 then some (-(n : Int), after) else none
  | t => do
    let (digits, after) ← Scan.some1 Char.isDigit t
    let n ← Text.digits? 10 digits
    if n < 0x8000000000000000 then some ((n : Int), after) else none

/-- The text without blanks at its front. -/
def skipBlanks (t : Text) : Text := t.dropWhile fun c => c == ' ' || c == '\t'

/-- Reads a point and a name, or a position in brackets. -/
def readStep : Scan KeyStep
  | '.' :: rest => (Scan.some1 isNameChar rest).map fun (name, after) => (.name name, after)
  | '[' :: rest => do
    let (index, after) ← readIndex (skipBlanks rest)
    let after ← Scan.word? [']'] (skipBlanks after)
    return (.position index, after)
  | _ => none

/-- The steps that a text spells. The count bounds their number. -/
def steps? : (count : Nat) → Text → Option (List KeyStep)
  | _, [] => some []
  | 0, _ :: _ => none
  | count + 1, c :: rest => do
    let (step, after) ← readStep (c :: rest)
    return step :: (← steps? count after)

/-- The key that a text spells. -/
def ofText? (t : Text) : Option Key := do
  let (first, after) ← Scan.some1 isNameChar t
  return ⟨first, ← steps? after.length after⟩

/-- The key of a name of any form. -/
def ofName (name : Text) : Key := ⟨name, []⟩

end Key

namespace Setting

/-- Puts a value in the place of the one with its name, or at the end of the entries. -/
def placeEntry (name : Text) (value : Setting) : List (Text × Setting) → List (Text × Setting)
  | [] => [(name, value)]
  | (other, old) :: rest =>
    if other = name then (name, value) :: rest else (other, old) :: placeEntry name value rest

/-- The entries of a table; anything else has none. -/
def entries : Setting → List (Text × Setting)
  | table entries => entries
  | _ => []

/-- The items of a list; anything else has none. -/
def items : Setting → List Setting
  | list items => items
  | _ => []

/-- Changes the entry of a name in a table; without one there is nothing to change. -/
def modifyEntry (name : Text) (change : Option Setting → Setting) (root : Setting) : Setting :=
  let name := Text.lower name
  table (placeEntry name (change (root.entries.lookup name)) root.entries)

/-- Changes the item at a position of a list, which is made long enough. A negative position counts
from the end. -/
def modifyItem (index : Int) (change : Option Setting → Setting) (root : Setting) : Setting :=
  let length := root.items.length
  let position := if 0 ≤ index then index.toNat else length - index.natAbs
  let padded := root.items ++ List.replicate (position + 1 - length) nothing
  list (padded.set position (change padded[position]?))

mutual
/-- Sets a value under a name: a table is merged entry by entry, anything else replaces. -/
def assign (name : Text) : Setting → Setting → Setting
  | table added, root =>
    modifyEntry name (fun old => mergeInto added (old.getD (table []))) root
  | value, root => modifyEntry name (fun _ => value) root

/-- Sets each of some entries in a table. -/
def mergeInto : List (Text × Setting) → Setting → Setting
  | [], root => root
  | (name, value) :: rest, root => mergeInto rest (assign name value root)
end

/-- Sets a value at the end of some steps below a setting. -/
def assignBelow (value : Setting) : KeyStep → List KeyStep → Setting → Setting
  | .name name, [], root => assign name value root
  | .position index, [], root => modifyItem index (fun _ => value) root
  | .name name, step :: rest, root =>
    modifyEntry name (fun old => assignBelow value step rest (old.getD nothing)) root
  | .position index, step :: rest, root =>
    modifyItem index (fun old => assignBelow value step rest (old.getD nothing)) root

/-- Sets a value under a key. -/
def assignKey (root : Setting) (key : Key) (value : Setting) : Setting :=
  assignBelow value (.name key.first) key.steps root

end Setting

end AugmentedBnf
