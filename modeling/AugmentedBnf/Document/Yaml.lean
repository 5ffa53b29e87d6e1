import AugmentedBnf.Document.Json
import AugmentedBnf.Document.YamlScalar

/-! # Documents in YAML notation

Records and lists are written as blocks, one field or item on a line. A list under a key is not
indented any further than the key.
-/
namespace AugmentedBnf.Document.Yaml

/-- A scalar up to the end of its line. -/
def scalarLine (indent : Nat) (t : Text) : Text :=
  let (written, ended) := scalar indent t
  if ended then written else written ++ ['\n']

mutual
/-- A value after its key, in a record that is indented by `indent`. -/
def afterKey (indent : Nat) : Document → Text
  | .null => " null\n".toList
  | .flag value => ' ' :: flagText value ++ ['\n']
  | .number digits => ' ' :: digits ++ ['\n']
  | .text value => ' ' :: scalarLine (indent + 2) value
  | .list [] => " []\n".toList
  | .list items => '\n' :: itemLines indent items
  | .record [] => " \x7b\x7d\n".toList
  | .record fields =>
    '\n' :: List.replicate (indent + 2) ' ' ++ fieldLines (indent + 2) fields

/-- A value after the dash of an item, in a list that is indented by `indent`. -/
def afterDash (indent : Nat) : Document → Text
  | .null => "null\n".toList
  | .flag value => flagText value ++ ['\n']
  | .number digits => digits ++ ['\n']
  | .text value => scalarLine (indent + 2) value
  | .list [] => "[]\n".toList
  | .list (item :: rest) =>
    '-' :: ' ' :: afterDash (indent + 2) item ++ itemLines (indent + 2) rest
  | .record [] => "\x7b\x7d\n".toList
  | .record fields => fieldLines (indent + 2) fields

/-- The fields of a record; the line of the first is already indented. -/
def fieldLines (indent : Nat) : List (Text × Document) → Text
  | [] => []
  | [(key, value)] => (scalar indent key).1 ++ ':' :: afterKey indent value
  | (key, value) :: rest =>
    (scalar indent key).1 ++ ':' :: afterKey indent value ++
      (List.replicate indent ' ' ++ fieldLines indent rest)

/-- The items of a list, each on indented lines of its own. -/
def itemLines (indent : Nat) : List Document → Text
  | [] => []
  | item :: rest =>
    List.replicate indent ' ' ++ '-' :: ' ' :: afterDash indent item ++ itemLines indent rest
end

/-- A whole document. -/
def render : Document → Text
  | .null => "null\n".toList
  | .flag value => flagText value ++ ['\n']
  | .number digits => digits ++ ['\n']
  | .text value => scalarLine 2 value
  | .list [] => "[]\n".toList
  | .list items => itemLines 0 items
  | .record [] => "\x7b\x7d\n".toList
  | .record fields => fieldLines 0 fields

end AugmentedBnf.Document.Yaml
