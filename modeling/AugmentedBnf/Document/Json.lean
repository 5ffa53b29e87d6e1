import AugmentedBnf.Document.Basic

/-! # Documents in JSON notation

The compact form has no blanks. The wide form puts each item on a line of its own and indents by
two blanks.
-/
namespace AugmentedBnf.Document

/-- How a character is written inside a JSON string. -/
def jsonChar (c : Char) : Text :=
  if c = '"' then ['\\', '"']
  else if c = '\\' then ['\\', '\\']
  else if c = '\x08' then ['\\', 'b']
  else if c = '\x0c' then ['\\', 'f']
  else if c = '\n' then ['\\', 'n']
  else if c = '\r' then ['\\', 'r']
  else if c = '\t' then ['\\', 't']
  else if c.toNat < 32 then ['\\', 'u'] ++ (Text.hexDigits 4 c.toNat).map Char.toLower
  else [c]

/-- A text as a JSON string. -/
def jsonText (t : Text) : Text := '"' :: t.flatMap jsonChar ++ ['"']

/-- The word for a truth value. -/
def flagText (value : Bool) : Text := if value then "true".toList else "false".toList

mutual
/-- A document in JSON notation without blanks. -/
def compact : Document → Text
  | null => "null".toList
  | flag value => flagText value
  | number digits => digits
  | text value => jsonText value
  | list items => '[' :: Text.join [','] (compactItems items) ++ [']']
  | record fields => '\x7b' :: Text.join [','] (compactFields fields) ++ ['\x7d']

/-- The items of a list without blanks. -/
def compactItems : List Document → List Text
  | [] => []
  | item :: rest => compact item :: compactItems rest

/-- The fields of a record without blanks. -/
def compactFields : List (Text × Document) → List Text
  | [] => []
  | (key, value) :: rest => (jsonText key ++ ':' :: compact value) :: compactFields rest
end

/-- Parts between brackets, each on a line of its own; without parts only the brackets. -/
def jsonLines (left : Char) (parts : List Text) (right : Char) (indent : Nat) : Text :=
  if parts.isEmpty then [left, right]
  else
    let margin := List.replicate (indent + 2) ' '
    left :: '\n' :: Text.join [',', '\n'] (parts.map (margin ++ ·)) ++
      '\n' :: List.replicate indent ' ' ++ [right]

mutual
/-- A document in JSON notation over several lines, of which the first is already indented. -/
def wideFrom (indent : Nat) : Document → Text
  | null => "null".toList
  | flag value => flagText value
  | number digits => digits
  | text value => jsonText value
  | list items => jsonLines '[' (wideItems (indent + 2) items) ']' indent
  | record fields => jsonLines '\x7b' (wideFields (indent + 2) fields) '\x7d' indent

/-- The items of a list over several lines. -/
def wideItems (indent : Nat) : List Document → List Text
  | [] => []
  | item :: rest => wideFrom indent item :: wideItems indent rest

/-- The fields of a record over several lines. -/
def wideFields (indent : Nat) : List (Text × Document) → List Text
  | [] => []
  | (key, value) :: rest =>
    (jsonText key ++ ':' :: ' ' :: wideFrom indent value) :: wideFields indent rest
end

/-- A document in JSON notation over several lines. -/
def wide (document : Document) : Text := wideFrom 0 document

end AugmentedBnf.Document
