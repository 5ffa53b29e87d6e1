import AugmentedBnf.Text.Numeral

/-! # Documents

A document is the data that the JSON and YAML notations share.
-/
namespace AugmentedBnf

/-- A tree of data. Numbers are kept as they are spelled. -/
inductive Document where
  | null
  | flag (value : Bool)
  | number (digits : Text)
  | text (value : Text)
  | list (items : List Document)
  | record (fields : List (Text × Document))

namespace Document

/-- The document of a name. -/
def ofName (name : String) : Document := text name.toList

/-- The document of a natural number. -/
def ofNat (n : Nat) : Document := number (Text.decimal n)

/-- The document of a value that may be missing. -/
def ofOption {α : Type} (document : α → Document) : Option α → Document
  | some value => document value
  | none => null

/-- A record from names and values. -/
def ofFields (fields : List (String × Document)) : Document :=
  record (fields.map fun (name, value) => (name.toList, value))

end Document

end AugmentedBnf
