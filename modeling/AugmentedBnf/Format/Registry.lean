import AugmentedBnf.Document.Yaml
import AugmentedBnf.Format.NodeDocument
import AugmentedBnf.Format.Outline

/-! # Output formats by name -/
namespace AugmentedBnf

/-- Why a tree was not written. -/
inductive FormatError where
  /-- There is no format of this name. -/
  | notFound (name : String)
  /-- The format refused the tree. -/
  | refused (detail : String)
  deriving DecidableEq

/-- The wording of a refusal. -/
def FormatError.message : FormatError → String
  | notFound name => s!"format '{name}' not found"
  | refused detail => "serialization error: " ++ detail

/-- A way to write trees. -/
structure Format where
  name : String
  description : String
  write : Node → Except FormatError Text

namespace Format

/-- Outlines in a style. -/
def outline (style : OutlineStyle) : Format where
  name := "treeviz"
  description := "Indented tree, one line per evaluated expression"
  write node := .ok (Outline.render style node)

/-- JSON notation over several lines. -/
def json : Format where
  name := "json"
  description := "Parse tree as JSON"
  write node := .ok node.document.wide

/-- YAML notation. -/
def yaml : Format where
  name := "yaml"
  description := "Parse tree as YAML"
  write node := .ok (Document.Yaml.render node.document)

end Format

/-- Formats, of which no two have the same name. -/
structure FormatRegistry where
  formats : List Format

namespace FormatRegistry

/-- The registry without formats. -/
def empty : FormatRegistry := ⟨[]⟩

/-- Adds a format in the place of any other of its name. -/
def register (registry : FormatRegistry) (format : Format) : FormatRegistry :=
  ⟨format :: registry.formats.filter (·.name != format.name)⟩

/-- The format of a name. -/
def find? (registry : FormatRegistry) (name : String) : Option Format :=
  registry.formats.find? (·.name == name)

/-- Whether there is a format of a name. -/
def has (registry : FormatRegistry) (name : String) : Bool := (registry.find? name).isSome

/-- Writes a tree in the format of a name. -/
def write (registry : FormatRegistry) (node : Node) (name : String) : Except FormatError Text :=
  match registry.find? name with
  | some format => format.write node
  | none => .error (.notFound name)

/-- All names in ascending order. -/
def names (registry : FormatRegistry) : List String :=
  (registry.formats.map (·.name)).mergeSort fun a b => decide (a ≤ b)

/-- Outlines in a style, JSON and YAML. -/
def standard (style : OutlineStyle) : FormatRegistry :=
  ((empty.register (.outline style)).register .json).register .yaml

/-- The formats with the usual outlines. -/
def default : FormatRegistry := standard .default

end FormatRegistry

end AugmentedBnf
