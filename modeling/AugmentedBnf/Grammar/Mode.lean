import AugmentedBnf.Text.Casing

/-! # Line endings of grammar text -/
namespace AugmentedBnf

/-- How line endings of grammar text are read. -/
inductive Mode where
  /-- The text is taken as it is. -/
  | strict
  /-- Every line ending becomes a carriage return and a line feed. -/
  | lenient
  deriving DecidableEq

namespace Mode

/-- The mode in use when none is chosen. -/
def default : Mode := lenient

/-- The name of a mode. -/
def name : Mode → String
  | strict => "strict"
  | lenient => "lenient"

/-- The mode with exactly this name. -/
def ofName? (text : String) : Option Mode := [strict, lenient].find? fun mode => mode.name == text

/-- A text in which every line feed has a carriage return in front. -/
def normalizeLines : Text → Text
  | [] => []
  | [c] => if c = '\n' then ['\r', '\n'] else [c]
  | c :: d :: rest =>
    if c = '\r' ∧ d = '\n' then '\r' :: '\n' :: normalizeLines rest
    else if c = '\n' then '\r' :: '\n' :: normalizeLines (d :: rest)
    else c :: normalizeLines (d :: rest)

/-- The text as a mode reads it. -/
def normalize : Mode → Text → Text
  | strict, source => source
  | lenient, source => normalizeLines source

end Mode

/-- A name of a mode that there is none of, in lower case. -/
structure UnknownMode where
  text : Text
  deriving DecidableEq

/-- The wording of a refused mode. -/
def UnknownMode.message (cause : UnknownMode) : String :=
  s!"unknown mode '{String.ofList cause.text}', expected strict or lenient"

/-- The mode with a name, in any case. -/
def Mode.read (text : Text) : Except UnknownMode Mode :=
  match Mode.ofName? (String.ofList text.lower) with
  | some mode => .ok mode
  | none => .error ⟨text.lower⟩

end AugmentedBnf
