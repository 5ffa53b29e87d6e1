import AugmentedBnf.Text.Basic
import AugmentedBnf.Token.Kind

/-! # Why grammar text is refused -/
namespace AugmentedBnf

/-- The causes for which grammar text is refused. Offsets count bytes of the text. -/
inductive CompileError where
  /-- No token starts at the offset. -/
  | unexpectedCharacter (offset : Nat)
  /-- A token of one kind was needed where another one, or none, stands. -/
  | expected (wanted : Token.Kind) (found : Option Token.Kind) (offset : Nat)
  /-- The text ends where an element was needed. -/
  | unexpectedEnd
  /-- A token that starts no element stands where an element was needed. -/
  | unsupportedToken (kind : Token.Kind) (offset : Nat)
  /-- A numeric value has its ends in the wrong order or is too large. -/
  | invalidRange (literal : Text)
  /-- A number does not fit its width. -/
  | invalidNumber (text : Text)
  deriving DecidableEq

namespace CompileError

/-- The wording of a refusal. -/
def message : CompileError → String
  | unexpectedCharacter offset => s!"cannot tokenize grammar source at offset {offset}"
  | expected wanted found offset =>
    let seen := match found with
      | some kind => kind.name
      | none => "end of input"
    s!"expected {wanted.name} at offset {offset}, found {seen}"
  | unexpectedEnd => "unexpected end of grammar source"
  | unsupportedToken kind offset => s!"unsupported token {kind.name} at offset {offset}"
  | invalidRange literal => "invalid num-val range in " ++ String.ofList literal
  | invalidNumber text => "invalid number " ++ String.ofList text

end CompileError

end AugmentedBnf
