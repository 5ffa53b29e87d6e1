import AugmentedBnf.Charset
import AugmentedBnf.Text.Casing
import AugmentedBnf.Token.Stream

/-! # Terminal values

A literal is a list of charsets, one for each character it matches. Numeric values and quoted
strings are both read into this form.
-/
namespace AugmentedBnf

/-- The charsets that successive characters must lie in. -/
structure Literal where
  positions : List Charset
  deriving DecidableEq

namespace Literal

/-- Exactly the characters of a pattern. -/
def sensitive (pattern : Text) : Literal := ⟨pattern.map fun c => .ofList [c]⟩

/-- A case mapping of exactly one character; any other mapping counts for nothing. -/
def singleMapping : Text → List Char
  | [c] => [c]
  | _ => []

/-- A character together with its upper and lower case, where these are single characters. -/
def eitherCase (c : Char) : Charset :=
  .ofList (c :: singleMapping (Text.lowerChar c) ++ singleMapping (Text.upperChar c))

/-- The characters of a pattern in any mixture of cases. -/
def insensitive (pattern : Text) : Literal := ⟨pattern.map eitherCase⟩

/-- The largest code point a numeric value may spell. -/
def maxCode : Nat := 255

/-- A 32-bit number in a radix. -/
def value (radix : Nat) (digits : Text) : Except CompileError Nat :=
  match Text.unsigned? radix Text.limit32 digits with
  | some n => .ok n
  | none => .error (.invalidNumber digits)

/-- The ends of a segment `start` or `start-stop`; the first dash divides them. -/
def ends (radix : Nat) (segment : Text) : Except CompileError (Nat × Nat) :=
  match Text.splitOnce? '-' segment with
  | none => do
    let n ← value radix segment
    return (n, n)
  | some (start, stop) => do
    let first ← value radix start
    let last ← value radix stop
    return (first, last)

/-- The charset of one segment of the numeric literal `whole`. -/
def segment (radix : Nat) (whole part : Text) : Except CompileError Charset := do
  let (first, last) ← ends radix part
  if last < first ∨ maxCode < last then throw (.invalidRange whole)
  return .range first last

/-- A numeric literal: two bytes of base mark, then segments between points. -/
def numeric (radix : Nat) (whole : Text) : Except CompileError Literal := do
  let sets ← (Text.splitAt '.' ((whole.dropBytes? 2).getD [])).mapM (segment radix whole)
  return ⟨sets⟩

/-- The text between the quotes of a quoted lexeme, after a case mark of `mark` bytes. -/
def unquote (mark : Nat) (lexeme : Text) : Text := lexeme.inside (mark + 1) 1

/-- The literal that a lexeme spells, if its kind spells one. -/
def ofLexeme? : Token.Kind → Text → Option (Except CompileError Literal)
  | .binary, text => some (numeric 2 text)
  | .decimal, text => some (numeric 10 text)
  | .hexadecimal, text => some (numeric 16 text)
  | .quoted, text => some (.ok (insensitive (unquote 0 text)))
  | .insensitiveQuoted, text => some (.ok (insensitive (unquote 2 text)))
  | .sensitiveQuoted, text => some (.ok (sensitive (unquote 2 text)))
  | _, _ => none

/-- Reads the token of a terminal value. -/
def read : Reader Literal := fun stream =>
  match stream.tokens with
  | [] => .error .unexpectedEnd stream
  | token :: rest =>
    match ofLexeme? token.kind token.text with
    | none => .error (.unsupportedToken token.kind token.offset) stream
    | some (.ok literal) => .ok literal { stream with tokens := rest }
    | some (.error cause) => .error cause { stream with tokens := rest }

/-- The positions in grammar notation, one after the other. -/
def render (literal : Literal) : Text := Text.join [' '] (literal.positions.map Charset.render)

/-- The number of bytes that the charsets match at the start of a text: each of the next
characters must lie in the charset at its place. -/
def matchSets? : List Charset → Text → Option Nat
  | [], _ => some 0
  | _ :: _, [] => none
  | set :: sets, c :: rest =>
    if set.contains c then (matchSets? sets rest).map (c.utf8Size + ·) else none

/-- The number of bytes the literal matches at the start of a text. -/
def match? (literal : Literal) (t : Text) : Option Nat := matchSets? literal.positions t

end Literal

end AugmentedBnf
