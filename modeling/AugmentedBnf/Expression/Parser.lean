import AugmentedBnf.Expression.Basic

/-! # Reading right-hand sides

A right-hand side is read on four levels, loosest first: alternatives between slashes, elements
in sequence, an element with its count, and single elements, of which groups and options hold a
right-hand side again. What a level returns to the one above is simplified, so a wrapper around
a single operand never stays.
-/
namespace AugmentedBnf

namespace Expression

/-- The levels of reading. -/
inductive Level where
  | alternation
  | concatenation
  | repetition
  | element
  deriving DecidableEq

namespace Level

/-- Every level, loosest first. -/
def all : List Level := [alternation, concatenation, repetition, element]

/-- The name of a level. -/
def name : Level → String
  | alternation => "Alternation"
  | concatenation => "Concatenation"
  | repetition => "Repetition"
  | element => "Element"

/-- The level on which the operands of a level are read. -/
def next : Level → Level
  | alternation => concatenation
  | concatenation => repetition
  | repetition => element
  | element => alternation

end Level

/-- Reads the rest of a group or option: what stands inside and the closing token. -/
def readEnclosed (inside : Reader Expression) (left right : Token.Kind) : Reader Expression := do
  let _ ← Reader.consume left
  let inner ← inside
  Reader.skip Token.Kind.trivia
  let _ ← Reader.consume right
  return inner

/-- Reads a single element, chosen by its first token. -/
def readElement (inside : Reader Expression) : Reader Expression := do
  Reader.skip Token.Kind.inlineTrivia
  match (← get).peek? with
  | none => throw .unexpectedEnd
  | some token =>
    if token.kind.isLiteral then return literal (← Literal.read)
    else match token.kind with
      | .ident => return reference (Text.upper (← Reader.consume .ident))
      | .leftParen => return group (← readEnclosed inside .leftParen .rightParen)
      | .leftBracket => return option (← readEnclosed inside .leftBracket .rightBracket)
      | .prose => return prose ((← Reader.consume .prose).inside 1 1)
      | kind => throw (.unsupportedToken kind token.offset)

/-- The forms of the count in front of an element. -/
inductive Count where
  /-- `n*m` -/
  | between
  /-- `n*` -/
  | atLeast
  /-- `n` -/
  | exactly
  /-- `*m` -/
  | atMost
  /-- `*` -/
  | anyNumber
  /-- no count -/
  | single
  deriving DecidableEq

/-- The form that the kinds of the next tokens spell. -/
def Count.detect : List Token.Kind → Count
  | .number :: .star :: .number :: _ => between
  | .number :: .star :: _ => atLeast
  | .number :: _ => exactly
  | .star :: .number :: _ => atMost
  | .star :: _ => anyNumber
  | _ => single

/-- Reads a 64-bit number. -/
def readNumber : Reader Nat := do
  let text ← Reader.consume .number
  match Text.unsigned? 10 Text.limit64 text with
  | some n => return n
  | none => throw (.invalidNumber text)

/-- Reads the star of a count and the blanks after it. -/
def readStar : Reader Unit := do
  let _ ← Reader.consume .star
  Reader.skip [.whitespace]

/-- Reads the number in front of a count's star and the blanks after it. -/
def readMinimum : Reader Nat := do
  let min ← readNumber
  Reader.skip [.whitespace]
  return min

/-- Reads the bounds that a count spells. -/
def readBounds : Count → Reader Bounds
  | .between => do
    let min ← readMinimum
    readStar
    return ⟨min, some (← readNumber)⟩
  | .atLeast => do
    let min ← readMinimum
    readStar
    return ⟨min, none⟩
  | .exactly => do
    let min ← readMinimum
    return ⟨min, some min⟩
  | .atMost => do
    readStar
    return ⟨0, some (← readNumber)⟩
  | .anyNumber => do
    readStar
    return ⟨0, none⟩
  | .single => return .once

/-- Reads an element with the count in front of it. -/
def readRepetition (inside : Reader Expression) : Reader Expression := do
  Reader.skip [.whitespace]
  let kinds := ((← get).ahead 3 [.whitespace]).map (·.kind)
  let bounds ← readBounds (.detect kinds)
  let operand ← readElement inside
  return repetition bounds operand.simplify

/-- What the next tokens mean inside a sequence. -/
inductive Turn where
  /-- The sequence ends here. -/
  | stop
  /-- A line break and an indentation continue the sequence on the next line. -/
  | fold
  /-- Another element follows. -/
  | operand
  deriving DecidableEq

/-- What the kinds of the next two tokens mean inside a sequence. -/
def Turn.detect : List Token.Kind → Turn
  | [] => stop
  | .lineBreak :: .whitespace :: _ => fold
  | .lineBreak :: _ | .slash :: _ | .rightParen :: _ | .rightBracket :: _ => stop
  | _ => operand

/-- Reads the operands of a sequence. The count bounds the number of steps. -/
def readOperands (inside : Reader Expression) : (count : Nat) → Reader (List Expression)
  | 0 => return []
  | count + 1 => do
    Reader.skip Token.Kind.inlineTrivia
    match Turn.detect (((← get).ahead 2 []).map (·.kind)) with
    | .stop => return []
    | .fold =>
      let _ ← Reader.consume .lineBreak
      let _ ← Reader.consume .whitespace
      readOperands inside count
    | .operand =>
      let operand ← readRepetition inside
      let rest ← readOperands inside count
      return operand.simplify :: rest

/-- A bound on the steps of reading a list: every step but the last takes a token. -/
def stepsLeft : Reader Nat := do
  return (← get).tokens.length + 1

/-- Reads elements in sequence, up to a slash, a closing bracket or the end of the definition. -/
def readConcatenation (inside : Reader Expression) : Reader Expression := do
  return concatenation (← readOperands inside (← stepsLeft))

/-- Reads the alternatives that follow the first. The count bounds the number of steps. -/
def readAlternatives (inside : Reader Expression) : (count : Nat) → Reader (List Expression)
  | 0 => return []
  | count + 1 => do
    Reader.skip Token.Kind.inlineTrivia
    if ← Reader.isAt .slash then
      let _ ← Reader.consume .slash
      Reader.skip Token.Kind.inlineTrivia
      let operand ← readConcatenation inside
      let rest ← readAlternatives inside count
      return operand.simplify :: rest
    else return []

/-- Reads alternatives between slashes. -/
def readAlternation (inside : Reader Expression) : Reader Expression := do
  let first ← readConcatenation inside
  let rest ← readAlternatives inside (← stepsLeft)
  return alternation (first.simplify :: rest)

/-- Reads a right-hand side in which brackets are nested less than `depth` deep. -/
def readNested : (depth : Nat) → Reader Expression
  | 0 => throw .unexpectedEnd
  | depth + 1 => do
    let whole ← readAlternation (readNested depth)
    return whole.simplify

/-- Reads a complete right-hand side. Each nested bracket takes a token, so the number of tokens
bounds the nesting. -/
def read : Reader Expression := do
  readNested (← stepsLeft)

/-- Reads one more right-hand side and appends its alternatives to an expression. -/
def readMore (existing : Expression) : Reader Expression := do
  Reader.skip Token.Kind.trivia
  return existing.merge (← read)

/-- The expression that a text spells, ignoring what stands after it. -/
def ofSource (source : Text) : Except CompileError Expression := do
  let stream ← TokenStream.ofSource source
  match read stream with
  | .ok expression _ => return expression
  | .error cause _ => throw cause

end Expression

end AugmentedBnf
