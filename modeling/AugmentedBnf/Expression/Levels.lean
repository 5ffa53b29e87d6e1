import AugmentedBnf.Expression.Parser
import AugmentedBnf.Token.IndexedStream

/-! # Reading right-hand sides level by level

On each level the operands are read on the next one and simplified. Behind single elements the levels
start again, with what stands inside brackets.
-/
namespace AugmentedBnf

namespace IndexedReader

open Expression (Count Level Turn)

/-- What a lexeme holds, without some bytes at its front and one at its back. -/
def inside (front : Nat) (lexeme : Text) : IndexedReader Text :=
  cut (lexeme.slice? front (lexeme.byteSize - 1))

/-- A numeric literal. The mark of its base is cut off. -/
def numeric (radix : Nat) (lexeme : Text) : IndexedReader Literal := do
  let _ ← cut (lexeme.dropBytes? 2)
  accept (Literal.numeric radix lexeme)

/-- Reads the token of a terminal value. -/
def literal : IndexedReader Literal := do
  match (← get).peek? with
  | none => refuse .unexpectedEnd
  | some token =>
    match token.kind with
    | .binary => numeric 2 (← consume .binary)
    | .decimal => numeric 10 (← consume .decimal)
    | .hexadecimal => numeric 16 (← consume .hexadecimal)
    | .quoted => return .insensitive (← inside 1 (← consume .quoted))
    | .insensitiveQuoted => return .insensitive (← inside 3 (← consume .insensitiveQuoted))
    | .sensitiveQuoted => return .sensitive (← inside 3 (← consume .sensitiveQuoted))
    | kind => refuse (.unsupportedToken kind token.offset)

/-- Reads a group or option: what stands inside and the two tokens around it. -/
def enclosed (operand : IndexedReader Expression) (left right : Token.Kind) :
    IndexedReader Expression := do
  let _ ← consume left
  let inner ← operand
  skip Token.Kind.trivia
  let _ ← consume right
  return inner

/-- Reads a single element, chosen by its first token. -/
def element (operand : IndexedReader Expression) : IndexedReader Expression := do
  skip Token.Kind.inlineTrivia
  match (← get).peek? with
  | none => refuse .unexpectedEnd
  | some token =>
    if token.kind.isLiteral then return .literal (← literal)
    else match token.kind with
      | .ident => return .reference (Text.upper (← consume .ident))
      | .leftParen => return .group (← enclosed operand .leftParen .rightParen)
      | .leftBracket => return .option (← enclosed operand .leftBracket .rightBracket)
      | .prose => return .prose (← inside 1 (← consume .prose))
      | kind => refuse (.unsupportedToken kind token.offset)

/-- Reads a 64-bit number. -/
def number : IndexedReader Nat := do
  let text ← consume .number
  match Text.unsigned? 10 Text.limit64 text with
  | some n => return n
  | none => refuse (.invalidNumber text)

/-- Reads the number in front of a count's star and the blanks after it. -/
def minimum : IndexedReader Nat := do
  let min ← number
  skip [.whitespace]
  return min

/-- Reads the star of a count and the blanks after it. -/
def star : IndexedReader Unit := do
  let _ ← consume .star
  skip [.whitespace]

/-- Reads the bounds that a count spells. -/
def bounds : Count → IndexedReader Bounds
  | .between => do
    let min ← minimum
    star
    return ⟨min, some (← number)⟩
  | .atLeast => do
    let min ← minimum
    star
    return ⟨min, none⟩
  | .exactly => do
    let min ← minimum
    return ⟨min, some min⟩
  | .atMost => do
    star
    return ⟨0, some (← number)⟩
  | .anyNumber => do
    star
    return ⟨0, none⟩
  | .single => return .once

/-- Reads an operand with the count in front of it. -/
def repetition (operand : IndexedReader Expression) : IndexedReader Expression := do
  skip [.whitespace]
  let tokens ← ahead 3 [.whitespace]
  let bounds ← bounds (.detect (tokens.map (·.kind)))
  return .repetition bounds (← operand)

/-- Reads the operands of a sequence. The count bounds the number of steps. -/
def operands (operand : IndexedReader Expression) :
    (count : Nat) → IndexedReader (List Expression)
  | 0 => return []
  | count + 1 => do
    skip Token.Kind.inlineTrivia
    let tokens ← ahead 2 []
    match Turn.detect (tokens.map (·.kind)) with
    | .stop => return []
    | .fold =>
      let _ ← consume .lineBreak
      let _ ← consume .whitespace
      operands operand count
    | .operand =>
      let first ← operand
      let rest ← operands operand count
      return first :: rest

/-- A bound on the steps of reading a list: every step but the last takes a token. -/
def stepsLeft : IndexedReader Nat := do
  return (← get).remaining + 1

/-- Reads operands in sequence. -/
def concatenation (operand : IndexedReader Expression) : IndexedReader Expression := do
  return .concatenation (← operands operand (← stepsLeft))

/-- Reads the alternatives that follow the first. The count bounds the number of steps. -/
def alternatives (operand : IndexedReader Expression) :
    (count : Nat) → IndexedReader (List Expression)
  | 0 => return []
  | count + 1 => do
    skip Token.Kind.inlineTrivia
    if ← isAt .slash then
      let _ ← consume .slash
      skip Token.Kind.inlineTrivia
      let first ← operand
      let rest ← alternatives operand count
      return first :: rest
    else return []

/-- Reads operands between slashes. -/
def alternation (operand : IndexedReader Expression) : IndexedReader Expression := do
  let first ← operand
  let rest ← alternatives operand (← stepsLeft)
  return .alternation (first :: rest)

/-- Reads an expression of a level, given how its operands are read. -/
def ofLevel (operand : IndexedReader Expression) : Level → IndexedReader Expression
  | .alternation => alternation operand
  | .concatenation => concatenation operand
  | .repetition => repetition operand
  | .element => element operand

/-- Reads an expression of a level, less than `depth` levels deep. -/
def readAt : (depth : Nat) → Level → IndexedReader Expression
  | 0, _ => refuse .unexpectedEnd
  | depth + 1, level => ofLevel (Expression.simplify <$> readAt depth level.next) level

/-- Reads a complete right-hand side. Each nested bracket takes a token, so the number of tokens
bounds how often the levels start again. -/
def expression : IndexedReader Expression := do
  Expression.simplify <$> readAt (Level.all.length * (← stepsLeft)) .alternation

/-- Reads one more right-hand side and appends its alternatives to an expression. -/
def further (existing : Expression) : IndexedReader Expression := do
  skip Token.Kind.trivia
  return existing.merge (← expression)

end IndexedReader

end AugmentedBnf
