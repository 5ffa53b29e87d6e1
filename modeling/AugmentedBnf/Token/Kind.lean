/-! # Kinds of tokens

Grammar text is cut into tokens of nineteen kinds. Blanks, comments and line breaks are kept,
because a line break ends a definition unless the next line is indented.
-/
namespace AugmentedBnf.Token

/-- The kinds of tokens of grammar text. -/
inductive Kind where
  | whitespace
  | comment
  | lineBreak
  | ident
  | equal
  | slash
  | star
  | number
  | leftParen
  | rightParen
  | leftBracket
  | rightBracket
  | binary
  | decimal
  | hexadecimal
  | quoted
  | insensitiveQuoted
  | sensitiveQuoted
  | prose
  deriving DecidableEq

namespace Kind

/-- Every kind, blanks first and prose last. -/
def all : List Kind :=
  [whitespace, comment, lineBreak, ident, equal, slash, star, number, leftParen, rightParen,
    leftBracket, rightBracket, binary, decimal, hexadecimal, quoted, insensitiveQuoted,
    sensitiveQuoted, prose]

/-- The name of a kind in messages. -/
def name : Kind → String
  | whitespace => "Whitespace"
  | comment => "Comment"
  | lineBreak => "LineBreak"
  | ident => "Ident"
  | equal => "Equal"
  | slash => "Slash"
  | star => "Star"
  | number => "Number"
  | leftParen => "LParen"
  | rightParen => "RParen"
  | leftBracket => "LBracket"
  | rightBracket => "RBracket"
  | binary => "BinLiteral"
  | decimal => "DecLiteral"
  | hexadecimal => "HexLiteral"
  | quoted => "Quoted"
  | insensitiveQuoted => "InsensitiveQuoted"
  | sensitiveQuoted => "SensitiveQuoted"
  | prose => "Prose"

/-- The kind with a given name. -/
def ofName? (text : String) : Option Kind := all.find? fun kind => kind.name == text

/-- Blanks, comments and line breaks carry no part of a definition. -/
def isTrivia : Kind → Bool
  | whitespace | comment | lineBreak => true
  | _ => false

/-- The kinds that spell terminal values. -/
def isLiteral : Kind → Bool
  | binary | decimal | hexadecimal | quoted | insensitiveQuoted | sensitiveQuoted => true
  | _ => false

/-- Every kind of trivia. -/
def trivia : List Kind := [whitespace, comment, lineBreak]

/-- The trivia that stay on one line. -/
def inlineTrivia : List Kind := [whitespace, comment]

theorem mem_all (kind : Kind) : kind ∈ all := by cases kind <;> decide

theorem mem_trivia_iff (kind : Kind) : kind ∈ trivia ↔ kind.isTrivia = true := by
  cases kind <;> decide

end Kind

end AugmentedBnf.Token
