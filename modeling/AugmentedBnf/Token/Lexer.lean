import AugmentedBnf.CompileError

/-! # Tokens of grammar text

At each place the longest lexeme of any kind is taken. The first character decides the kind up
to a numeric or quoted value, so no two kinds compete for the same lexeme.
-/
namespace AugmentedBnf

/-- A piece of grammar text with its kind, the byte offset it starts at and the number of bytes it
covers. -/
structure Token where
  kind : Token.Kind
  offset : Nat
  length : Nat
  text : Text
  deriving DecidableEq

namespace Token

/-- The byte offset where a token ends. -/
def stop (token : Token) : Nat := token.offset + token.length

/-- The token of a kind at an offset that covers a whole lexeme. -/
def ofLexeme (kind : Kind) (offset : Nat) (lexeme : Text) : Token :=
  ⟨kind, offset, lexeme.byteSize, lexeme⟩

/-- The token of a kind that covers a span of a source. A span that cannot be cut out of the source
has no text. -/
def ofSpan (source : Text) (kind : Kind) (offset length : Nat) : Token :=
  ⟨kind, offset, length, (source.slice? offset (offset + length)).getD []⟩

def isBlank (c : Char) : Bool := c == ' ' || c == '\t'

def isLetter (c : Char) : Bool := c.isUpper || c.isLower

def isNameChar (c : Char) : Bool := isLetter c || c.isDigit || c == '-'

def isBit (c : Char) : Bool := c == '0' || c == '1'

def isHexDigit (c : Char) : Bool :=
  c.isDigit || (decide ('A' ≤ c) && decide (c ≤ 'F')) || (decide ('a' ≤ c) && decide (c ≤ 'f'))

/-- Anything but the end of a line. -/
def isCommentChar (c : Char) : Bool := c != '\r' && c != '\n'

/-- Anything that may stand between double quotes. -/
def isQuotedChar (c : Char) : Bool := c != '"' && c != '\r' && c != '\n'

/-- Visible ASCII and the space, without the closing angle bracket. -/
def isProseChar (c : Char) : Bool := decide (' ' ≤ c) && decide (c ≤ '~') && c != '>'

/-- A point or a dash joins the values of a numeric literal. -/
def isJoint (c : Char) : Bool := c == '.' || c == '-'

/-- The longest continuation of a numeric value: further digits, and joints that a digit
follows. -/
def numericTail (isDigit : Char → Bool) : Text → Text
  | [] => []
  | [c] => if isDigit c then [c] else []
  | c :: d :: rest =>
    if isDigit c then c :: numericTail isDigit (d :: rest)
    else if isJoint c && isDigit d then c :: d :: numericTail isDigit rest
    else []

/-- A numeric value: a digit and its continuation. -/
def numeric? (isDigit : Char → Bool) : Text → Option Text
  | [] => none
  | c :: rest => if isDigit c then some (c :: numericTail isDigit rest) else none

/-- Characters of a class up to the closing character, which is included. -/
def enclosed? (inside : Char → Bool) (close : Char) (t : Text) : Option Text :=
  match t.dropWhile inside with
  | [] => none
  | c :: _ => if c = close then some (t.takeWhile inside ++ [close]) else none

/-- A string in double quotes. -/
def quotedString? : Text → Option Text
  | [] => none
  | c :: rest => if c = '"' then (enclosed? isQuotedChar '"' rest).map ('"' :: ·) else none

/-- What a percent sign and a base or case mark introduce. -/
def percentValue? (mark : Char) (rest : Text) : Option (Kind × Text) :=
  if mark = 'b' ∨ mark = 'B' then (numeric? isBit rest).map (.binary, ·)
  else if mark = 'd' ∨ mark = 'D' then (numeric? Char.isDigit rest).map (.decimal, ·)
  else if mark = 'x' ∨ mark = 'X' then (numeric? isHexDigit rest).map (.hexadecimal, ·)
  else if mark = 'i' ∨ mark = 'I' then (quotedString? rest).map (.insensitiveQuoted, ·)
  else if mark = 's' ∨ mark = 'S' then (quotedString? rest).map (.sensitiveQuoted, ·)
  else none

/-- The kind of a token that is one character long. -/
def markKind? (c : Char) : Option Kind :=
  if c = '=' then some .equal
  else if c = '/' then some .slash
  else if c = '*' then some .star
  else if c = '(' then some .leftParen
  else if c = ')' then some .rightParen
  else if c = '[' then some .leftBracket
  else if c = ']' then some .rightBracket
  else if c = '\n' then some .lineBreak
  else none

/-- The longest lexeme at the start of a text, with its kind. -/
def lexeme? : Text → Option (Kind × Text)
  | [] => none
  | c :: rest =>
    if isBlank c then some (.whitespace, c :: rest.takeWhile isBlank)
    else if isLetter c then some (.ident, c :: rest.takeWhile isNameChar)
    else if c.isDigit then some (.number, c :: rest.takeWhile Char.isDigit)
    else if c = ';' then some (.comment, c :: rest.takeWhile isCommentChar)
    else if c = '"' then (enclosed? isQuotedChar '"' rest).map fun body => (.quoted, c :: body)
    else if c = '<' then (enclosed? isProseChar '>' rest).map fun body => (.prose, c :: body)
    else match rest with
      | [] => (markKind? c).map fun kind => (kind, [c])
      | d :: rest' =>
        if c = '%' then (percentValue? d rest').map fun (kind, body) => (kind, c :: d :: body)
        else if c = '\r' ∧ d = '\n' then some (.lineBreak, [c, d])
        else (markKind? c).map fun kind => (kind, [c])

/-- The tokens of what is left of a text from an offset on. The count bounds the number of
tokens. -/
def scanFrom : (count : Nat) → (offset : Nat) → Text → Except CompileError (List Token)
  | _, _, [] => .ok []
  | 0, offset, _ :: _ => .error (.unexpectedCharacter offset)
  | count + 1, offset, c :: rest =>
    match lexeme? (c :: rest) with
    | none => .error (.unexpectedCharacter offset)
    | some (kind, lexeme) => do
      let tokens ← scanFrom count (offset + lexeme.byteSize) ((c :: rest).drop lexeme.length)
      return ofLexeme kind offset lexeme :: tokens

/-- The tokens of a grammar text, or the place where none starts. -/
def scan (source : Text) : Except CompileError (List Token) :=
  scanFrom source.length 0 source

end Token

end AugmentedBnf
