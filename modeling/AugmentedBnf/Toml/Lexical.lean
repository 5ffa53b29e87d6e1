import AugmentedBnf.Text.Numeral
import AugmentedBnf.Text.Scan

/-! # Strings and keys of TOML -/
namespace AugmentedBnf.Toml

/-- Blanks inside a line. -/
def isBlank (c : Char) : Bool := c == ' ' || c == '\t'

/-- The text without blanks at its front. -/
def skipBlanks (t : Text) : Text := t.dropWhile isBlank

/-- Characters that may stand for themselves inside a line. -/
def isInline (c : Char) : Bool := c == '\t' || (decide (32 ≤ c.toNat) && c.toNat != 127)

/-- Reads the end of a line. -/
def newline? : Text → Option Text
  | '\n' :: rest => some rest
  | '\r' :: '\n' :: rest => some rest
  | _ => none

/-- The text after a comment, if there is one. -/
def skipComment : Text → Text
  | '#' :: rest => rest.dropWhile isInline
  | t => t

/-- The text after blanks, comments and line ends. The count bounds the number of lines. -/
def skipLines : (count : Nat) → Text → Text
  | 0, t => t
  | count + 1, t =>
    let rest := skipComment (skipBlanks t)
    match newline? rest with
    | some after => skipLines count after
    | none => rest

/-- The character with a code point, unless it is half of a pair. -/
def scalar? (code : Nat) : Option Char :=
  if code < 0xd800 ∨ (0xe000 ≤ code ∧ code < 0x110000) then some (Char.ofNat code) else none

/-- Reads a code point of `width` digits in base sixteen. -/
def readCode (width : Nat) : Scan Char := fun t => do
  let (digits, after) ← Scan.exactly width t
  return (← scalar? (← Text.digits? 16 digits), after)

/-- Reads the character after a backslash. -/
def readEscape : Scan Char
  | [] => none
  | c :: rest =>
    if c = 'b' then some ('\x08', rest)
    else if c = 't' then some ('\t', rest)
    else if c = 'n' then some ('\n', rest)
    else if c = 'f' then some ('\x0c', rest)
    else if c = 'r' then some ('\r', rest)
    else if c = '"' ∨ c = '\\' then some (c, rest)
    else if c = 'u' then readCode 4 rest
    else if c = 'U' then readCode 8 rest
    else none

/-- Reads a string after its opening double quote. The count bounds its length. -/
def readBasic : (count : Nat) → Scan Text
  | 0, _ => none
  | _ + 1, [] => none
  | count + 1, c :: rest =>
    if c = '"' then some ([], rest)
    else if c = '\\' then do
      let (escaped, more) ← readEscape rest
      let (value, after) ← readBasic count more
      return (escaped :: value, after)
    else if isInline c then do
      let (value, after) ← readBasic count rest
      return (c :: value, after)
    else none

/-- Reads a string after its opening single quote. -/
def readLiteral (t : Text) : Option (Text × Text) :=
  let inside (c : Char) : Bool := isInline c && c != '\''
  (Scan.word? ['\''] (t.dropWhile inside)).map (t.takeWhile inside, ·)

/-- What a run of quotes inside a text of several lines stands for: the quotes that belong to the
text, how many are used up, and whether they end it. -/
def quoteRun (run : Nat) : Nat × Nat × Bool :=
  if run < 3 then (run, run, false) else (min run 5 - 3, min run 5, true)

/-- The text after blanks and line ends. The count bounds the number of lines. -/
def skipBreaks : (count : Nat) → Text → Text
  | 0, t => skipBlanks t
  | count + 1, t =>
    match newline? (skipBlanks t) with
    | some after => skipBreaks count after
    | none => skipBlanks t

/-- The text after a backslash at the end of a line and all blanks and line ends that follow. -/
def foldedLine? (t : Text) : Option Text :=
  (newline? (skipBlanks t)).map fun after => skipBreaks after.length after

/-- Reads the rest of a text of several lines, up to three closing quotes. Escapes are only read
between double quotes. The count bounds its length. -/
def readLines (quote : Char) : (count : Nat) → Scan Text
  | 0, _ => none
  | _ + 1, [] => none
  | count + 1, c :: rest =>
    if c = quote then
      let run := ((c :: rest).takeWhile (· == quote)).length
      let (kept, used, ended) := quoteRun run
      let after := (c :: rest).drop used
      if ended then some (List.replicate kept quote, after)
      else do
        let (value, final) ← readLines quote count after
        return (List.replicate kept quote ++ value, final)
    else if c = '\\' ∧ quote = '"' then
      match foldedLine? rest with
      | some after => readLines quote count after
      | none => do
        let (escaped, more) ← readEscape rest
        let (value, after) ← readLines quote count more
        return (escaped :: value, after)
    else match newline? (c :: rest) with
      | some after => do
        let (value, final) ← readLines quote count after
        return ('\n' :: value, final)
      | none =>
        if isInline c then do
          let (value, after) ← readLines quote count rest
          return (c :: value, after)
        else none

/-- Reads a text of several lines after its three opening quotes; a line end right after them does
not count. -/
def readBlock (quote : Char) (t : Text) : Option (Text × Text) :=
  readLines quote (t.length + 1) ((newline? t).getD t)

/-- Reads a string of any form. -/
def readString : Scan Text
  | '"' :: '"' :: '"' :: rest => readBlock '"' rest
  | '\'' :: '\'' :: '\'' :: rest => readBlock '\'' rest
  | '"' :: rest => readBasic (rest.length + 1) rest
  | '\'' :: rest => readLiteral rest
  | _ => none

/-- The characters of bare keys. -/
def isBareChar (c : Char) : Bool := c.isUpper || c.isLower || c.isDigit || c == '_' || c == '-'

/-- Reads one part of a key. -/
def readPart : Scan Text
  | '"' :: rest => readBasic (rest.length + 1) rest
  | '\'' :: rest => readLiteral rest
  | t => Scan.some1 isBareChar t

/-- Reads the parts of a key, with points between them. The count bounds their number. -/
def readParts : (count : Nat) → Scan (List Text)
  | 0, _ => none
  | count + 1, t => do
    let (part, after) ← readPart (skipBlanks t)
    match skipBlanks after with
    | '.' :: more =>
      let (parts, final) ← readParts count more
      return (part :: parts, final)
    | rest => return ([part], rest)

/-- How deep keys, lists and tables may nest. -/
def nestingLimit : Nat := 79

/-- Reads a key, which has few parts. -/
def readKey : Scan (List Text) := readParts nestingLimit

end AugmentedBnf.Toml
