import AugmentedBnf.Document.Basic

/-! # Texts in YAML notation

A text is written plainly when it would be read back as the same text. Otherwise it is put in
single quotes, in double quotes with escapes, or, when it has line feeds, in a literal block.
-/
namespace AugmentedBnf.Document.Yaml

/-- The characters that end a line. -/
def isBreak (c : Char) : Bool :=
  c == '\n' || c == '\r' || c == '\u0085' || c == '\u2028' || c == '\u2029'

/-- The characters that need no escape. -/
def isShown (c : Char) : Bool :=
  c == '\n' || (decide (' ' ≤ c) && decide (c ≤ '~')) ||
    (decide (0xa0 ≤ c.toNat) && c.toNat != 0xfeff && c.toNat != 0xfffe && c.toNat != 0xffff)

/-- Whether a text ends here or goes on with a blank, a line end or a NUL. -/
def blankFollows : Text → Bool
  | [] => true
  | c :: _ => c == ' ' || c == '\t' || c == '\x00' || isBreak c

/-- Characters that never start a plain text. -/
def isOpeningMark (c : Char) : Bool := "#,[]\x7b\x7d&*!|>'\"%@\x60".toList.contains c

/-- Whether the start of a text would be read as a mark of the notation. -/
def startsWithMark : Text → Bool
  | [] => false
  | c :: rest =>
    isOpeningMark c || ((c == '?' || c == ':' || c == '-') && blankFollows rest) ||
      "---".toList.isPrefixOf (c :: rest) || "...".toList.isPrefixOf (c :: rest)

/-- Whether a mark of the notation stands inside a text: a colon before a blank, or a number sign
after one. -/
def holdsMark : Text → Bool
  | [] => false
  | [_] => false
  | c :: d :: rest =>
    (d == ':' && blankFollows rest) || (d == '#' && blankFollows [c]) || holdsMark (d :: rest)

/-- Whether two neighbours in a text satisfy a relation. -/
def hasNeighbours (related : Char → Char → Bool) : Text → Bool
  | [] => false
  | [_] => false
  | c :: d :: rest => related c d || hasNeighbours related (d :: rest)

/-- Whether a text starts or ends with a character of a class. -/
def touches (inClass : Char → Bool) (t : Text) : Bool :=
  t.head?.any inClass || t.getLast?.any inClass

/-- Whether a text can only be written with escapes. -/
def needsEscapes (t : Text) : Bool :=
  !t.all isShown || hasNeighbours (fun c d => c == ' ' && isBreak d) t

/-- Whether a text can be written without quotes. -/
def allowsPlain (t : Text) : Bool :=
  !needsEscapes t && !t.any isBreak && !touches (· == ' ') t && !startsWithMark t && !holdsMark t

/-- Whether a text can be written between single quotes. -/
def allowsSingle (t : Text) : Bool :=
  !needsEscapes t && !hasNeighbours (fun c d => isBreak c && d == ' ') t

/-- Whether a text can be written as a literal block. -/
def allowsBlock (t : Text) : Bool := !needsEscapes t && t.getLast? != some ' '

/-- The ways to write a text. -/
inductive Style where
  | plain
  | single
  | double
  | block
  deriving DecidableEq

/-- The text without a sign in front. -/
def withoutSign : Text → Text
  | [] => []
  | c :: rest => if c = '+' ∨ c = '-' then rest else c :: rest

/-- Whether a text is several digits of which the first is a zero. -/
def isPaddedNumber (t : Text) : Bool :=
  match withoutSign t with
  | '0' :: d :: rest => (d :: rest).all Char.isDigit
  | _ => false

/-- The words for nothing and for truth values. -/
def reservedWords : List Text :=
  ["", "null", "Null", "NULL", "~", "true", "True", "TRUE", "false", "False", "FALSE"].map String.toList

/-- The words for numbers that are infinite or undefined. -/
def specialNumbers : List Text :=
  [".inf", ".Inf", ".INF", "+.inf", "+.Inf", "+.INF", "-.inf", "-.Inf", "-.INF",
    ".nan", ".NaN", ".NAN"].map String.toList

/-- Whether a text is a number in base two, eight or sixteen of at most 128 bits. -/
def isBasedNumber (t : Text) : Bool :=
  let negative := t.head? == some '-'
  let limit := if negative then Nat.pow 2 127 + 1 else Nat.pow 2 128
  match withoutSign t with
  | '0' :: mark :: digits =>
    let radix := if mark = 'x' then 16 else if mark = 'o' then 8 else if mark = 'b' then 2 else 0
    (Text.digits? radix digits).any (· < limit)
  | _ => false

/-- The value of decimal digits; no digits count as zero. -/
def digitsValue (t : Text) : Nat := (Text.digitsFrom? 10 0 t).getD 0

/-- Whether `significand · 10 ^ exponent` rounds to a finite double. -/
def isFiniteDouble (significand : Nat) (exponent : Int) : Bool :=
  let limit : Nat := Nat.pow 2 1024 - Nat.pow 2 970
  let magnitude : Int := (Nat.toDigits 10 significand).length + exponent
  if significand = 0 ∨ magnitude ≤ 300 then true
  else if 310 < magnitude then false
  else if 0 ≤ exponent then significand * Nat.pow 10 exponent.toNat < limit
  else significand < limit * Nat.pow 10 (-exponent).toNat

/-- The exponent after its mark: a sign and digits. -/
def exponent? : Text → Option Int
  | [] => some 0
  | c :: rest =>
    let digits := withoutSign rest
    if (c = 'e' ∨ c = 'E') ∧ digits ≠ [] ∧ digits.all Char.isDigit then
      some (if rest.head? = some '-' then -(digitsValue digits : Int) else digitsValue digits)
    else none

/-- Whether a text is a decimal number, with point and exponent or without, that is finite. -/
def isDecimalNumber (t : Text) : Bool :=
  let body := withoutSign t
  let whole := body.takeWhile Char.isDigit
  let afterWhole := body.dropWhile Char.isDigit
  let afterPoint := if afterWhole.head? = some '.' then afterWhole.drop 1 else []
  let fraction := afterPoint.takeWhile Char.isDigit
  let tail := if afterWhole.head? = some '.' then afterPoint.dropWhile Char.isDigit else afterWhole
  if whole ++ fraction = [] then false
  else (exponent? tail).any fun exponent =>
    isFiniteDouble (digitsValue (whole ++ fraction)) (exponent - fraction.length)

/-- Whether a text would be read as nothing, a truth value or a number. -/
def isAmbiguous (t : Text) : Bool :=
  reservedWords.contains t || specialNumbers.contains t || isPaddedNumber t || isBasedNumber t ||
    isDecimalNumber t

/-- The way a text is written. -/
def style (t : Text) : Style :=
  if t.contains '\n' then
    if allowsBlock t then .block else .double
  else if !isAmbiguous t && allowsPlain t then .plain
  else if allowsSingle t then .single
  else .double

/-- How a character is written inside double quotes. -/
def escaped (c : Char) : Text :=
  if c = '"' then ['\\', '"']
  else if c = '\\' then ['\\', '\\']
  else if isShown c && !isBreak c then [c]
  else if c = '\x00' then ['\\', '0']
  else if c = '\x07' then ['\\', 'a']
  else if c = '\x08' then ['\\', 'b']
  else if c = '\t' then ['\\', 't']
  else if c = '\n' then ['\\', 'n']
  else if c = '\x0b' then ['\\', 'v']
  else if c = '\x0c' then ['\\', 'f']
  else if c = '\r' then ['\\', 'r']
  else if c = '\x1b' then ['\\', 'e']
  else if c = '\u0085' then ['\\', 'N']
  else if c = '\u2028' then ['\\', 'L']
  else if c = '\u2029' then ['\\', 'P']
  else if c.toNat ≤ 0xff then '\\' :: 'x' :: Text.hexDigits 2 c.toNat
  else '\\' :: 'u' :: Text.hexDigits 4 c.toNat

/-- A text with each line after a line end indented, given whether a line end came just before. -/
def indentLines (indent : Nat) : (afterBreak : Bool) → Text → Text
  | _, [] => []
  | afterBreak, c :: rest =>
    if isBreak c then c :: indentLines indent true rest
    else if afterBreak then List.replicate indent ' ' ++ c :: indentLines indent false rest
    else c :: indentLines indent false rest

/-- A text between single quotes, with quotes inside doubled. -/
def singleQuoted (indent : Nat) (t : Text) : Text :=
  let doubled := t.flatMap fun c => if c = '\'' then ['\'', '\''] else [c]
  '\'' :: indentLines indent false (doubled ++ ['\''])

/-- What follows the bar of a literal block: the indentation, if the text starts with a blank or a
line end, and how line ends at its end are kept. -/
def blockHints (t : Text) : Text :=
  let hint := if t.head?.any fun c => c == ' ' || isBreak c then ['2'] else []
  let keep := match t.reverse with
    | [] => ['-']
    | [c] => if isBreak c then ['+'] else ['-']
    | c :: d :: _ => if !isBreak c then ['-'] else if isBreak d then ['+'] else []
  hint ++ keep

/-- A text as a scalar, and whether it has ended its line. Lines after the first are indented. -/
def scalar (indent : Nat) (t : Text) : Text × Bool :=
  match style t with
  | .plain => (t, false)
  | .single => (singleQuoted indent t, false)
  | .double => ('"' :: t.flatMap escaped ++ ['"'], false)
  | .block => ('|' :: blockHints t ++ '\n' :: indentLines indent true t, t.getLast?.any isBreak)

end AugmentedBnf.Document.Yaml
