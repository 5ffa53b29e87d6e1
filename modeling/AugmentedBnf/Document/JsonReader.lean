import AugmentedBnf.Document.Basic
import AugmentedBnf.Text.Scan

/-! # Reading JSON notation

A reader takes a value off the front of a text and leaves the rest. Records keep all their
fields, so a repeated key can be seen.
-/
namespace AugmentedBnf.Document

/-- The characters between the parts of JSON notation. -/
def isJsonBlank (c : Char) : Bool := c == ' ' || c == '\n' || c == '\r' || c == '\t'

/-- The text without the blanks at its front. -/
def skipJsonBlanks (t : Text) : Text := t.dropWhile isJsonBlank

/-- Reads a code unit of four digits in base sixteen. -/
def readUnit : Scan Nat
  | a :: b :: c :: d :: rest => (Text.digits? 16 [a, b, c, d]).map (·, rest)
  | _ => none

/-- The character of a code unit that stands alone; half of a pair is none. -/
def unitChar? (unit : Nat) : Option Char :=
  if 0xd800 ≤ unit ∧ unit < 0xe000 then none else some (Char.ofNat unit)

/-- The character of two code units that form a pair. -/
def pairChar? (high low : Nat) : Option Char :=
  if 0xd800 ≤ high ∧ high < 0xdc00 ∧ 0xdc00 ≤ low ∧ low < 0xe000 then
    some (Char.ofNat (0x10000 + (high - 0xd800) * 0x400 + (low - 0xdc00)))
  else none

/-- Reads the character that a code unit, or a pair of them, stands for. -/
def readCode : Scan Char := fun t =>
  match readUnit t with
  | none => none
  | some (high, rest) =>
    match unitChar? high, rest with
    | some c, _ => some (c, rest)
    | none, '\\' :: 'u' :: more =>
      match readUnit more with
      | none => none
      | some (low, after) => (pairChar? high low).map (·, after)
    | none, _ => none

/-- Reads the character that stands after a backslash. -/
def readEscape : Scan Char
  | [] => none
  | c :: rest =>
    if c = 'u' then readCode rest
    else if c = '"' ∨ c = '\\' ∨ c = '/' then some (c, rest)
    else if c = 'b' then some ('\x08', rest)
    else if c = 'f' then some ('\x0c', rest)
    else if c = 'n' then some ('\n', rest)
    else if c = 'r' then some ('\r', rest)
    else if c = 't' then some ('\t', rest)
    else none

/-- Reads a string after its opening quote. The count bounds the number of characters. -/
def readString : (count : Nat) → Scan Text
  | 0, _ => none
  | _ + 1, [] => none
  | count + 1, c :: rest =>
    if c = '"' then some ([], rest)
    else if c = '\\' then do
      let (escaped, more) ← readEscape rest
      let (value, after) ← readString count more
      return (escaped :: value, after)
    else if c.toNat < 32 then none
    else do
      let (value, after) ← readString count rest
      return (c :: value, after)

/-- Reads one or more decimal digits. -/
def readDigits : Scan Text := Scan.some1 Char.isDigit

/-- Reads the digits before a decimal point: a zero stands alone. -/
def readWhole : Scan Text
  | '0' :: rest => some (['0'], rest)
  | t => readDigits t

/-- Reads a decimal point with digits, if there is one. -/
def readFraction : Scan Text
  | '.' :: rest => (readDigits rest).map fun (digits, after) => ('.' :: digits, after)
  | t => some ([], t)

/-- Reads a sign, if there is one. -/
def readSign : Text → Text × Text
  | '+' :: rest => (['+'], rest)
  | '-' :: rest => (['-'], rest)
  | t => ([], t)

/-- Reads an exponent, if there is one. -/
def readExponent : Scan Text
  | [] => some ([], [])
  | c :: rest =>
    if c = 'e' ∨ c = 'E' then do
      let (sign, more) := readSign rest
      let (digits, after) ← readDigits more
      return (c :: sign ++ digits, after)
    else some ([], c :: rest)

/-- Reads a number without its sign. -/
def readMagnitude : Scan Text := fun t => do
  let (whole, afterWhole) ← readWhole t
  let (fraction, afterFraction) ← readFraction afterWhole
  let (exponent, after) ← readExponent afterFraction
  return (whole ++ fraction ++ exponent, after)

/-- Reads a number. -/
def readJsonNumber : Scan Text
  | '-' :: rest => (readMagnitude rest).map fun (digits, after) => ('-' :: digits, after)
  | t => readMagnitude t

/-- Reads a fixed word. -/
def readWord (word : Text) (document : Document) : Scan Document := fun t =>
  (Scan.word? word t).map (document, ·)

mutual
/-- Reads a value. The count bounds the number of steps. -/
def readValue : (count : Nat) → Scan Document
  | 0, _ => none
  | count + 1, t =>
    match skipJsonBlanks t with
    | [] => none
    | c :: rest =>
      if c = '"' then (readString (c :: rest).length rest).map fun (value, after) => (text value, after)
      else if c = '[' then
        match skipJsonBlanks rest with
        | ']' :: after => some (list [], after)
        | more => (readItems count more).map fun (items, after) => (list items, after)
      else if c = '\x7b' then
        match skipJsonBlanks rest with
        | '\x7d' :: after => some (record [], after)
        | more => (readFields count more).map fun (fields, after) => (record fields, after)
      else if c = 'n' then readWord "null".toList null (c :: rest)
      else if c = 't' then readWord "true".toList (flag true) (c :: rest)
      else if c = 'f' then readWord "false".toList (flag false) (c :: rest)
      else (readJsonNumber (c :: rest)).map fun (digits, after) => (number digits, after)

/-- Reads the items of a list and its closing bracket. -/
def readItems : (count : Nat) → Scan (List Document)
  | 0, _ => none
  | count + 1, t =>
    match readValue count t with
    | none => none
    | some (item, afterItem) =>
      match skipJsonBlanks afterItem with
      | ',' :: more => (readItems count more).map fun (items, after) => (item :: items, after)
      | ']' :: after => some ([item], after)
      | _ => none

/-- Reads the fields of a record and its closing brace. -/
def readFields : (count : Nat) → Scan (List (Text × Document))
  | 0, _ => none
  | count + 1, t =>
    match skipJsonBlanks t with
    | '"' :: quotedKey =>
      match readString (quotedKey.length + 1) quotedKey with
      | none => none
      | some (key, afterKey) =>
        match skipJsonBlanks afterKey with
        | ':' :: afterColon =>
          match readValue count afterColon with
          | none => none
          | some (value, afterValue) =>
            match skipJsonBlanks afterValue with
            | ',' :: more =>
              (readFields count more).map fun (fields, after) => ((key, value) :: fields, after)
            | '\x7d' :: after => some ([(key, value)], after)
            | _ => none
        | _ => none
    | _ => none
end

/-- The document that a text spells in JSON notation, with nothing but blanks after it. Every two
steps take a character. -/
def ofJson? (t : Text) : Option Document :=
  match readValue (2 * t.length + 2) t with
  | some (document, rest) => if (skipJsonBlanks rest).isEmpty then some document else none
  | none => none

end AugmentedBnf.Document
