import AugmentedBnf.Text.Basic
import AugmentedBnf.Text.Printable
import AugmentedBnf.Text.Extender

/-! # Quoted text

A quoted text fits on one line and shows every character: quotes and backslashes are escaped,
and so is each character that is not printable or would join the character before it.
-/
namespace AugmentedBnf.Text

/-- The code point of a character as `\u{…}` with lower-case digits. -/
def codeEscape (c : Char) : Text :=
  ['\\', 'u', '\x7b'] ++ Nat.toDigits 16 c.toNat ++ ['\x7d']

/-- How a character is written inside quotes. -/
def escapeChar (c : Char) : Text :=
  if c = '\x00' then ['\\', '0']
  else if c = '\t' then ['\\', 't']
  else if c = '\r' then ['\\', 'r']
  else if c = '\n' then ['\\', 'n']
  else if c = '"' then ['\\', '"']
  else if c = '\\' then ['\\', '\\']
  else if isExtender c then codeEscape c
  else if isPrintable c then [c]
  else codeEscape c

/-- A text between double quotes. -/
def quoted (t : Text) : Text := '"' :: t.flatMap escapeChar ++ ['"']

/-- A list of texts, each quoted, between square brackets. -/
def quotedList (ts : List Text) : Text := '[' :: join [',', ' '] (ts.map quoted) ++ [']']

end AugmentedBnf.Text
