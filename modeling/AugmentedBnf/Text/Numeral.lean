import AugmentedBnf.Text.Basic

/-! # Numbers spelled in a radix -/
namespace AugmentedBnf.Text

/-- The value of a digit in a radix of at most thirty-six; letters count in either case. -/
def digitValue? (radix : Nat) (c : Char) : Option Nat :=
  let value? :=
    if c.isDigit then some (c.toNat - '0'.toNat)
    else if c.isLower then some (c.toNat - 'a'.toNat + 10)
    else if c.isUpper then some (c.toNat - 'A'.toNat + 10)
    else none
  value?.filter (· < radix)

/-- The value of digits that follow a number read so far. -/
def digitsFrom? (radix : Nat) : Nat → Text → Option Nat
  | value, [] => some value
  | value, c :: rest =>
    match digitValue? radix c with
    | some digit => digitsFrom? radix (value * radix + digit) rest
    | none => none

/-- The value of a text of one or more digits. -/
def digits? (radix : Nat) : Text → Option Nat
  | [] => none
  | c :: rest => digitsFrom? radix 0 (c :: rest)

/-- The text without a leading plus sign. -/
def withoutPlus : Text → Text
  | [] => []
  | c :: rest => if c = '+' then rest else c :: rest

/-- A number below a limit: digits, of which a plus sign may stand in front. -/
def unsigned? (radix limit : Nat) (t : Text) : Option Nat :=
  (digits? radix (withoutPlus t)).filter (· < limit)

/-- The number of values of 32 bits. -/
def limit32 : Nat := 0x100000000

/-- The number of values of 64 bits. -/
def limit64 : Nat := 0x10000000000000000

/-- The digits of a number in base sixteen, upper case, with zeros in front up to a width. -/
def hexDigits (width n : Nat) : Text :=
  let digits := (Nat.toDigits 16 n).map Char.toUpper
  List.replicate (width - digits.length) '0' ++ digits

/-- The decimal digits of a number. -/
def decimal (n : Nat) : Text := Nat.toDigits 10 n

end AugmentedBnf.Text
