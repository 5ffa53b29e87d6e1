import AugmentedBnf.Settings.Setting

/-! # Numbers and dates of TOML

A number or a date is a run of characters that is classified as a whole. Dates are kept as
texts.
-/
namespace AugmentedBnf.Toml

/-- The characters of numbers, dates and words. -/
def isWordChar (c : Char) : Bool :=
  c.isDigit || c.isUpper || c.isLower || c == '_' || c == '+' || c == '-' || c == '.' || c == ':'

/-- The digits of a text in which single underscores may stand between digits. -/
def spacedDigits? (isDigit : Char → Bool) (t : Text) : Option Text :=
  let groups := Text.splitAt '_' t
  if groups.all fun group => !group.isEmpty && group.all isDigit then some groups.flatten else none

/-- The sign of a number and what follows it. -/
def splitSign : Text → Bool × Text
  | '-' :: rest => (true, rest)
  | '+' :: rest => (false, rest)
  | t => (false, t)

/-- Decimal digits of which the first is not a superfluous zero. -/
def wholeDigits? (t : Text) : Option Text :=
  (spacedDigits? Char.isDigit t).filter fun digits => digits.length == 1 || digits.head? != some '0'

/-- The value of digits in a radix, with underscores between them. -/
def basedValue? (radix : Nat) (t : Text) : Option Nat :=
  (spacedDigits? (fun c => (Text.digitValue? radix c).isSome) t).bind (Text.digits? radix)

/-- A 64-bit number in base ten, or without a sign in base sixteen, eight or two. -/
def integer? (t : Text) : Option Int :=
  match t with
  | '0' :: 'x' :: rest => ofMagnitude false (basedValue? 16 rest)
  | '0' :: 'o' :: rest => ofMagnitude false (basedValue? 8 rest)
  | '0' :: 'b' :: rest => ofMagnitude false (basedValue? 2 rest)
  | _ =>
    let (negative, body) := splitSign t
    ofMagnitude negative ((wholeDigits? body).bind (Text.digits? 10))
where
  /-- The number with a sign, if it fits. -/
  ofMagnitude (negative : Bool) (magnitude : Option Nat) : Option Int :=
    magnitude.bind fun n =>
      if negative then if n ≤ 0x8000000000000000 then some (-(n : Int)) else none
      else if n < 0x8000000000000000 then some (n : Int) else none

/-- The exponent of a float: nothing, or a mark with a sign and digits. -/
def exponent? : Text → Option Int
  | [] => some 0
  | c :: rest =>
    if c = 'e' ∨ c = 'E' then do
      let (negative, body) := splitSign rest
      let n ← Text.digits? 10 (← spacedDigits? Char.isDigit body)
      return if negative then -(n : Int) else n
    else none

/-- The double nearest to `significand · 10 ^ exponent`. -/
def double (significand : Nat) (exponent : Int) : Float :=
  let magnitude : Int := (Nat.toDigits 10 significand).length + exponent
  if significand = 0 ∨ magnitude < -400 then 0
  else if 400 < magnitude then 1.0 / 0.0
  else if 0 ≤ exponent then Float.ofScientific (significand * Nat.pow 10 exponent.toNat) false 0
  else Float.ofScientific significand true exponent.natAbs

/-- A float with a point, an exponent or both. One that is too large is refused. -/
def float? (t : Text) : Option Float :=
  let (negative, body) := splitSign t
  if body = "inf".toList then some (if negative then -1.0 / 0.0 else 1.0 / 0.0)
  else if body = "nan".toList then some (0.0 / 0.0)
  else
    let whole := body.takeWhile fun c => c.isDigit || c == '_'
    let afterWhole := body.drop whole.length
    let hasPoint := afterWhole.head? == some '.'
    let afterPoint := if hasPoint then afterWhole.drop 1 else afterWhole
    let fraction := if hasPoint then afterPoint.takeWhile fun c => c.isDigit || c == '_' else []
    let tail := afterPoint.drop fraction.length
    if !hasPoint && tail.isEmpty then none
    else do
      let wholeDigits ← wholeDigits? whole
      let fractionDigits ← if hasPoint then spacedDigits? Char.isDigit fraction else some []
      let exponent ← exponent? tail
      let significand ← Text.digits? 10 (wholeDigits ++ fractionDigits)
      let value := double significand (exponent - fractionDigits.length)
      if negative then some (-value) else if value == 1.0 / 0.0 then none else some value

/-- Two digits with a value in a range. -/
def twoDigits? (least greatest : Nat) (t : Text) : Option Nat :=
  if t.length = 2 then (Text.digits? 10 t).filter fun n => least ≤ n && n ≤ greatest else none

/-- The number of days of a month. -/
def daysIn (year month : Nat) : Nat :=
  let isLeap := year % 4 == 0 && (year % 100 != 0 || year % 400 == 0)
  if month = 2 then if isLeap then 29 else 28
  else if month = 4 ∨ month = 6 ∨ month = 9 ∨ month = 11 then 30
  else 31

/-- Whether a text is a date: year, month and day with dashes. -/
def isDate (t : Text) : Bool :=
  match Text.splitAt '-' t with
  | [year, month, day] =>
    year.length == 4 &&
      ((Text.digits? 10 year).any fun y => (twoDigits? 1 12 month).any fun m =>
        (twoDigits? 1 (daysIn y m) day).isSome)
  | _ => false

/-- Whether a text is a time: hour, minute and second with colons, and a fraction. -/
def isTime (t : Text) : Bool :=
  match Text.splitAt ':' t with
  | [hour, minute, second] =>
    (twoDigits? 0 23 hour).isSome && (twoDigits? 0 59 minute).isSome &&
      (twoDigits? 0 60 (second.take 2)).isSome &&
      (match second.drop 2 with
        | [] => true
        | c :: fraction => c == '.' && !fraction.isEmpty && fraction.all Char.isDigit)
  | _ => false

/-- Whether a text is a distance from universal time. -/
def isOffset : Text → Bool
  | [c] => c == 'Z' || c == 'z'
  | c :: rest =>
    (c == '+' || c == '-') &&
      (match Text.splitAt ':' rest with
        | [hour, minute] => (twoDigits? 0 23 hour).isSome && (twoDigits? 0 59 minute).isSome
        | _ => false)
  | [] => false

/-- Whether a text is a time that an offset may follow. -/
def isZonedTime (t : Text) : Bool :=
  let time := t.takeWhile fun c => c.isDigit || c == ':' || c == '.'
  isTime time && (time.length == t.length || isOffset (t.drop time.length))

/-- Whether a text is a date, a time, or a date with a time. -/
def isDateTime (t : Text) : Bool :=
  isDate t || isTime t ||
    (isDate (t.take 10) &&
      (match t.drop 10 with
        | c :: time => (c == 'T' || c == 't') && isZonedTime time
        | [] => false))

/-- The value that a run of characters stands for. -/
def wordValue? (t : Text) : Option Setting :=
  if t = "true".toList then some (.switch true)
  else if t = "false".toList then some (.switch false)
  else if isDateTime t then some (.text t)
  else match integer? t with
    | some n => some (.integer n)
    | none => (float? t).map .float

end AugmentedBnf.Toml
