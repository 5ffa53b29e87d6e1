import AugmentedBnf.Text.Basic

/-! # Texts from bytes

Input is refused when it is not UTF-8. Settings are read all the same, with a replacement
character for each faulty piece.
-/
namespace AugmentedBnf.Text

/-- The text of bytes that are UTF-8. -/
def ofBytes? (bytes : ByteArray) : Option Text := (String.fromUTF8? bytes).map String.toList

/-- How many bytes follow the first byte of a character, and the least and greatest value of the
next one. -/
def following? (first : Nat) : Option (Nat × Nat × Nat) :=
  if 0xc2 ≤ first ∧ first ≤ 0xdf then some (1, 0x80, 0xbf)
  else if first = 0xe0 then some (2, 0xa0, 0xbf)
  else if first = 0xed then some (2, 0x80, 0x9f)
  else if 0xe1 ≤ first ∧ first ≤ 0xef then some (2, 0x80, 0xbf)
  else if first = 0xf0 then some (3, 0x90, 0xbf)
  else if 0xf1 ≤ first ∧ first ≤ 0xf3 then some (3, 0x80, 0xbf)
  else if first = 0xf4 then some (3, 0x80, 0x8f)
  else none

/-- The bytes that complete a character: `count` of them, the next one between two values. Gives
those that fit, and what is left. -/
def completing (least greatest : Nat) : (count : Nat) → List Nat → List Nat × List Nat
  | 0, bytes => ([], bytes)
  | _ + 1, [] => ([], [])
  | count + 1, byte :: rest =>
    if least ≤ byte ∧ byte ≤ greatest then
      let (taken, left) := completing 0x80 0xbf count rest
      (byte :: taken, left)
    else ([], byte :: rest)

/-- The code point of a first byte with the bytes that complete it. -/
def codePoint (first : Nat) (rest : List Nat) : Nat :=
  rest.foldl (fun code byte => code * 64 + (byte - 0x80)) (first % Nat.pow 2 (6 - rest.length))

/-- The text of some bytes, with a replacement character for each piece that is no character. The
count bounds the number of characters. -/
def ofFaultyBytes : (count : Nat) → List Nat → Text
  | 0, _ => []
  | _ + 1, [] => []
  | count + 1, first :: rest =>
    if first < 0x80 then Char.ofNat first :: ofFaultyBytes count rest
    else match following? first with
      | none => '\ufffd' :: ofFaultyBytes count rest
      | some (wanted, least, greatest) =>
        let (taken, left) := completing least greatest wanted rest
        let c := if taken.length = wanted then Char.ofNat (codePoint first taken) else '\ufffd'
        c :: ofFaultyBytes count left

/-- The text without a byte order mark at its front. -/
def withoutOrderMark : Text → Text
  | [] => []
  | c :: rest => if c = '\ufeff' then rest else c :: rest

/-- The text of bytes that need not be UTF-8, without a byte order mark. -/
def ofAnyBytes (bytes : ByteArray) : Text :=
  withoutOrderMark (ofFaultyBytes bytes.size (bytes.toList.map UInt8.toNat))

end AugmentedBnf.Text
