import AugmentedBnf.Text.Basic
import AugmentedBnf.Text.CaseTables
import AugmentedBnf.Text.Cased

/-! # Upper and lower case

The full case mapping of a character is a text, because some characters have a mapping of
several characters. Names are compared through their upper case.
-/
namespace AugmentedBnf.Text

/-- The mapping of one code point by a table of expansions and runs; other characters map to
themselves. -/
def mapCode (expansions : List (Nat × List Nat)) (runs : List CaseRun) (c : Char) : Text :=
  match expansions.lookup c.toNat with
  | some codes => codes.map Char.ofNat
  | none =>
    match runs.find? (·.covers c.toNat) with
    | some run => [Char.ofNat (c.toNat + run.shift).toNat]
    | none => [c]

/-- The upper case of a character. -/
def upperChar (c : Char) : Text :=
  if c.toNat < 128 then [c.toUpper] else mapCode upperExpansions upperRuns c

/-- The lower case of a character. -/
def lowerChar (c : Char) : Text :=
  if c.toNat < 128 then [c.toLower] else mapCode lowerExpansions lowerRuns c

/-- The upper case of a text, character by character. -/
def upper (t : Text) : Text := t.flatMap upperChar

/-- Whether the first character that is not passed over is a cased one. -/
def meetsCased (t : Text) : Bool :=
  match t.dropWhile isCaseIgnorable with
  | [] => false
  | c :: _ => isCased c

/-- The lower case of what follows `before`, which is given last character first. A capital sigma
that ends a word becomes the final sigma. -/
def lowerAfter (before : Text) : Text → Text
  | [] => []
  | c :: rest =>
    let lowered :=
      if c = 'Σ' then
        if meetsCased before && !meetsCased rest then ['ς'] else ['σ']
      else lowerChar c
    lowered ++ lowerAfter (c :: before) rest

/-- The lower case of a text. -/
def lower (t : Text) : Text := lowerAfter [] t

/-- Two names are the same when their upper cases are equal. -/
def sameName (s t : Text) : Bool := upper s == upper t

/-- Two texts are equal up to the case of ASCII letters. -/
def sameAscii (s t : Text) : Bool := s.map Char.toLower == t.map Char.toLower

@[simp] theorem upper_nil : upper [] = [] := rfl

@[simp] theorem upper_cons (c : Char) (t : Text) : upper (c :: t) = upperChar c ++ upper t := rfl

@[simp] theorem upper_append (s t : Text) : upper (s ++ t) = upper s ++ upper t := by
  simp [upper]

end AugmentedBnf.Text
