import AugmentedBnf.Text.Basic

/-! # Taking something off the front of a text -/
namespace AugmentedBnf

/-- Reads something off the front of a text and leaves the rest, or refuses the text. -/
abbrev Scan (α : Type) := Text → Option (α × Text)

namespace Scan

/-- Reads one or more characters of a class. -/
def some1 (inClass : Char → Bool) : Scan Text := fun t =>
  match t.takeWhile inClass with
  | [] => none
  | taken => some (taken, t.dropWhile inClass)

/-- Reads exactly `n` characters. -/
def exactly : (n : Nat) → Scan Text
  | 0, t => some ([], t)
  | _ + 1, [] => none
  | n + 1, c :: rest => (exactly n rest).map fun (taken, after) => (c :: taken, after)

/-- Takes a fixed word off the front of a text. -/
def word? (word t : Text) : Option Text :=
  if word.isPrefixOf t then some (t.drop word.length) else none

end Scan

end AugmentedBnf
