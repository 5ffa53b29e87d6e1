import AugmentedBnf.Text.Numeral

/-! # Sets of characters

A charset is the strictly ascending list of its members. It is written as the maximal runs of
consecutive code points.
-/
namespace AugmentedBnf

/-- A finite set of characters, listed in ascending order. -/
structure Charset where
  members : List Char
  ascending : members.Pairwise (· < ·)
  deriving DecidableEq

namespace Charset

/-- Adds a character to an ascending list at its place. -/
def place (c : Char) : List Char → List Char
  | [] => [c]
  | d :: rest => if c < d then c :: d :: rest else if c = d then d :: rest else d :: place c rest

theorem mem_place {c x : Char} {cs : List Char} : x ∈ place c cs ↔ x = c ∨ x ∈ cs := by
  induction cs with
  | nil => simp [place]
  | cons d cs ih =>
    simp only [place]
    split
    · simp
    · split
      · subst_vars; simp
      · simp only [List.mem_cons, ih]
        exact or_left_comm

theorem pairwise_place {c : Char} {cs : List Char} (h : cs.Pairwise (· < ·)) :
    (place c cs).Pairwise (· < ·) := by
  induction cs with
  | nil => simp [place]
  | cons d cs ih =>
    obtain ⟨hd, hcs⟩ := List.pairwise_cons.1 h
    simp only [place]
    split
    · rename_i hlt
      refine List.pairwise_cons.2 ⟨fun x hx => ?_, h⟩
      rcases List.mem_cons.1 hx with rfl | hx
      · exact hlt
      · exact Char.lt_trans hlt (hd x hx)
    · split
      · exact h
      · rename_i hlt hne
        refine List.pairwise_cons.2 ⟨fun x hx => ?_, ih hcs⟩
        rcases mem_place.1 hx with rfl | hx
        · exact Char.not_le.1 fun hle => hne (Char.le_antisymm hle (Char.not_lt.1 hlt))
        · exact hd x hx

/-- The set without members. -/
def empty : Charset := ⟨[], .nil⟩

/-- Adds a character to a set. -/
def insert (c : Char) (set : Charset) : Charset := ⟨place c set.members, pairwise_place set.ascending⟩

/-- The set of the characters of a list. -/
def ofList (cs : List Char) : Charset := cs.foldr insert empty

/-- The characters with code points from `first` to `last`. -/
def range (first last : Nat) : Charset :=
  ofList ((List.range' first (last + 1 - first)).map Char.ofNat)

/-- Whether a character is a member. -/
def contains (set : Charset) (c : Char) : Bool := set.members.contains c

theorem contains_iff {set : Charset} {c : Char} : set.contains c = true ↔ c ∈ set.members := by
  simp [contains]

theorem mem_ofList {c : Char} {cs : List Char} : c ∈ (ofList cs).members ↔ c ∈ cs := by
  induction cs with
  | nil => simp [ofList, empty]
  | cons d cs ih =>
    rw [show (ofList (d :: cs)).members = place d (ofList cs).members from rfl, mem_place, ih]
    simp

/-- The maximal runs of consecutive code points of an ascending list, as first and last. -/
def runsOf : List Char → List (Nat × Nat)
  | [] => []
  | c :: rest =>
    match runsOf rest with
    | [] => [(c.toNat, c.toNat)]
    | (first, last) :: more =>
      if c.toNat + 1 = first then (c.toNat, last) :: more
      else (c.toNat, c.toNat) :: (first, last) :: more

/-- The maximal runs of consecutive code points. -/
def runs (set : Charset) : List (Nat × Nat) := runsOf set.members

/-- A run as a numeric value: one code point, or its ends with a dash. -/
def renderRun : Nat × Nat → Text
  | (first, last) =>
    if first = last then '%' :: 'x' :: Text.hexDigits 2 first
    else '%' :: 'x' :: Text.hexDigits 2 first ++ '-' :: Text.hexDigits 2 last

/-- One run is written plainly; any other number of them as a choice in parentheses. -/
def render (set : Charset) : Text :=
  match set.runs.map renderRun with
  | [run] => run
  | values => '(' :: Text.join [' ', '/', ' '] values ++ [')']

end Charset

end AugmentedBnf
