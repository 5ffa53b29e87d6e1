import AugmentedBnf.Text.Casing
import AugmentedBnf.Text.Quoted

/-! # Rule paths

A path lists the rules that were entered to reach a place of the evaluation.
-/
namespace AugmentedBnf

/-- A stack of rule names, the last one entered first. -/
structure Path where
  fromTail : List Text
  deriving DecidableEq

namespace Path

/-- The path that no rule was entered on. -/
def empty : Path := ⟨[]⟩

/-- The path with one more name. -/
def fork (path : Path) (name : Text) : Path := ⟨name :: path.fromTail⟩

/-- The path with the given names, in order. -/
def ofSegments (segments : List Text) : Path := segments.foldl fork empty

/-- The names in the order they were entered. -/
def segments (path : Path) : List Text := path.fromTail.reverse

/-- The number of names. -/
def length (path : Path) : Nat := path.fromTail.length

/-- Whether no rule was entered. -/
def isEmpty (path : Path) : Bool := path.fromTail.isEmpty

/-- The name entered last. -/
def tail? (path : Path) : Option Text := path.fromTail.head?

/-- Whether two lists hold the same names, up to case. -/
def sameNames (names others : List Text) : Bool :=
  names.length == others.length && (names.zip others).all fun (name, other) => Text.sameName name other

/-- Whether the path holds the given names in order, up to case. -/
def matchesSegments (path : Path) (names : List Text) : Bool :=
  sameNames path.fromTail names.reverse

/-- Whether two paths hold the same names in order, up to case. -/
def matchesPath (path other : Path) : Bool := sameNames path.fromTail other.fromTail

/-- The names in upper case with arrows between them. -/
def render (path : Path) : Text := Text.join ['=', '>'] (path.segments.map Text.upper)

/-- The names as a list of quoted texts. -/
def describe (path : Path) : Text := Text.quotedList path.segments

theorem fromTail_foldl_fork (names : List Text) (path : Path) :
    (names.foldl fork path).fromTail = names.reverse ++ path.fromTail := by
  induction names generalizing path with
  | nil => rfl
  | cons name names ih => simp [ih, fork]

@[simp] theorem segments_ofSegments (names : List Text) : (ofSegments names).segments = names := by
  simp [ofSegments, segments, fromTail_foldl_fork, empty]

theorem ofSegments_append_singleton (names : List Text) (name : Text) :
    ofSegments (names ++ [name]) = (ofSegments names).fork name := by
  simp [ofSegments]

theorem ofSegments_segments (path : Path) : ofSegments path.segments = path :=
  congrArg mk (by rw [fromTail_foldl_fork]; simp [segments, empty])

@[simp] theorem segments_fork (path : Path) (name : Text) :
    (path.fork name).segments = path.segments ++ [name] := by
  simp [fork, segments]

/-- Comparing with names is comparing with the path of these names. -/
theorem matchesSegments_eq_matchesPath (path : Path) (names : List Text) :
    path.matchesSegments names = path.matchesPath (ofSegments names) := by
  simp [matchesSegments, matchesPath, ofSegments, fromTail_foldl_fork, empty]

end Path

end AugmentedBnf
