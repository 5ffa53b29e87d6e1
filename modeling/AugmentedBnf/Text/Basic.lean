/-! # Texts and their byte offsets

A text is the list of its characters. Offsets and lengths count bytes of its UTF-8 form, so a
cut is only possible between two characters.
-/
namespace AugmentedBnf

/-- A text is the list of its characters. -/
abbrev Text := List Char

namespace Text

/-- The number of bytes of the UTF-8 form. -/
def byteSize : Text → Nat
  | [] => 0
  | c :: rest => c.utf8Size + byteSize rest

@[simp] theorem byteSize_nil : byteSize [] = 0 := rfl

@[simp] theorem byteSize_cons (c : Char) (t : Text) :
    byteSize (c :: t) = c.utf8Size + byteSize t := rfl

@[simp] theorem byteSize_append (s t : Text) :
    byteSize (s ++ t) = byteSize s + byteSize t := by
  induction s with
  | nil => simp
  | cons c s ih => simp [ih, Nat.add_assoc]

/-- The text from byte `n` on, if `n` is a boundary between characters. -/
def dropBytes? : Nat → Text → Option Text
  | 0, t => some t
  | _ + 1, [] => none
  | n + 1, c :: rest => if c.utf8Size ≤ n + 1 then dropBytes? (n + 1 - c.utf8Size) rest else none

/-- The first `n` bytes of the text, if `n` is a boundary between characters. -/
def takeBytes? : Nat → Text → Option Text
  | 0, _ => some []
  | _ + 1, [] => none
  | n + 1, c :: rest =>
    if c.utf8Size ≤ n + 1 then (takeBytes? (n + 1 - c.utf8Size) rest).map (c :: ·) else none

/-- The bytes from `start` up to `stop`, if both are boundaries in this order. -/
def slice? (t : Text) (start stop : Nat) : Option Text :=
  if start ≤ stop then (dropBytes? start t).bind (takeBytes? (stop - start)) else none

/-- The text without some bytes at its front and at its back, or nothing if it cannot be cut
there. -/
def inside (t : Text) (front back : Nat) : Text := (t.slice? front (t.byteSize - back)).getD []

/-- Cutting a text after its first part leaves the second. -/
theorem dropBytes?_append (s t : Text) : dropBytes? (byteSize s) (s ++ t) = some t := by
  induction s with
  | nil => cases t <;> rfl
  | cons c s ih =>
    have hc : 0 < c.utf8Size := Char.utf8Size_pos c
    obtain ⟨k, hk⟩ : ∃ k, byteSize (c :: s) = k + 1 := ⟨c.utf8Size + byteSize s - 1, by simp; omega⟩
    have hsum : c.utf8Size + byteSize s = k + 1 := by simpa using hk
    rw [hk, List.cons_append, dropBytes?, if_pos (by omega)]
    rwa [show k + 1 - c.utf8Size = byteSize s by omega]

/-- The first bytes of a text are its first part. -/
theorem takeBytes?_append (s t : Text) : takeBytes? (byteSize s) (s ++ t) = some s := by
  induction s with
  | nil => cases t <;> rfl
  | cons c s ih =>
    have hc : 0 < c.utf8Size := Char.utf8Size_pos c
    obtain ⟨k, hk⟩ : ∃ k, byteSize (c :: s) = k + 1 := ⟨c.utf8Size + byteSize s - 1, by simp; omega⟩
    have hsum : c.utf8Size + byteSize s = k + 1 := by simpa using hk
    rw [hk, List.cons_append, takeBytes?, if_pos (by omega)]
    rw [show k + 1 - c.utf8Size = byteSize s by omega, ih]
    rfl

/-- Between a first and a last part stands the middle one. -/
theorem inside_append (s t u : Text) :
    inside (s ++ (t ++ u)) (byteSize s) (byteSize u) = t := by
  have hsize : byteSize (s ++ (t ++ u)) - byteSize u - byteSize s = byteSize t := by
    simp only [byteSize_append]
    omega
  have horder : byteSize s ≤ byteSize (s ++ (t ++ u)) - byteSize u := by
    simp only [byteSize_append]
    omega
  simp only [inside, slice?, if_pos horder, dropBytes?_append, Option.bind_some, hsize,
    takeBytes?_append, Option.getD_some]

/-- Joins texts with a separator between neighbours. -/
def join (separator : Text) : List Text → Text
  | [] => []
  | [t] => t
  | t :: rest => t ++ separator ++ join separator rest

theorem join_singleton (separator t : Text) : join separator [t] = t := rfl

/-- The separator stands behind a text in front of others. -/
theorem join_cons {rest : List Text} (h : rest ≠ []) (separator t : Text) :
    join separator (t :: rest) = t ++ separator ++ join separator rest := by
  cases rest with
  | nil => exact absurd rfl h
  | cons next rest => rfl

/-- The parts of a text between the occurrences of a character; there is always one part. -/
def splitAt (mark : Char) : Text → List Text
  | [] => [[]]
  | c :: rest =>
    if c = mark then [] :: splitAt mark rest
    else match splitAt mark rest with
      | [] => [[c]]
      | part :: parts => (c :: part) :: parts

/-- What stands before and after the first occurrence of a character. -/
def splitOnce? (mark : Char) : Text → Option (Text × Text)
  | [] => none
  | c :: rest =>
    if c = mark then some ([], rest)
    else (splitOnce? mark rest).map fun (before, after) => (c :: before, after)

end Text

end AugmentedBnf
