import AugmentedBnf.Proofs.Token.Munch

/-! # Tokens as cuts of their source

The tokens of a source are cuts of it between characters, and what stands inside the marks of a token is
a cut of its text.
-/
namespace AugmentedBnf

/-- How many bytes of a token stand in front of what is inside its marks, and behind it. -/
def Token.Kind.trim? : Token.Kind → Option (Nat × Nat)
  | quoted | prose => some (1, 1)
  | insensitiveQuoted | sensitiveQuoted => some (3, 1)
  | binary | decimal | hexadecimal => some (2, 0)
  | _ => none

/-- The text of the token can be cut out of the source, and what is inside its marks out of its
text. -/
structure Token.CutFrom (source : Text) (token : Token) : Prop where
  text : source.slice? token.offset token.stop = some token.text
  inside : ∀ front back, token.kind.trim? = some (front, back) →
    ∃ body, token.text.slice? front (token.text.byteSize - back) = some body

theorem Token.exists_inside_of_quotedString {text : Text} (h : text ∈ quotedString) :
    ∃ body, text = ['"'] ++ (body ++ ['"']) := by
  rw [quotedString, quotedChar_eq] at h
  obtain ⟨body, rfl, -⟩ := mem_enclosed.mp h
  exact ⟨body, rfl⟩

/-- Behind a percent sign and a mark stand so many bytes of an opening, a body and a closing. -/
theorem Token.exists_slice_of_marked {lower upper : Char} {L : Language Char} {text closing : Text}
    (opening : Text) (hlower : lower.utf8Size = 1) (hupper : upper.utf8Size = 1)
    (hbody : ∀ w ∈ L, ∃ body, w = opening ++ (body ++ closing)) (h : text ∈ marked lower upper L) :
    ∃ body, text.slice? (2 + opening.byteSize) (text.byteSize - closing.byteSize) = some body := by
  obtain ⟨mark, w, rfl, hmark, hw⟩ := mem_marked.mp h
  obtain ⟨body, rfl⟩ := hbody w hw
  have hsize : Text.byteSize ('%' :: mark :: opening) = 2 + opening.byteSize := by
    have hone : mark.utf8Size = 1 := by rcases hmark with rfl | rfl <;> assumption
    have hpercent : '%'.utf8Size = 1 := rfl
    rw [Text.byteSize_cons, Text.byteSize_cons, hone, hpercent]
    omega
  have hslice := Text.slice?_append ('%' :: mark :: opening) body closing
  rw [hsize] at hslice
  exact ⟨body, hslice⟩

theorem Token.Longest.cutFrom {source : Text} {token : Token} (h : token.Longest source) :
    token.CutFrom source where
  text := h.place.slice?_eq
  inside := by
    have hpattern := h.pattern
    have hnumeric : ∀ L : Language Char, ∀ w ∈ L, ∃ body, w = [] ++ (body ++ []) :=
      fun _ w _ => ⟨w, (List.append_nil w).symm⟩
    have hquoted : ∀ w ∈ quotedString, ∃ body, w = ['"'] ++ (body ++ ['"']) :=
      fun w hw => exists_inside_of_quotedString hw
    intro front back htrim
    cases hkind : token.kind <;> rw [hkind] at htrim hpattern <;> cases htrim
    case binary => exact exists_slice_of_marked [] rfl rfl (hnumeric _) hpattern
    case decimal => exact exists_slice_of_marked [] rfl rfl (hnumeric _) hpattern
    case hexadecimal => exact exists_slice_of_marked [] rfl rfl (hnumeric _) hpattern
    case insensitiveQuoted => exact exists_slice_of_marked ['"'] rfl rfl hquoted hpattern
    case sensitiveQuoted => exact exists_slice_of_marked ['"'] rfl rfl hquoted hpattern
    case quoted =>
      obtain ⟨body, hbody⟩ := exists_inside_of_quotedString hpattern
      rw [hbody]
      exact ⟨body, Text.slice?_append ['"'] body ['"']⟩
    case prose =>
      rw [Kind.pattern, proseChar_eq] at hpattern
      obtain ⟨body, hbody, -⟩ := mem_enclosed.mp hpattern
      rw [hbody]
      exact ⟨body, Text.slice?_append ['<'] body ['>']⟩

theorem Token.cutFrom_of_scan {source : Text} {tokens : List Token} (h : scan source = .ok tokens) :
    ∀ token ∈ tokens, token.CutFrom source :=
  fun token htoken => ((munches_of_scan h).2 token htoken).cutFrom

end AugmentedBnf
