import AugmentedBnf.Proofs.Expression.Phrase
import AugmentedBnf.Proofs.Grammar.LineEndings
import AugmentedBnf.Proofs.Token.Genuine

/-! # Tokens of texts that are joined at the end of a line

A line break cannot be part of a longer lexeme, so a text that ends in a line feed keeps its tokens
whatever is put behind it, and what is put behind it has the tokens that it has on its own, at other
offsets.
-/
namespace AugmentedBnf.Token

/-- The text is empty or its last line is complete. -/
def EndsLine (s : Text) : Prop := s = [] ∨ s.getLast? = some '\n'

theorem lexeme?_append_of_getLast? {s : Text} (h : s.getLast? = some '\n') (t : Text) :
    lexeme? (s ++ t) = lexeme? s := by
  cases start s with
  | nil => cases h
  | crlf rest => rw [List.append_assoc, lexeme?_crlf, lexeme?_crlf]
  | lf rest => rw [List.append_assoc, lexeme?_lf, lexeme?_lf]
  | stray rest hrest =>
    cases rest with
    | nil => exact absurd h (by decide)
    | cons d rest =>
      have hstill : (d :: rest ++ t).head? ≠ some '\n' := hrest
      rw [List.cons_append, lexeme?_return hstill, lexeme?_return hrest]
  | line p r hne hp hr =>
    -- the line feed at the end lies behind the first line
    have hr' : AtLineEnd (r ++ t) := by
      cases r with
      | nil =>
        rw [List.append_nil] at h
        have hfeed := hp '\n' (List.mem_of_getLast? h)
        exact absurd hfeed (by decide)
      | cons d rest => exact hr
    rw [List.append_assoc, lexeme?_append_lineEnd hne hp hr', lexeme?_append_lineEnd hne hp hr]

theorem EndsLine.of_append {l rest : Text} (h : EndsLine (l ++ rest)) : EndsLine rest := by
  cases hrest : rest.getLast? with
  | none => exact .inl (List.getLast?_eq_none_iff.mp hrest)
  | some c =>
    rcases h with hnil | hlast
    · exact .inl (List.append_eq_nil_iff.mp hnil).2
    · rw [List.getLast?_append, hrest] at hlast
      exact .inr (hrest.trans hlast)

/-- A text whose last line is complete keeps its tokens, and the tokens of what follows come after
them. -/
theorem scanAt_append {s : Text} (hs : EndsLine s) {offset : Nat} {tokens : List Token}
    (h : scanAt offset s = .ok tokens) (t : Text) :
    scanAt offset (s ++ t) = (scanAt (offset + s.byteSize) t).map (tokens ++ ·) := by
  induction s using lexeme_induction generalizing offset tokens with
  | nil =>
    cases h
    rw [List.nil_append, Text.byteSize_nil, Nat.add_zero]
    cases scanAt offset t <;> rfl
  | none s hne hnone =>
    rw [scanAt_of_none offset hne hnone] at h
    cases h
  | some kind l rest hlexeme ih =>
    have hlast : (l ++ rest).getLast? = some '\n' := by
      rcases hs with hnil | hlast
      · rw [hnil] at hlexeme
        cases hlexeme
      · exact hlast
    have hlexeme' : lexeme? (l ++ (rest ++ t)) = some (kind, l) := by
      rw [← List.append_assoc, lexeme?_append_of_getLast? hlast, hlexeme]
    rw [scanAt_of_lexeme? offset hlexeme] at h
    cases hrest : scanAt (offset + l.byteSize) rest with
    | error cause =>
      rw [hrest] at h
      cases h
    | ok others =>
      rw [hrest] at h
      cases h
      rw [List.append_assoc, scanAt_of_lexeme? offset hlexeme', ih hs.of_append hrest,
        Text.byteSize_append, Nat.add_assoc]
      cases scanAt (offset + (l.byteSize + rest.byteSize)) t <;> rfl

/-- The last token of a text that ends in a line feed is a line break. -/
theorem exists_lineBreak_of_scanAt {s : Text} (hs : s.getLast? = some '\n') {offset : Nat}
    {tokens : List Token} (h : scanAt offset s = .ok tokens) :
    ∃ front line, tokens = front ++ [line] ∧ line.kind = .lineBreak := by
  induction s using lexeme_induction generalizing offset tokens with
  | nil => cases hs
  | none s hne hnone =>
    rw [scanAt_of_none offset hne hnone] at h
    cases h
  | some kind l rest hlexeme ih =>
    rw [scanAt_of_lexeme? offset hlexeme] at h
    cases hrest : scanAt (offset + l.byteSize) rest with
    | error cause =>
      rw [hrest] at h
      cases h
    | ok others =>
      rw [hrest] at h
      cases h
      rcases EndsLine.of_append (.inr hs) with rfl | hlast
      · cases hrest
        rw [List.append_nil] at hs
        rcases lexeme?_line hlexeme with ⟨hkind, -⟩ | hline
        · exact ⟨[], ofLexeme kind offset l, rfl, hkind⟩
        · exact absurd (hline '\n' (List.mem_of_getLast? hs)) (by decide)
      · obtain ⟨front, line, rfl, hkind⟩ := ih hlast hrest
        exact ⟨_ :: front, line, rfl, hkind⟩

/-- The tokens of a text do not depend on where it starts. -/
theorem scanAt_shift (t : Text) (offset offset' : Nat) :
    UpToOffsets (List.Forall₂ Token.Alike) (scanAt offset t) (scanAt offset' t) := by
  induction t using lexeme_induction generalizing offset offset' with
  | nil => exact .nil
  | none t hne hnone =>
    rw [scanAt_of_none offset hne hnone, scanAt_of_none offset' hne hnone]
    exact rfl
  | some kind l rest hlexeme ih =>
    rw [scanAt_of_lexeme? offset hlexeme, scanAt_of_lexeme? offset' hlexeme]
    exact (ih _ _).map fun _ _ htokens => .cons ⟨rfl, fun _ => rfl⟩ htokens

/-- A text that does not start with a blank does not start with a token of blanks. -/
theorem headKind?_ne_of_scanAt {t : Text} (ht : ∀ c ∈ t.head?, isBlank c = false) {offset : Nat}
    {tokens : List Token} (h : scanAt offset t = .ok tokens) :
    headKind? tokens ≠ some .whitespace := by
  cases hl : lexeme? t with
  | none =>
    by_cases hne : t = []
    · subst hne
      cases h
      nofun
    · rw [scanAt_of_none offset hne hl] at h
      cases h
  | some found =>
    obtain ⟨kind, l⟩ := found
    obtain ⟨-, rest, rfl⟩ := lexeme?_isPrefix hl
    rw [scanAt_of_lexeme? offset hl] at h
    cases hrest : scanAt (offset + l.byteSize) rest with
    | error cause =>
      rw [hrest] at h
      cases h
    | ok others =>
      rw [hrest] at h
      cases h
      intro hkind
      obtain rfl : kind = .whitespace := Option.some.inj hkind
      cases hchars : l ++ rest with
      | nil =>
        rw [hchars] at hl
        cases hl
      | cons c chars =>
        rw [hchars] at hl ht
        have hblank := isBlank_of_lexeme? hl
        rw [ht c rfl] at hblank
        cases hblank

end AugmentedBnf.Token
