import AugmentedBnf.Proofs.Token.Lexeme
import AugmentedBnf.Text.Casing

/-! # What scanned tokens look like

A token that comes out of a scan covers a lexeme of its kind. So the text of an identifier is a name
as the notation has it, in upper case a name in capitals, and the text of a prose token is an
admissible description between angle brackets.
-/
namespace AugmentedBnf

/-- The characters of names: capital letters, digits and dashes. -/
def Text.isCapital (c : Char) : Bool := c.isUpper || c.isDigit || c == '-'

/-- A capital letter in front, then capital letters, digits and dashes. -/
def Text.isName : Text → Bool
  | [] => false
  | c :: rest => c.isUpper && rest.all isCapital

namespace Token

/-- Somewhere the text of the token is the longest lexeme, and its kind is the token's. -/
def Genuine (token : Token) : Prop :=
  ∃ rest, lexeme? (token.text ++ rest) = some (token.kind, token.text)

theorem genuine_of_scanAt {offset : Nat} {t : Text} {tokens : List Token}
    (h : scanAt offset t = .ok tokens) : ∀ token ∈ tokens, token.Genuine := by
  induction t using lexeme_induction generalizing offset tokens with
  | nil =>
    cases h
    nofun
  | none t hne hnone =>
    rw [scanAt_of_none offset hne hnone] at h
    cases h
  | some kind l rest hlexeme ih =>
    rw [scanAt_of_lexeme? offset hlexeme] at h
    cases hrest : scanAt (offset + l.byteSize) rest with
    | error cause =>
      rw [hrest] at h
      cases h
    | ok others =>
      rw [hrest] at h
      cases h
      intro token htoken
      rcases List.mem_cons.mp htoken with rfl | htoken
      · exact ⟨rest, hlexeme⟩
      · exact ih hrest token htoken

theorem genuine_of_scan {source : Text} {tokens : List Token} (h : scan source = .ok tokens) :
    ∀ token ∈ tokens, token.Genuine := by
  have hat : scanAt 0 source = .ok tokens := h
  exact genuine_of_scanAt hat

section Shape

theorem markKind?_ne {c : Char} {kind : Kind} (h : markKind? c = some kind) :
    kind ≠ .ident ∧ kind ≠ .prose ∧ kind ≠ .whitespace := by
  unfold markKind? at h
  repeat' split at h
  all_goals cases h <;> exact ⟨by decide, by decide, by decide⟩

theorem percentValue?_ne {mark : Char} {rest body : Text} {kind : Kind}
    (h : percentValue? mark rest = some (kind, body)) :
    kind ≠ .ident ∧ kind ≠ .prose ∧ kind ≠ .whitespace := by
  unfold percentValue? at h
  repeat' split at h
  case isFalse.isFalse.isFalse.isFalse.isFalse => cases h
  all_goals
    obtain ⟨_, -, heq⟩ := Option.map_eq_some_iff.mp h
    cases heq
    exact ⟨by decide, by decide, by decide⟩

theorem markLexeme?_ne {c : Char} {rest l : Text} {kind : Kind}
    (h : markLexeme? c rest = some (kind, l)) :
    kind ≠ .ident ∧ kind ≠ .prose ∧ kind ≠ .whitespace := by
  have hmark : (markKind? c).map (fun kind => (kind, [c])) = some (kind, l) →
      kind ≠ .ident ∧ kind ≠ .prose ∧ kind ≠ .whitespace := by
    intro hmap
    obtain ⟨_, hkind, heq⟩ := Option.map_eq_some_iff.mp hmap
    cases heq
    exact markKind?_ne hkind
  cases rest with
  | nil => exact hmark h
  | cons d rest =>
    rw [markLexeme?] at h
    split at h
    · obtain ⟨⟨_, _⟩, hvalue, heq⟩ := Option.map_eq_some_iff.mp h
      cases heq
      exact percentValue?_ne hvalue
    split at h
    · cases h
      exact ⟨by decide, by decide, by decide⟩
    · exact hmark h

theorem exists_of_lexeme?_ident {t l : Text} (h : lexeme? t = some (.ident, l)) :
    ∃ c body, l = c :: body ∧ isLetter c = true ∧ ∀ d ∈ body, isNameChar d = true := by
  cases t with
  | nil => cases h
  | cons c rest =>
    rw [lexeme?_cons] at h
    split at h
    · cases h
    split at h
    · rename_i hletter
      cases h
      refine ⟨c, _, rfl, hletter, ?_⟩
      exact fun d hd => List.all_eq_true.mp List.all_takeWhile d hd
    repeat' split at h
    · cases h
    · cases h
    · obtain ⟨_, -, heq⟩ := Option.map_eq_some_iff.mp h
      cases heq
    · obtain ⟨_, -, heq⟩ := Option.map_eq_some_iff.mp h
      cases heq
    · exact absurd rfl (markLexeme?_ne h).1

theorem exists_of_lexeme?_prose {t l : Text} (h : lexeme? t = some (.prose, l)) :
    ∃ body, l = '<' :: body ++ ['>'] ∧ ∀ d ∈ body, isProseChar d = true := by
  cases t with
  | nil => cases h
  | cons c rest =>
    rw [lexeme?_cons] at h
    repeat' split at h
    · cases h
    · cases h
    · cases h
    · cases h
    · obtain ⟨_, -, heq⟩ := Option.map_eq_some_iff.mp h
      cases heq
    · rename_i hc
      obtain ⟨_, henclosed, heq⟩ := Option.map_eq_some_iff.mp h
      cases heq
      obtain ⟨body, -, -, rfl, hbody⟩ := exists_of_enclosed? henclosed
      exact ⟨body, by rw [hc]; rfl, hbody⟩
    · exact absurd rfl (markLexeme?_ne h).2.1

theorem isBlank_of_lexeme? {c : Char} {rest l : Text}
    (h : lexeme? (c :: rest) = some (.whitespace, l)) : isBlank c = true := by
  rw [lexeme?_cons] at h
  repeat' split at h
  · assumption
  · cases h
  · cases h
  · cases h
  · obtain ⟨_, -, heq⟩ := Option.map_eq_some_iff.mp h
    cases heq
  · obtain ⟨_, -, heq⟩ := Option.map_eq_some_iff.mp h
    cases heq
  · exact absurd rfl (markLexeme?_ne h).2.2

end Shape

end Token

namespace Text

/-- A fact about ASCII characters can be checked for each of them. -/
theorem ascii_induction {motive : Char → Prop} (h : ∀ n : Fin 128, motive (Char.ofNat n)) {c : Char}
    (hc : c.toNat < 128) : motive c := by
  have hchar := h ⟨c.toNat, hc⟩
  rwa [Char.ofNat_toNat] at hchar

theorem toNat_lt_of_isNameChar {c : Char} (h : Token.isNameChar c = true) : c.toNat < 128 := by
  have hupper : c.isUpper = true → c.toNat ≤ 'Z'.toNat :=
    fun hc => UInt32.le_iff_toNat_le.mp (of_decide_eq_true hc).2
  have hlower : c.isLower = true → c.toNat ≤ 'z'.toNat :=
    fun hc => UInt32.le_iff_toNat_le.mp (of_decide_eq_true (Bool.and_eq_true_iff.mp hc).2)
  have hdigit : c.isDigit = true → c.toNat ≤ '9'.toNat :=
    fun hc => UInt32.le_iff_toNat_le.mp (of_decide_eq_true (Bool.and_eq_true_iff.mp hc).2)
  simp only [Token.isNameChar, Token.isLetter, Bool.or_eq_true, beq_iff_eq] at h
  rcases h with ((h | h) | h) | rfl
  · exact Nat.lt_of_le_of_lt (hupper h) (by decide)
  · exact Nat.lt_of_le_of_lt (hlower h) (by decide)
  · exact Nat.lt_of_le_of_lt (hdigit h) (by decide)
  · decide

theorem upperChar_of_isNameChar {c : Char} (h : Token.isNameChar c = true) :
    upperChar c = [c.toUpper] := by
  rw [upperChar, if_pos (toNat_lt_of_isNameChar h)]

/-- The upper case of an identifier is a name. -/
theorem isName_upper {c : Char} {body : Text} (hc : Token.isLetter c = true)
    (hbody : ∀ d ∈ body, Token.isNameChar d = true) : (upper (c :: body)).isName = true := by
  have hname : Token.isNameChar c = true := by simp [Token.isNameChar, hc]
  have hfirst : c.toUpper.isUpper = true := by
    have hall : ∀ n : Fin 128, Token.isLetter (Char.ofNat n) = true →
        (Char.ofNat n).toUpper.isUpper = true := by decide
    exact ascii_induction (motive := fun d => Token.isLetter d = true → d.toUpper.isUpper = true)
      hall (toNat_lt_of_isNameChar hname) hc
  have hlater : ∀ d, Token.isNameChar d = true → isCapital d.toUpper = true := by
    have hall : ∀ n : Fin 128, Token.isNameChar (Char.ofNat n) = true →
        isCapital (Char.ofNat n).toUpper = true := by decide
    intro d hd
    exact ascii_induction (motive := fun d => Token.isNameChar d = true →
      isCapital d.toUpper = true) hall (toNat_lt_of_isNameChar hd) hd
  have hrest : upper body = body.map Char.toUpper := by
    clear hc hname hfirst
    induction body with
    | nil => rfl
    | cons d body ih =>
      obtain ⟨hd, hbody⟩ := List.forall_mem_cons.mp hbody
      rw [upper_cons, upperChar_of_isNameChar hd, ih hbody, List.map_cons, List.singleton_append]
  rw [upper_cons, upperChar_of_isNameChar hname, hrest, List.singleton_append, isName, hfirst,
    Bool.true_and, List.all_map, List.all_eq_true]
  intro d hd
  exact hlater d (hbody d hd)

theorem isNameChar_of_isCapital {c : Char} (h : isCapital c = true) :
    Token.isNameChar c = true := by
  simp only [isCapital, Token.isNameChar, Token.isLetter, Bool.or_eq_true] at h ⊢
  rcases h with (h | h) | h
  · exact .inl (.inl (.inl h))
  · exact .inl (.inr h)
  · exact .inr h

/-- A name starts with a letter and goes on with what the lexer takes into an identifier. -/
theorem exists_of_isName {name : Text} (h : name.isName = true) :
    ∃ c rest, name = c :: rest ∧ Token.isLetter c = true ∧
      ∀ d ∈ rest, Token.isNameChar d = true := by
  cases name with
  | nil => cases h
  | cons c rest =>
    obtain ⟨hc, hrest⟩ := Bool.and_eq_true_iff.mp h
    refine ⟨c, rest, rfl, by simp [Token.isLetter, hc], ?_⟩
    intro d hd
    exact isNameChar_of_isCapital (List.all_eq_true.mp hrest d hd)

theorem isNameChar_of_isName {name : Text} (h : name.isName = true) :
    ∀ c ∈ name, Token.isNameChar c = true := by
  obtain ⟨c, rest, rfl, hc, hrest⟩ := exists_of_isName h
  exact List.forall_mem_cons.mpr ⟨by simp [Token.isNameChar, hc], hrest⟩

theorem upper_of_isName {name : Text} (h : name.isName = true) : name.upper = name := by
  have hsame : ∀ c : Char, isCapital c = true → upperChar c = [c] := by
    have hall : ∀ n : Fin 128, isCapital (Char.ofNat n) = true →
        (Char.ofNat n).toUpper = Char.ofNat n := by decide
    intro c hc
    have hname := isNameChar_of_isCapital hc
    rw [upperChar_of_isNameChar hname, ascii_induction (motive := fun d =>
      isCapital d = true → d.toUpper = d) hall (toNat_lt_of_isNameChar hname) hc]
  have hall : ∀ t : Text, (∀ d ∈ t, isCapital d = true) → t.upper = t := by
    intro t ht
    induction t with
    | nil => rfl
    | cons d t ih =>
      obtain ⟨hd, ht⟩ := List.forall_mem_cons.mp ht
      rw [upper_cons, hsame d hd, ih ht, List.singleton_append]
  cases name with
  | nil => cases h
  | cons c rest =>
    obtain ⟨hc, hrest⟩ := Bool.and_eq_true_iff.mp h
    apply hall
    intro d hd
    rcases List.mem_cons.mp hd with rfl | hd
    · simp [isCapital, hc]
    · exact List.all_eq_true.mp hrest d hd

end Text

namespace Token

theorem Genuine.isName {token : Token} (h : token.Genuine) (hkind : token.kind = .ident) :
    token.text.upper.isName = true := by
  obtain ⟨rest, hlexeme⟩ := h
  rw [hkind] at hlexeme
  obtain ⟨c, body, heq, hc, hbody⟩ := exists_of_lexeme?_ident hlexeme
  rw [heq]
  exact Text.isName_upper hc hbody

theorem Genuine.isProse {token : Token} (h : token.Genuine) (hkind : token.kind = .prose) :
    ∀ c ∈ token.text.inside 1 1, isProseChar c = true := by
  obtain ⟨rest, hlexeme⟩ := h
  rw [hkind] at hlexeme
  obtain ⟨body, heq, hbody⟩ := exists_of_lexeme?_prose hlexeme
  have hinside : token.text.inside 1 1 = body := by
    rw [heq]
    exact Text.inside_append ['<'] body ['>']
  rw [hinside]
  exact hbody

end Token

end AugmentedBnf
