import Mathlib
import AugmentedBnf.Proofs.Evaluation.Language
import AugmentedBnf.Proofs.Evaluation.Termination
import AugmentedBnf.Proofs.Expression.Reading
import AugmentedBnf.Proofs.Token.Pattern

/-! # What quoted strings match

A string in double quotes is one lexeme, with or without a mark of its case in front, and is read as a
literal with one position for each character between the quotes. A literal matches what starts with a
string of its language. So a string that is sensitive to case matches itself, and any other string of
ASCII characters matches what differs from it in the case of ASCII letters only.
-/
namespace AugmentedBnf

/-- A source that as a whole matches a pattern is a single token. -/
theorem Token.scan_of_mem_pattern {kind : Kind} {w : Text} (h : w ∈ kind.pattern) :
    scan w = .ok [ofLexeme kind 0 w] := by
  obtain ⟨l, hlexeme, hfront⟩ := recognized_of_mem_pattern h []
  obtain rfl : w = l := by
    have hback := (lexeme?_isPrefix hlexeme).2
    rw [List.append_nil] at hback
    exact hfront.eq_of_length_le hback.length_le
  have hscan := scanAt_of_lexeme? 0 hlexeme
  rwa [List.append_nil] at hscan

/-- Between double quotes stands what does not end the string or its line. -/
theorem Token.quoted_mem {p : Text} (hquote : '"' ∉ p) (hreturn : '\r' ∉ p) (hline : '\n' ∉ p) :
    '"' :: (p ++ ['"']) ∈ quotedString := by
  rw [quotedString, quotedChar_eq, mem_enclosed]
  refine ⟨p, rfl, fun c hc => ?_⟩
  have hne : c ≠ '"' ∧ c ≠ '\r' ∧ c ≠ '\n' :=
    ⟨fun h => hquote (h ▸ hc), fun h => hreturn (h ▸ hc), fun h => hline (h ▸ hc)⟩
  simpa [isQuotedChar, and_assoc] using hne

namespace Text

variable {s t : Text}

theorem byteSize_of_ascii (h : ∀ c ∈ t, c.toNat < 128) : t.byteSize = t.length := by
  induction t with
  | nil => rfl
  | cons c t ih =>
    obtain ⟨hc, ht⟩ := List.forall_mem_cons.mp h
    have hone : c.utf8Size = 1 :=
      Char.utf8Size_eq_one_iff.mpr (UInt32.le_iff_toNat_le.mpr (Nat.le_of_lt_succ hc))
    rw [byteSize_cons, hone, ih ht, List.length_cons, Nat.add_comm]

theorem sameAscii_iff : sameAscii s t = true ↔ List.Forall₂ (fun c d => c.toLower = d.toLower) s t := by
  rw [sameAscii, beq_iff_eq, ← List.forall₂_eq_eq_eq, List.forall₂_map_left_iff,
    List.forall₂_map_right_iff]

end Text

namespace Literal

section Matching

variable {sets : List Charset} {literal : Literal} {w t : Text} {n : Nat}

theorem matchSets?_append (h : List.Forall₂ (fun (set : Charset) c => c ∈ set.members) sets w)
    (rest : Text) : matchSets? sets (w ++ rest) = some w.byteSize := by
  induction h with
  | nil => cases rest <;> rfl
  | cons hc _ ih =>
    rw [List.cons_append, matchSets?, if_pos (Charset.contains_iff.mpr hc), ih]
    rfl

/-- A literal matches what starts with a string of its language, and takes that string. -/
theorem match?_eq_some_iff :
    literal.match? t = some n ↔ ∃ w : Text, w ∈ literal.language ∧ w <+: t ∧ w.byteSize = n := by
  constructor
  · intro h
    obtain ⟨w, rest, rfl, hsize, hw⟩ := exists_of_matchSets? h
    exact ⟨w, hw, List.prefix_append w rest, hsize⟩
  · rintro ⟨w, hw, ⟨rest, rfl⟩, rfl⟩
    exact matchSets?_append hw rest

/-- What the characters that a literal admits have in common, the strings of its language have. -/
theorem forall_mem_of_mem_language {P : Char → Prop}
    (h : ∀ set ∈ literal.positions, ∀ d ∈ set.members, P d) (hw : w ∈ literal.language) :
    ∀ d ∈ w, P d := by
  have hrow : List.Forall₂ (fun (set : Charset) c => c ∈ set.members) literal.positions w := hw
  clear hw
  generalize literal.positions = sets at h hrow
  induction hrow with
  | nil => nofun
  | cons hd _ ih =>
    obtain ⟨hset, hsets⟩ := List.forall_mem_cons.mp h
    exact List.forall_mem_cons.mpr ⟨hset _ hd, ih hsets⟩

theorem length?_evaluate (literal : Literal) (c : Cursor) :
    ((Expression.literal literal).evaluate c).length? = literal.match? c.remaining := by
  rw [Expression.evaluate_literal, Matcher.length?_literal]

end Matching

section Case

variable {c d : Char} {p w : Text}

theorem mem_language_sensitive : w ∈ (sensitive p).language ↔ w = p := by
  change List.Forall₂ _ (p.map fun c => Charset.ofList [c]) w ↔ w = p
  have hsingle : ∀ c d, d ∈ (Charset.ofList [c]).members ↔ c = d := by
    intro c d
    rw [Charset.mem_ofList, List.mem_singleton, eq_comm]
  simp only [List.forall₂_map_left_iff, hsingle, List.forall₂_eq_eq_eq, eq_comm]

theorem mem_eitherCase_iff (hc : c.toNat < 128) :
    d ∈ (eitherCase c).members ↔ d = c ∨ d = c.toLower ∨ d = c.toUpper := by
  rw [eitherCase, Charset.mem_ofList, Text.lowerChar, if_pos hc, Text.upperChar, if_pos hc]
  simp [singleMapping]

theorem toNat_lt_of_mem_eitherCase (hc : c.toNat < 128) (hd : d ∈ (eitherCase c).members) :
    d.toNat < 128 := by
  have hcases : ∀ n : Fin 128, (Char.ofNat n).toLower.toNat < 128 ∧
      (Char.ofNat n).toUpper.toNat < 128 := by decide
  obtain ⟨hlower, hupper⟩ := Text.ascii_induction
    (motive := fun c => c.toLower.toNat < 128 ∧ c.toUpper.toNat < 128) hcases hc
  rcases (mem_eitherCase_iff hc).mp hd with rfl | rfl | rfl
  · exact hc
  · exact hlower
  · exact hupper

/-- Upper and lower case of an ASCII character are what it is equal to up to its case. -/
theorem mem_eitherCase_iff_toLower_eq (hc : c.toNat < 128) :
    d ∈ (eitherCase c).members ↔ d.toLower = c.toLower := by
  rw [mem_eitherCase_iff hc]
  constructor
  · rintro (rfl | rfl | rfl)
    · rfl
    · exact Char.toLower_toLower_eq_toLower c
    · exact Char.toLower_toUpper_eq_toLower c
  · intro h
    by_cases hd : d.isUpper = true
    · have hsame : d.toUpper = d := Char.toUpper_eq_of_not_isLower (Char.not_isLower_of_isUpper hd)
      refine .inr (.inr ?_)
      rw [← Char.toUpper_toLower_eq_toUpper c, ← h, Char.toUpper_toLower_eq_toUpper, hsame]
    · exact .inr (.inl (by rw [← h, Char.toLower_eq_of_not_isUpper hd]))

theorem toNat_lt_of_mem_insensitive (hp : ∀ c ∈ p, c.toNat < 128) :
    ∀ set ∈ (insensitive p).positions, ∀ d ∈ set.members, d.toNat < 128 := by
  intro set hset d hd
  obtain ⟨c, hc, rfl⟩ := List.mem_map.mp hset
  exact toNat_lt_of_mem_eitherCase (hp c hc) hd

theorem mem_language_insensitive (hp : ∀ c ∈ p, c.toNat < 128) :
    w ∈ (insensitive p).language ↔ Text.sameAscii w p = true := by
  change List.Forall₂ _ (p.map eitherCase) w ↔ _
  rw [Text.sameAscii_iff, List.forall₂_map_left_iff]
  induction p generalizing w with
  | nil => simp
  | cons c p ih =>
    obtain ⟨hc, hp⟩ := List.forall_mem_cons.mp hp
    cases w with
    | nil => simp
    | cons d w =>
      rw [List.forall₂_cons, List.forall₂_cons, mem_eitherCase_iff_toLower_eq hc, ih hp]

/-- Strings that differ in the case of ASCII letters only are of one size. -/
theorem byteSize_of_mem_insensitive (hp : ∀ c ∈ p, c.toNat < 128)
    (hw : w ∈ (insensitive p).language) : w.byteSize = p.byteSize := by
  have hlength := (Text.sameAscii_iff.mp ((mem_language_insensitive hp).mp hw)).length_eq
  have hascii := forall_mem_of_mem_language (toNat_lt_of_mem_insensitive hp) hw
  rw [Text.byteSize_of_ascii hascii, Text.byteSize_of_ascii hp, hlength]

end Case

section Sources

variable {kind : Token.Kind} {front p : Text}

/-- The source is a single token of the kind, which is read as the literal. -/
def SpelledBy (source : Text) (kind : Token.Kind) (literal : Literal) : Prop :=
  TokenStream.ofSource source = .ok ⟨[.ofLexeme kind 0 source], source.byteSize⟩ ∧
    read ⟨[.ofLexeme kind 0 source], source.byteSize⟩ = .ok literal ⟨[], source.byteSize⟩

theorem spelledBy_of_mem_pattern {form : Text → Literal}
    (hpattern : front ++ '"' :: (p ++ ['"']) ∈ kind.pattern)
    (hform : ∀ lexeme, ofLexeme? kind lexeme = some (.ok (form (unquote front.byteSize lexeme)))) :
    SpelledBy (front ++ '"' :: (p ++ ['"'])) kind (form p) := by
  have hinside : unquote front.byteSize (front ++ '"' :: (p ++ ['"'])) = p := by
    have hcut := Text.inside_append (front ++ ['"']) p ['"']
    rw [Text.byteSize_append, List.append_assoc, List.singleton_append] at hcut
    exact hcut
  constructor
  · rw [TokenStream.ofSource, Token.scan_of_mem_pattern hpattern]
    rfl
  · refine Expression.literal_read_eq_ok_iff.mpr ⟨?_, rfl⟩
    change ofLexeme? kind (front ++ '"' :: (p ++ ['"'])) = _
    rw [hform, hinside]

end Sources

/-- A quoted string is a single token. Marked as sensitive to case it matches what starts with the
string itself. Else, if its characters are of the ASCII range, it matches what starts with a string
that is equal up to the case of ASCII letters, and no position of it admits any other character. -/
theorem quoted_matches {p : Text} (hquote : '"' ∉ p) (hreturn : '\r' ∉ p) (hline : '\n' ∉ p) :
    (∃ literal, (∀ mark, mark = 's' ∨ mark = 'S' →
        SpelledBy (['%', mark] ++ '"' :: (p ++ ['"'])) .sensitiveQuoted literal) ∧
      ∀ (c : Cursor) n, ((Expression.literal literal).evaluate c).length? = some n ↔
        p <+: c.remaining ∧ n = p.byteSize) ∧
    ((∀ c ∈ p, c.toNat < 128) → ∃ literal, SpelledBy ('"' :: (p ++ ['"'])) .quoted literal ∧
      (∀ mark, mark = 'i' ∨ mark = 'I' →
        SpelledBy (['%', mark] ++ '"' :: (p ++ ['"'])) .insensitiveQuoted literal) ∧
      (∀ set ∈ literal.positions, ∀ d ∈ set.members, d.toNat < 128) ∧
      ∀ (c : Cursor) n, ((Expression.literal literal).evaluate c).length? = some n ↔
        (∃ t : Text, t <+: c.remaining ∧ Text.sameAscii t p = true) ∧ n = p.byteSize) := by
  have hstring := Token.quoted_mem hquote hreturn hline
  have hmarked : ∀ {lower upper mark : Char}, mark = lower ∨ mark = upper →
      ['%', mark] ++ '"' :: (p ++ ['"']) ∈ Token.marked lower upper Token.quotedString :=
    fun hmark => Token.mem_marked.mpr ⟨_, _, rfl, hmark, hstring⟩
  constructor
  · refine ⟨sensitive p, ?_, fun c n => ?_⟩
    · rintro mark hmark
      refine spelledBy_of_mem_pattern (hmarked hmark) ?_
      rcases hmark with rfl | rfl <;> exact fun _ => rfl
    · rw [length?_evaluate, match?_eq_some_iff]
      simp only [mem_language_sensitive, exists_eq_left, eq_comm (a := n)]
  · intro hp
    have hplain : SpelledBy ([] ++ '"' :: (p ++ ['"'])) .quoted (insensitive p) :=
      spelledBy_of_mem_pattern hstring fun _ => rfl
    refine ⟨insensitive p, hplain, ?_, toNat_lt_of_mem_insensitive hp, fun c n => ?_⟩
    · rintro mark hmark
      refine spelledBy_of_mem_pattern (hmarked hmark) ?_
      rcases hmark with rfl | rfl <;> exact fun _ => rfl
    · rw [length?_evaluate, match?_eq_some_iff]
      constructor
      · rintro ⟨t, ht, hfront, rfl⟩
        exact ⟨⟨t, hfront, (mem_language_insensitive hp).mp ht⟩, byteSize_of_mem_insensitive hp ht⟩
      · rintro ⟨⟨t, hfront, hsame⟩, rfl⟩
        have ht := (mem_language_insensitive hp).mpr hsame
        exact ⟨t, ht, hfront, byteSize_of_mem_insensitive hp ht⟩

/-- The letters `k` and `s` have a third form above the ASCII range, the Kelvin sign and the long
`s`: these are matched by neither string. -/
theorem quoted_matches_letters :
    ∃ strict loose, SpelledBy ['%', 's', '"', 'k', 's', '"'] .sensitiveQuoted strict ∧
      SpelledBy ['"', 'k', 's', '"'] .quoted loose ∧
      ∀ c : Cursor,
        (c.remaining = ['k', 'S', 'x'] →
          ((Expression.literal strict).evaluate c).length? = none ∧
            ((Expression.literal loose).evaluate c).length? = some 2) ∧
        (c.remaining = ['\u212a', '\u017f'] →
          ((Expression.literal strict).evaluate c).length? = none ∧
            ((Expression.literal loose).evaluate c).length? = none) := by
  obtain ⟨⟨strict, hstrict, hsensitive⟩, hascii⟩ :=
    quoted_matches (p := ['k', 's']) (by decide) (by decide) (by decide)
  obtain ⟨loose, hloose, -, -, hinsensitive⟩ := hascii (by simp)
  have hnone : ∀ {c : Cursor}, ¬ ['k', 's'] <+: c.remaining →
      ((Expression.literal strict).evaluate c).length? = none :=
    fun h => Option.eq_none_iff_forall_ne_some.mpr fun n hn => h ((hsensitive _ n).mp hn).1
  refine ⟨strict, loose, hstrict 's' (.inl rfl), hloose, fun c => ⟨fun hc => ?_, fun hc => ?_⟩⟩
  · refine ⟨hnone (by rw [hc]; decide), (hinsensitive c 2).mpr ⟨⟨['k', 'S'], ?_, by decide⟩, rfl⟩⟩
    exact ⟨['x'], hc.symm⟩
  · refine ⟨hnone (by rw [hc]; decide), Option.eq_none_iff_forall_ne_some.mpr fun n hn => ?_⟩
    obtain ⟨⟨t, hfront, hsame⟩, -⟩ := (hinsensitive c n).mp hn
    have hlength := (Text.sameAscii_iff.mp hsame).length_eq
    rw [hc] at hfront
    rw [hfront.eq_of_length hlength] at hsame
    exact absurd hsame (by decide)

end Literal

end AugmentedBnf
