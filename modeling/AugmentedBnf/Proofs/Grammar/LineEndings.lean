import AugmentedBnf.Grammar.Mode
import AugmentedBnf.Proofs.Grammar.Layout
import AugmentedBnf.Proofs.Token.Lexeme

/-! # Line endings make no difference to the rules

Putting a carriage return in front of every line feed changes line breaks only: the tokens of the
text stay alike, so its rules stay the same. It can be done part by part as long as no part ends in
a carriage return, and a text that can be cut into tokens never does.
-/
namespace AugmentedBnf

namespace Mode

theorem normalizeLines_crlf (rest : Text) :
    normalizeLines ('\r' :: '\n' :: rest) = '\r' :: '\n' :: normalizeLines rest := by
  rw [normalizeLines, if_pos ⟨rfl, rfl⟩]

theorem normalizeLines_lf (rest : Text) :
    normalizeLines ('\n' :: rest) = '\r' :: '\n' :: normalizeLines rest := by
  cases rest with
  | nil => rfl
  | cons d rest =>
    have hreturn : ¬ ('\n' = '\r' ∧ d = '\n') := fun h => absurd h.1 (by decide)
    rw [normalizeLines, if_neg hreturn, if_pos rfl]

theorem normalizeLines_other {c : Char} {rest : Text} (hfeed : c ≠ '\n')
    (hreturn : c = '\r' → rest.head? ≠ some '\n') :
    normalizeLines (c :: rest) = c :: normalizeLines rest := by
  cases rest with
  | nil => simp [normalizeLines, hfeed]
  | cons d rest =>
    have hpair : ¬ (c = '\r' ∧ d = '\n') := by
      rintro ⟨hc, rfl⟩
      exact hreturn hc rfl
    rw [normalizeLines, if_neg hpair, if_neg hfeed]

/-- Induction along the lines of a text: over line ends of either form and all other characters. -/
@[elab_as_elim]
theorem line_induction {motive : Text → Prop} (nil : motive [])
    (crlf : ∀ rest, motive rest → motive ('\r' :: '\n' :: rest))
    (lf : ∀ rest, motive rest → motive ('\n' :: rest))
    (other : ∀ c rest, c ≠ '\n' → (c = '\r' → rest.head? ≠ some '\n') → motive rest →
      motive (c :: rest)) (t : Text) : motive t := by
  fun_induction normalizeLines t with
  | case1 => exact nil
  | case2 => exact lf [] nil
  | case3 c hc => exact other c [] hc (fun _ => nofun) nil
  | case4 c d rest hpair ih =>
    obtain ⟨rfl, rfl⟩ := hpair
    exact crlf rest ih
  | case5 d rest _ ih => exact lf (d :: rest) ih
  | case6 c d rest hpair hc ih =>
    refine other c (d :: rest) hc ?_ ih
    rintro rfl hd
    exact hpair ⟨rfl, Option.some.inj hd⟩

theorem head?_normalizeLines_ne (t : Text) : (normalizeLines t).head? ≠ some '\n' := by
  induction t using line_induction with
  | nil => nofun
  | crlf rest _ =>
    rw [normalizeLines_crlf]
    simp
  | lf rest _ =>
    rw [normalizeLines_lf]
    simp
  | other c rest hfeed hreturn _ =>
    rw [normalizeLines_other hfeed hreturn]
    exact fun h => hfeed (Option.some.inj h)

theorem normalizeLines_normalizeLines (t : Text) :
    normalizeLines (normalizeLines t) = normalizeLines t := by
  induction t using line_induction with
  | nil => rfl
  | crlf rest ih => rw [normalizeLines_crlf, normalizeLines_crlf, ih]
  | lf rest ih => rw [normalizeLines_lf, normalizeLines_crlf, ih]
  | other c rest hfeed hreturn ih =>
    have hstill : c = '\r' → (normalizeLines rest).head? ≠ some '\n' :=
      fun _ => head?_normalizeLines_ne rest
    rw [normalizeLines_other hfeed hreturn, normalizeLines_other hfeed hstill, ih]

theorem getLast?_normalizeLines (t : Text) : (normalizeLines t).getLast? = t.getLast? := by
  induction t using line_induction with
  | nil => rfl
  | crlf rest ih => simp only [normalizeLines_crlf, List.getLast?_cons, ih]
  | lf rest ih => simp only [normalizeLines_lf, List.getLast?_cons, ih, Option.getD_some]
  | other c rest hfeed hreturn ih =>
    simp only [normalizeLines_other hfeed hreturn, List.getLast?_cons, ih]

/-- Line endings can be settled part by part, unless a part ends inside of one. -/
theorem normalizeLines_append {s : Text} (t : Text) (hs : s.getLast? ≠ some '\r') :
    normalizeLines (s ++ t) = normalizeLines s ++ normalizeLines t := by
  have hlater : ∀ {c : Char} {rest : Text}, (c :: rest).getLast? ≠ some '\r' →
      rest.getLast? ≠ some '\r' := by
    intro c rest h hrest
    apply h
    rw [List.getLast?_cons, hrest, Option.getD_some]
  induction s using line_induction with
  | nil => rfl
  | crlf rest ih =>
    rw [List.cons_append, List.cons_append, normalizeLines_crlf, normalizeLines_crlf,
      ih (hlater (hlater hs)), List.cons_append, List.cons_append]
  | lf rest ih =>
    rw [List.cons_append, normalizeLines_lf, normalizeLines_lf, ih (hlater hs), List.cons_append,
      List.cons_append]
  | other c rest hfeed hreturn ih =>
    have hstill : c = '\r' → (rest ++ t).head? ≠ some '\n' := by
      intro hc
      cases rest with
      | nil => exact absurd (congrArg some hc) hs
      | cons d rest => exact hreturn hc
    rw [List.cons_append, normalizeLines_other hfeed hstill, normalizeLines_other hfeed hreturn,
      ih (hlater hs), List.cons_append]

theorem normalizeLines_normalize (mode : Mode) (t : Text) :
    normalizeLines (mode.normalize t) = normalizeLines t := by
  cases mode with
  | strict => rfl
  | lenient => exact normalizeLines_normalizeLines t

open Token (AtLineEnd isCommentChar isCommentChar_eq_false_iff)

theorem normalizeLines_line_append {p : Text} (hp : ∀ c ∈ p, isCommentChar c = true) (r : Text) :
    normalizeLines (p ++ r) = p ++ normalizeLines r := by
  induction p with
  | nil => rfl
  | cons c p ih =>
    obtain ⟨hc, hp⟩ := List.forall_mem_cons.mp hp
    have hfeed : c ≠ '\n' := by
      rintro rfl
      exact absurd hc (by decide)
    have hreturn : c = '\r' → (p ++ r).head? ≠ some '\n' := by
      rintro rfl
      exact absurd hc (by decide)
    rw [List.cons_append, normalizeLines_other hfeed hreturn, ih hp, List.cons_append]

theorem atLineEnd_normalizeLines {r : Text} (hr : AtLineEnd r) : AtLineEnd (normalizeLines r) := by
  induction r using line_induction with
  | nil => exact hr
  | crlf rest _ =>
    rw [normalizeLines_crlf]
    exact hr
  | lf rest _ =>
    rw [normalizeLines_lf]
    rintro c ⟨⟩
    decide
  | other c rest hfeed hreturn _ =>
    rw [normalizeLines_other hfeed hreturn]
    exact hr

end Mode

namespace Token

open Mode

theorem lexeme?_crlf (rest : Text) :
    lexeme? (['\r', '\n'] ++ rest) = some (.lineBreak, ['\r', '\n']) := rfl

theorem lexeme?_lf (rest : Text) : lexeme? (['\n'] ++ rest) = some (.lineBreak, ['\n']) := by
  cases rest <;> rfl

theorem lexeme?_return {rest : Text} (h : rest.head? ≠ some '\n') :
    lexeme? ('\r' :: rest) = none := by
  cases rest with
  | nil => rfl
  | cons d rest =>
    have hd : ¬ ('\r' = '\r' ∧ d = '\n') := fun hpair => h (congrArg some hpair.2)
    change (if '\r' = '\r' ∧ d = '\n' then some (Kind.lineBreak, ['\r', d]) else none) = none
    rw [if_neg hd]

/-- How a text can start: with a line break, with a carriage return that breaks no line, or with
characters of a line that ends behind them. -/
inductive Start : Text → Prop
  | nil : Start []
  | crlf (rest : Text) : Start (['\r', '\n'] ++ rest)
  | lf (rest : Text) : Start (['\n'] ++ rest)
  | stray (rest : Text) (h : rest.head? ≠ some '\n') : Start ('\r' :: rest)
  | line (p r : Text) (hne : p ≠ []) (hp : ∀ c ∈ p, isCommentChar c = true) (hr : AtLineEnd r) :
      Start (p ++ r)

theorem start (t : Text) : Start t := by
  cases t with
  | nil => exact .nil
  | cons c rest =>
    by_cases hc : isCommentChar c = true
    · have hsplit := List.takeWhile_append_dropWhile (p := isCommentChar) (l := c :: rest)
      rw [← hsplit]
      refine .line _ _ ?_ ?_ ?_
      · rw [List.takeWhile_cons_of_pos hc]
        exact List.cons_ne_nil c _
      · exact fun d hd => List.all_eq_true.mp List.all_takeWhile d hd
      · intro d hd
        have hhead := List.head?_dropWhile_not isCommentChar (c :: rest)
        rw [hd] at hhead
        exact hhead
    · rcases isCommentChar_eq_false_iff.mp (Bool.eq_false_iff.mpr hc) with rfl | rfl
      · by_cases hfeed : rest.head? = some '\n'
        · obtain ⟨rest, rfl⟩ := List.head?_eq_some_iff.mp hfeed
          exact .crlf rest
        · exact .stray rest hfeed
      · exact .lf rest

/-- No lexeme but a line break holds the end of a line. -/
theorem lexeme?_line {t l : Text} {kind : Kind} (h : lexeme? t = some (kind, l)) :
    (kind = .lineBreak ∧ (l = ['\r', '\n'] ∨ l = ['\n'])) ∨ ∀ c ∈ l, isCommentChar c = true := by
  cases start t with
  | nil => cases h
  | crlf rest =>
    rw [lexeme?_crlf] at h
    cases h
    exact .inl ⟨rfl, .inl rfl⟩
  | lf rest =>
    rw [lexeme?_lf] at h
    cases h
    exact .inl ⟨rfl, .inr rfl⟩
  | stray rest hrest =>
    rw [lexeme?_return hrest] at h
    cases h
  | line p r hne hp hr =>
    rw [lexeme?_append_lineEnd hne hp hr] at h
    have hfront := (lexeme?_isPrefix h).2
    exact .inr fun c hc => hp c (hfront.subset hc)

/-- A text that can be cut into tokens does not end in a carriage return. -/
theorem getLast?_ne_of_scanAt {offset : Nat} {t : Text} {tokens : List Token}
    (h : scanAt offset t = .ok tokens) : t.getLast? ≠ some '\r' := by
  induction t using lexeme_induction generalizing offset tokens with
  | nil => nofun
  | none t hne hl =>
    rw [scanAt_of_none offset hne hl] at h
    cases h
  | some kind l rest hl ih =>
    rw [scanAt_of_lexeme? offset hl] at h
    cases hrest : scanAt (offset + l.byteSize) rest with
    | error _ =>
      rw [hrest] at h
      cases h
    | ok others =>
      have hlast := ih hrest
      rw [List.getLast?_append]
      cases hend : rest.getLast? with
      | some c =>
        rw [hend] at hlast
        exact hlast
      | none =>
        -- the last token ends the text
        rw [Option.none_or]
        rcases lexeme?_line hl with ⟨-, rfl | rfl⟩ | hline
        · decide
        · decide
        · intro hreturn
          exact absurd (hline '\r' (List.mem_of_getLast? hreturn)) (by decide)

theorem lexeme?_normalizeLines_of_none {t : Text} (h : lexeme? t = none) :
    lexeme? (normalizeLines t) = none := by
  cases start t with
  | nil => rfl
  | crlf rest =>
    rw [lexeme?_crlf] at h
    cases h
  | lf rest =>
    rw [lexeme?_lf] at h
    cases h
  | stray rest hrest =>
    rw [normalizeLines_other (by decide) fun _ => hrest]
    exact lexeme?_return (head?_normalizeLines_ne rest)
  | line p r hne hp hr =>
    rw [normalizeLines_line_append hp,
      lexeme?_append_lineEnd hne hp (atLineEnd_normalizeLines hr)]
    rwa [lexeme?_append_lineEnd hne hp hr] at h

/-- The same lexemes are found with the line endings settled, up to what breaks a line. -/
theorem exists_lexeme?_normalizeLines {kind : Kind} {l rest : Text}
    (h : lexeme? (l ++ rest) = some (kind, l)) :
    ∃ l', normalizeLines (l ++ rest) = l' ++ normalizeLines rest ∧
      lexeme? (l' ++ normalizeLines rest) = some (kind, l') ∧ (kind ≠ .lineBreak → l = l') := by
  generalize ht : l ++ rest = t at h
  cases start t with
  | nil => cases h
  | crlf r =>
    rw [lexeme?_crlf] at h
    cases h
    obtain rfl := List.append_cancel_left ht
    exact ⟨['\r', '\n'], normalizeLines_crlf rest, lexeme?_crlf _, fun _ => rfl⟩
  | lf r =>
    rw [lexeme?_lf] at h
    cases h
    obtain rfl := List.append_cancel_left ht
    exact ⟨['\r', '\n'], normalizeLines_lf rest, lexeme?_crlf _, fun hkind => absurd rfl hkind⟩
  | stray r hr =>
    rw [lexeme?_return hr] at h
    cases h
  | line p r hne hp hr =>
    rw [lexeme?_append_lineEnd hne hp hr] at h
    obtain ⟨q, rfl⟩ := (lexeme?_isPrefix h).2
    rw [List.append_assoc] at ht
    obtain rfl := List.append_cancel_left ht
    -- what is left of the line stays as it is
    have hq : ∀ c ∈ q, isCommentChar c = true := fun c hc => hp c (List.mem_append_right l hc)
    have hl := lexeme?_append_lineEnd hne hp (atLineEnd_normalizeLines hr)
    refine ⟨l, ?_, ?_, fun _ => rfl⟩
    · rw [normalizeLines_line_append hp, normalizeLines_line_append hq, List.append_assoc]
    · rw [normalizeLines_line_append hq, ← List.append_assoc, hl, h]

/-- Settling the line endings changes no token but line breaks. -/
theorem scanAt_normalizeLines (t : Text) (offset offset' : Nat) :
    UpToOffsets (List.Forall₂ Token.Alike) (scanAt offset t)
      (scanAt offset' (normalizeLines t)) := by
  induction t using lexeme_induction generalizing offset offset' with
  | nil => exact .nil
  | none t hne hl =>
    have hne' : normalizeLines t ≠ [] := by
      intro hnil
      have hlast := getLast?_normalizeLines t
      rw [hnil, List.getLast?_nil] at hlast
      exact hne (List.getLast?_eq_none_iff.mp hlast.symm)
    rw [scanAt_of_none offset hne hl,
      scanAt_of_none offset' hne' (lexeme?_normalizeLines_of_none hl)]
    exact rfl
  | some kind l rest hl ih =>
    obtain ⟨l', heq, hl', htext⟩ := exists_lexeme?_normalizeLines hl
    rw [heq, scanAt_of_lexeme? offset hl, scanAt_of_lexeme? offset' hl']
    exact (ih _ _).map fun _ _ htokens => .cons ⟨rfl, htext⟩ htokens

end Token

namespace RuleTable

open Mode

/-- The rules of a text do not depend on the form of its line endings. -/
theorem ofSource_of_normalizeLines_eq {s t : Text} (h : normalizeLines s = normalizeLines t) :
    UpToOffsets Eq (ofSource s) (ofSource t) := by
  have hs : UpToOffsets Eq (ofSource s) (ofSource (normalizeLines s)) :=
    ofSource_alike (Token.scanAt_normalizeLines s 0 0)
  have ht : UpToOffsets Eq (ofSource t) (ofSource (normalizeLines t)) :=
    ofSource_alike (Token.scanAt_normalizeLines t 0 0)
  rw [← h] at ht
  exact hs.trans ht.symm

theorem getLast?_ne_of_ofSource {s : Text} {rules : RuleTable} (h : ofSource s = .ok rules) :
    s.getLast? ≠ some '\r' := by
  cases hscan : Token.scan s with
  | ok tokens => exact Token.getLast?_ne_of_scanAt hscan
  | error cause =>
    rw [ofSource, TokenStream.ofSource, hscan] at h
    cases h

end RuleTable

end AugmentedBnf
