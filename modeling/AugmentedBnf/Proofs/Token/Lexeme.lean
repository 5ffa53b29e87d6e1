import AugmentedBnf.Token.Lexer

/-! # Lexemes and the ends of lines

A lexeme is a front of the text. The search for it ends at the end of the line: a carriage return or
a line feed belongs to no lexeme but a line break, so what stands behind it makes no difference.
-/
namespace AugmentedBnf.Token

/-- The lexeme of a character with which no run and nothing enclosed begins. -/
def markLexeme? (c : Char) : Text → Option (Kind × Text)
  | [] => (markKind? c).map fun kind => (kind, [c])
  | d :: rest =>
    if c = '%' then (percentValue? d rest).map fun (kind, body) => (kind, c :: d :: body)
    else if c = '\r' ∧ d = '\n' then some (.lineBreak, [c, d])
    else (markKind? c).map fun kind => (kind, [c])

theorem lexeme?_cons (c : Char) (rest : Text) : lexeme? (c :: rest) =
    if isBlank c then some (.whitespace, c :: rest.takeWhile isBlank)
    else if isLetter c then some (.ident, c :: rest.takeWhile isNameChar)
    else if c.isDigit then some (.number, c :: rest.takeWhile Char.isDigit)
    else if c = ';' then some (.comment, c :: rest.takeWhile isCommentChar)
    else if c = '"' then (enclosed? isQuotedChar '"' rest).map fun body => (.quoted, c :: body)
    else if c = '<' then (enclosed? isProseChar '>' rest).map fun body => (.prose, c :: body)
    else markLexeme? c rest := by
  cases rest <;> rfl

section Prefix

theorem numericTail_isPrefix (isDigit : Char → Bool) (t : Text) : numericTail isDigit t <+: t := by
  fun_induction numericTail isDigit t with
  | case1 => exact List.nil_prefix
  | case2 => exact List.prefix_rfl
  | case3 => exact List.nil_prefix
  | case4 c d rest hc ih => exact List.cons_prefix_cons.mpr ⟨rfl, ih⟩
  | case5 c d rest hc hd ih =>
    exact List.cons_prefix_cons.mpr ⟨rfl, List.cons_prefix_cons.mpr ⟨rfl, ih⟩⟩
  | case6 => exact List.nil_prefix

theorem numeric?_isPrefix {isDigit : Char → Bool} {t l : Text} (h : numeric? isDigit t = some l) :
    l <+: t := by
  cases t with
  | nil => cases h
  | cons c rest =>
    rw [numeric?] at h
    split at h
    · cases h
      exact List.cons_prefix_cons.mpr ⟨rfl, numericTail_isPrefix isDigit rest⟩
    · cases h

theorem exists_of_enclosed? {inside : Char → Bool} {close : Char} {t l : Text}
    (h : enclosed? inside close t = some l) :
    ∃ body rest, t = body ++ close :: rest ∧ l = body ++ [close] ∧ ∀ c ∈ body, inside c = true := by
  unfold enclosed? at h
  split at h
  · cases h
  · rename_i c rest hdrop
    split at h
    · rename_i hc
      cases h
      refine ⟨t.takeWhile inside, rest, ?_, rfl, ?_⟩
      · rw [← hc, ← hdrop, List.takeWhile_append_dropWhile]
      · exact fun d hd => List.all_eq_true.mp List.all_takeWhile d hd
    · cases h

theorem enclosed?_isPrefix {inside : Char → Bool} {close : Char} {t l : Text}
    (h : enclosed? inside close t = some l) : l <+: t := by
  obtain ⟨body, rest, rfl, rfl, -⟩ := exists_of_enclosed? h
  exact ⟨rest, by rw [List.append_assoc, List.singleton_append]⟩

theorem quotedString?_isPrefix {t l : Text} (h : quotedString? t = some l) : l <+: t := by
  cases t with
  | nil => cases h
  | cons c rest =>
    rw [quotedString?] at h
    split at h
    · rename_i hc
      obtain ⟨body, hbody, rfl⟩ := Option.map_eq_some_iff.mp h
      exact List.cons_prefix_cons.mpr ⟨hc.symm, enclosed?_isPrefix hbody⟩
    · cases h

theorem percentValue?_isPrefix {mark : Char} {t l : Text} {kind : Kind}
    (h : percentValue? mark t = some (kind, l)) : l <+: t := by
  have hnumeric : ∀ {isDigit : Char → Bool} {found : Kind},
      (numeric? isDigit t).map (found, ·) = some (kind, l) → l <+: t := by
    intro isDigit found hmap
    obtain ⟨body, hbody, heq⟩ := Option.map_eq_some_iff.mp hmap
    cases heq
    exact numeric?_isPrefix hbody
  have hquoted : ∀ {found : Kind}, (quotedString? t).map (found, ·) = some (kind, l) → l <+: t := by
    intro found hmap
    obtain ⟨body, hbody, heq⟩ := Option.map_eq_some_iff.mp hmap
    cases heq
    exact quotedString?_isPrefix hbody
  unfold percentValue? at h
  split at h
  · exact hnumeric h
  split at h
  · exact hnumeric h
  split at h
  · exact hnumeric h
  split at h
  · exact hquoted h
  split at h
  · exact hquoted h
  · cases h

theorem markLexeme?_isPrefix {c : Char} {rest l : Text} {kind : Kind}
    (h : markLexeme? c rest = some (kind, l)) : ∃ body, l = c :: body ∧ body <+: rest := by
  have hmark : (markKind? c).map (fun kind => (kind, [c])) = some (kind, l) →
      ∃ body, l = c :: body ∧ body <+: rest := by
    intro hmap
    obtain ⟨_, -, heq⟩ := Option.map_eq_some_iff.mp hmap
    cases heq
    exact ⟨[], rfl, List.nil_prefix⟩
  cases rest with
  | nil => exact hmark h
  | cons d rest =>
    rw [markLexeme?] at h
    split at h
    · obtain ⟨⟨found, body⟩, hbody, heq⟩ := Option.map_eq_some_iff.mp h
      cases heq
      exact ⟨_, rfl, List.cons_prefix_cons.mpr ⟨rfl, percentValue?_isPrefix hbody⟩⟩
    split at h
    · cases h
      exact ⟨_, rfl, List.cons_prefix_cons.mpr ⟨rfl, List.nil_prefix⟩⟩
    · exact hmark h

/-- A lexeme is a front of the text that is not empty. -/
theorem lexeme?_isPrefix {t l : Text} {kind : Kind} (h : lexeme? t = some (kind, l)) :
    l ≠ [] ∧ l <+: t := by
  cases t with
  | nil => cases h
  | cons c rest =>
    -- every lexeme starts with the first character of the text
    suffices ∃ body, l = c :: body ∧ body <+: rest by
      obtain ⟨body, rfl, hbody⟩ := this
      exact ⟨List.cons_ne_nil c body, List.cons_prefix_cons.mpr ⟨rfl, hbody⟩⟩
    have hrun : ∀ {f : Char → Bool} {found : Kind},
        some (found, c :: rest.takeWhile f) = some (kind, l) →
        ∃ body, l = c :: body ∧ body <+: rest := by
      intro f found heq
      cases heq
      exact ⟨_, rfl, List.takeWhile_prefix f⟩
    have hclosed : ∀ {inside : Char → Bool} {close : Char} {found : Kind},
        (enclosed? inside close rest).map (fun body => (found, c :: body)) = some (kind, l) →
        ∃ body, l = c :: body ∧ body <+: rest := by
      intro inside close found hmap
      obtain ⟨body, hbody, heq⟩ := Option.map_eq_some_iff.mp hmap
      cases heq
      exact ⟨body, rfl, enclosed?_isPrefix hbody⟩
    rw [lexeme?_cons] at h
    split at h
    · exact hrun h
    split at h
    · exact hrun h
    split at h
    · exact hrun h
    split at h
    · exact hrun h
    split at h
    · exact hclosed h
    split at h
    · exact hclosed h
    · exact markLexeme?_isPrefix h

end Prefix

section LineEnd

/-- The text is empty or starts with the end of a line. -/
def AtLineEnd (r : Text) : Prop := ∀ c ∈ r.head?, isCommentChar c = false

theorem isCommentChar_eq_false_iff {c : Char} :
    isCommentChar c = false ↔ c = '\r' ∨ c = '\n' := by
  simp only [isCommentChar, Bool.and_eq_false_iff, bne_eq_false_iff_eq]

variable {r : Text} {f : Char → Bool}

/-- The class stops at the end of a line. -/
def StaysInLine (f : Char → Bool) : Prop := f '\r' = false ∧ f '\n' = false

theorem StaysInLine.head (hf : StaysInLine f) (hr : AtLineEnd r) {c : Char}
    (hc : c ∈ r.head?) : f c = false := by
  rcases isCommentChar_eq_false_iff.mp (hr c hc) with rfl | rfl
  · exact hf.1
  · exact hf.2

theorem takeWhile_append_lineEnd (hf : StaysInLine f) (hr : AtLineEnd r) (q : Text) :
    (q ++ r).takeWhile f = q.takeWhile f := by
  induction q with
  | nil =>
    cases r with
    | nil => rfl
    | cons d rest =>
      have hd : f d = false := hf.head hr rfl
      simp [hd]
  | cons c q ih =>
    rw [List.cons_append, List.takeWhile_cons, List.takeWhile_cons, ih]

theorem dropWhile_append_lineEnd (hf : StaysInLine f) (hr : AtLineEnd r) (q : Text) :
    (q ++ r).dropWhile f = q.dropWhile f ++ r := by
  induction q with
  | nil =>
    cases r with
    | nil => rfl
    | cons d rest =>
      have hd : f d = false := hf.head hr rfl
      simp [hd]
  | cons c q ih =>
    rw [List.cons_append, List.dropWhile_cons, List.dropWhile_cons]
    split
    · exact ih
    · rfl

theorem enclosed?_append_lineEnd (hf : StaysInLine f) {close : Char} (hclose : isCommentChar close)
    (hr : AtLineEnd r) (q : Text) : enclosed? f close (q ++ r) = enclosed? f close q := by
  unfold enclosed?
  rw [dropWhile_append_lineEnd hf hr, takeWhile_append_lineEnd hf hr]
  cases q.dropWhile f with
  | cons c rest => rfl
  | nil =>
    cases r with
    | nil => rfl
    | cons d rest =>
      have hd : isCommentChar d = false := hr d rfl
      have hne : d ≠ close := by
        rintro rfl
        rw [hclose] at hd
        cases hd
      simp [hne]

theorem numericTail_append_lineEnd (hf : StaysInLine f) (hr : AtLineEnd r) (q : Text) :
    numericTail f (q ++ r) = numericTail f q := by
  have hstop : ∀ d ∈ r.head?, f d = false ∧ isJoint d = false := by
    intro d hd
    have hjoint : StaysInLine isJoint := ⟨by decide, by decide⟩
    exact ⟨hf.head hr hd, hjoint.head hr hd⟩
  have hnil : numericTail f r = [] := by
    cases r with
    | nil => rfl
    | cons d rest =>
      obtain ⟨hd, hjoint⟩ := hstop d rfl
      cases rest <;> simp [numericTail, hd, hjoint]
  fun_induction numericTail f q with
  | case1 => exact hnil
  | case2 c hc =>
    cases r with
    | nil => simp [numericTail, hc]
    | cons d rest =>
      rw [List.cons_append, List.nil_append, numericTail, if_pos hc, hnil]
  | case3 c hc =>
    cases r with
    | nil => simp [numericTail, hc]
    | cons d rest => simp [numericTail, hc, (hstop d rfl).1]
  | case4 c d rest hc ih =>
    rw [List.cons_append, List.cons_append, numericTail, if_pos hc, ← List.cons_append, ih]
  | case5 c d rest hc hd ih =>
    rw [List.cons_append, List.cons_append, numericTail, if_neg hc, if_pos hd, ih]
  | case6 c d rest hc hd =>
    rw [List.cons_append, List.cons_append, numericTail, if_neg hc, if_neg hd]

theorem numeric?_append_lineEnd (hf : StaysInLine f) (hr : AtLineEnd r) (q : Text) :
    numeric? f (q ++ r) = numeric? f q := by
  cases q with
  | cons c q => rw [List.cons_append, numeric?, numeric?, numericTail_append_lineEnd hf hr]
  | nil =>
    cases r with
    | nil => rfl
    | cons d rest =>
      have hd : f d = false := hf.head hr rfl
      simp [numeric?, hd]

theorem quotedString?_append_lineEnd (hr : AtLineEnd r) (q : Text) :
    quotedString? (q ++ r) = quotedString? q := by
  cases q with
  | cons c q =>
    have hq : StaysInLine isQuotedChar := ⟨by decide, by decide⟩
    rw [List.cons_append, quotedString?, quotedString?,
      enclosed?_append_lineEnd hq (by decide) hr]
  | nil =>
    cases r with
    | nil => rfl
    | cons d rest =>
      have hd : d ≠ '"' := by
        rintro rfl
        exact absurd (hr '"' rfl) (by decide)
      simp [quotedString?, hd]

theorem percentValue?_append_lineEnd (mark : Char) (hr : AtLineEnd r) (q : Text) :
    percentValue? mark (q ++ r) = percentValue? mark q := by
  unfold percentValue?
  rw [numeric?_append_lineEnd (f := isBit) ⟨by decide, by decide⟩ hr,
    numeric?_append_lineEnd (f := Char.isDigit) ⟨by decide, by decide⟩ hr,
    numeric?_append_lineEnd (f := isHexDigit) ⟨by decide, by decide⟩ hr,
    quotedString?_append_lineEnd hr]

theorem markLexeme?_append_lineEnd {c : Char} (hc : c ≠ '\r') (hr : AtLineEnd r) (q : Text) :
    markLexeme? c (q ++ r) = markLexeme? c q := by
  cases q with
  | cons d q => rw [List.cons_append, markLexeme?, markLexeme?, percentValue?_append_lineEnd d hr]
  | nil =>
    cases r with
    | nil => rfl
    | cons d rest =>
      -- a percent sign at the end of a line introduces nothing
      have hpercent : percentValue? d rest = none := by
        rcases isCommentChar_eq_false_iff.mp (hr d rfl) with rfl | rfl <;> rfl
      have hnot : ¬ (c = '\r' ∧ d = '\n') := fun h => hc h.1
      rw [List.nil_append, markLexeme?, markLexeme?, hpercent, if_neg hnot]
      split
      · rename_i hmark
        subst hmark
        rfl
      · rfl

/-- The lexeme at the start of a line is found in that line. -/
theorem lexeme?_append_lineEnd {p : Text} (hne : p ≠ []) (hp : ∀ c ∈ p, isCommentChar c = true)
    (hr : AtLineEnd r) : lexeme? (p ++ r) = lexeme? p := by
  obtain ⟨c, q, rfl⟩ := List.exists_cons_of_ne_nil hne
  have hc : c ≠ '\r' := by
    rintro rfl
    exact absurd (hp '\r' List.mem_cons_self) (by decide)
  rw [List.cons_append, lexeme?_cons, lexeme?_cons, markLexeme?_append_lineEnd hc hr,
    takeWhile_append_lineEnd (f := isBlank) ⟨by decide, by decide⟩ hr,
    takeWhile_append_lineEnd (f := isNameChar) ⟨by decide, by decide⟩ hr,
    takeWhile_append_lineEnd (f := Char.isDigit) ⟨by decide, by decide⟩ hr,
    takeWhile_append_lineEnd (f := isCommentChar) ⟨by decide, by decide⟩ hr,
    enclosed?_append_lineEnd (f := isQuotedChar) ⟨by decide, by decide⟩ (by decide) hr,
    enclosed?_append_lineEnd (f := isProseChar) ⟨by decide, by decide⟩ (by decide) hr]

end LineEnd

section Scan

/-- Induction from lexeme to lexeme. -/
@[elab_as_elim]
theorem lexeme_induction {motive : Text → Prop} (nil : motive [])
    (none : ∀ t, t ≠ [] → lexeme? t = none → motive t)
    (some : ∀ kind l rest, lexeme? (l ++ rest) = some (kind, l) → motive rest →
      motive (l ++ rest)) (t : Text) : motive t := by
  induction hn : t.length using Nat.strongRecOn generalizing t with
  | _ n ih =>
    subst hn
    by_cases hne : t = []
    · subst hne
      exact nil
    cases hl : lexeme? t with
    | none => exact none t hne hl
    | some found =>
      obtain ⟨kind, l⟩ := found
      obtain ⟨hpos, rest, rfl⟩ := lexeme?_isPrefix hl
      have hshort : rest.length < (l ++ rest).length := by
        have := List.length_pos_iff.mpr hpos
        rw [List.length_append]
        omega
      exact some kind l rest hl (ih _ hshort rest rfl)

/-- The count that bounds the tokens makes no difference once it covers the text. -/
theorem scanFrom_congr {count count' : Nat} {t : Text} (offset : Nat) (h : t.length ≤ count)
    (h' : t.length ≤ count') : scanFrom count offset t = scanFrom count' offset t := by
  induction count generalizing count' t offset with
  | zero =>
    obtain rfl := List.eq_nil_of_length_eq_zero (Nat.le_zero.mp h)
    cases count' <;> rfl
  | succ count ih =>
    cases t with
    | nil => cases count' <;> rfl
    | cons c rest =>
      obtain ⟨k, rfl⟩ : ∃ k, count' = k + 1 := ⟨count' - 1, by simp at h'; omega⟩
      rw [scanFrom, scanFrom]
      cases hl : lexeme? (c :: rest) with
      | none => rfl
      | some found =>
        obtain ⟨kind, l⟩ := found
        -- the lexeme takes a character, so both counts still cover the rest
        have hpos : 0 < l.length := List.length_pos_iff.mpr (lexeme?_isPrefix hl).1
        have hrest : ((c :: rest).drop l.length).length ≤ rest.length := by
          rw [List.length_drop, List.length_cons]
          omega
        rw [List.length_cons] at h h'
        dsimp only
        rw [ih _ (by omega : ((c :: rest).drop l.length).length ≤ count)
          (by omega : ((c :: rest).drop l.length).length ≤ k)]

/-- The tokens of a text that starts at an offset. -/
def scanAt (offset : Nat) (t : Text) : Except CompileError (List Token) :=
  scanFrom t.length offset t

theorem scanAt_of_lexeme? {kind : Kind} {l rest : Text} (offset : Nat)
    (h : lexeme? (l ++ rest) = some (kind, l)) :
    scanAt offset (l ++ rest) =
      (scanAt (offset + l.byteSize) rest).map (ofLexeme kind offset l :: ·) := by
  obtain ⟨c, body, rfl⟩ := List.exists_cons_of_ne_nil (lexeme?_isPrefix h).1
  have hdrop : (c :: (body ++ rest)).drop (c :: body).length = rest := by
    rw [← List.cons_append, List.drop_left]
  rw [scanAt, List.cons_append, List.length_cons, scanFrom, ← List.cons_append, h]
  dsimp only
  rw [List.cons_append, hdrop, scanAt, scanFrom_congr _ (by simp : rest.length ≤ _) Nat.le.refl]
  cases scanFrom rest.length (offset + Text.byteSize (c :: body)) rest <;> rfl

theorem scanAt_of_none {t : Text} (offset : Nat) (hne : t ≠ []) (h : lexeme? t = none) :
    scanAt offset t = .error (.unexpectedCharacter offset) := by
  obtain ⟨c, rest, rfl⟩ := List.exists_cons_of_ne_nil hne
  rw [scanAt, List.length_cons, scanFrom, h]

end Scan

end AugmentedBnf.Token
