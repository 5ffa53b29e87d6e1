import AugmentedBnf.Proofs.Text.Cut
import AugmentedBnf.Proofs.Token.Seam

/-! # Tokens of a text that is put together from lexemes

Blanks between lexemes may run together, so the tokens of a text are not those of its parts. What a
reader sees of them are the tokens that are not blank. A text shows lexemes if it consists of them and
of blanks, each lexeme being the longest one at its place; then it can be cut into tokens, and these
are the lexemes with blanks in between.
-/
namespace AugmentedBnf.Token

/-- What tokens show, blanks left out. -/
def visible (tokens : List Token) : List (Kind × Text) :=
  (tokens.filter fun token => token.kind ≠ .whitespace).map fun token => (token.kind, token.text)

/-- No line break has an indentation behind it. -/
def Unfolded (tokens : List Token) : Prop :=
  ∀ line next rest, line :: next :: rest <:+ tokens → line.kind = .lineBreak →
    next.kind ≠ .whitespace

/-- The text consists of the lexemes and of blanks, and no line is indented. -/
inductive Shows : Text → List (Kind × Text) → Prop where
  | nil : Shows [] []
  | blank {c : Char} {t : Text} {vs : List (Kind × Text)} (isBlank : isBlank c = true)
      (next : Shows t vs) : Shows (c :: t) vs
  | lexeme {kind : Kind} {l t : Text} {vs : List (Kind × Text)}
      (longest : lexeme? (l ++ t) = some (kind, l)) (solid : kind ≠ .whitespace)
      (unindented : kind = .lineBreak → ∀ c ∈ t.head?, Token.isBlank c = false)
      (next : Shows t vs) : Shows (l ++ t) ((kind, l) :: vs)

section Scan

theorem lexeme?_of_isBlank {c : Char} (h : isBlank c = true) (t : Text) :
    lexeme? (c :: t) = some (.whitespace, c :: t.takeWhile isBlank) := by
  rw [lexeme?_cons, if_pos h]

theorem isBlank_head_of_lexeme? {t l : Text} {kind : Kind} (h : lexeme? t = some (kind, l))
    (hkind : kind ≠ .whitespace) : ∀ c ∈ t.head?, isBlank c = false := by
  intro c hc
  obtain ⟨rest, rfl⟩ := List.head?_eq_some_iff.mp hc
  rw [Bool.eq_false_iff]
  intro hblank
  rw [lexeme?_of_isBlank hblank] at h
  cases h
  exact hkind rfl

theorem dropWhile_of_lexeme? {t l : Text} {kind : Kind} (h : lexeme? t = some (kind, l))
    (hkind : kind ≠ .whitespace) : t.dropWhile isBlank = t := by
  have hhead := isBlank_head_of_lexeme? h hkind
  cases t with
  | nil => rfl
  | cons c rest => rw [List.dropWhile_cons_of_neg (by rw [hhead c rfl]; decide)]

theorem Shows.dropWhile {t : Text} {vs : List (Kind × Text)} (h : Shows t vs) :
    Shows (t.dropWhile Token.isBlank) vs := by
  induction h with
  | nil => exact .nil
  | blank hblank _ ih =>
    rw [List.dropWhile_cons_of_pos hblank]
    exact ih
  | @lexeme kind l t vs longest solid unindented next =>
    rw [dropWhile_of_lexeme? longest solid]
    exact .lexeme longest solid unindented next

theorem unfolded_cons {token : Token} {tokens : List Token} (h : Unfolded tokens)
    (hline : token.kind = .lineBreak → headKind? tokens ≠ some .whitespace) :
    Unfolded (token :: tokens) := by
  intro line next rest hsuffix hkind hnext
  rcases List.suffix_cons_iff.mp hsuffix with heq | hsuffix
  · cases heq
    exact hline hkind (congrArg some hnext)
  · exact h line next rest hsuffix hkind hnext

theorem visible_cons {token : Token} (h : token.kind ≠ .whitespace) (tokens : List Token) :
    visible (token :: tokens) = (token.kind, token.text) :: visible tokens := by
  rw [visible, List.filter_cons_of_pos (by simpa using h)]
  rfl

theorem visible_cons_blank {token : Token} (h : token.kind = .whitespace) (tokens : List Token) :
    visible (token :: tokens) = visible tokens := by
  rw [visible, List.filter_cons_of_neg (by simpa using h)]
  rfl

theorem Shows.exists_of_cons {t l : Text} {kind : Kind} {vs : List (Kind × Text)}
    (h : Shows t ((kind, l) :: vs)) : ∃ rest, t.dropWhile Token.isBlank = l ++ rest := by
  generalize hshown : (kind, l) :: vs = ws at h
  induction h with
  | nil => cases hshown
  | blank hblank _ ih =>
    rw [List.dropWhile_cons_of_pos hblank]
    exact ih hshown
  | @lexeme kind' l' t ws longest solid _ _ _ =>
    cases hshown
    exact ⟨t, dropWhile_of_lexeme? longest solid⟩

theorem Unfolded.suffix {tokens rest : List Token} (h : Unfolded tokens) (hrest : rest <:+ tokens) :
    Unfolded rest := fun line next others hsuffix => h line next others (hsuffix.trans hrest)

theorem visible_past_trivia {tokens : List Token}
    (hfirst : ∀ v ∈ (visible tokens).head?, v.1 ∉ Kind.trivia) :
    visible (past Kind.trivia tokens) = visible tokens := by
  induction tokens with
  | nil => rfl
  | cons token rest ih =>
    by_cases hblank : token.kind = .whitespace
    · rw [visible_cons_blank hblank] at hfirst ⊢
      rw [past_cons, if_pos (by rw [hblank]; decide)]
      exact ih hfirst
    · rw [visible_cons hblank] at hfirst
      rw [past_cons, if_neg (hfirst _ rfl)]

/-- A text that shows lexemes is cut into tokens that show them. -/
theorem Shows.scanAt {t : Text} {vs : List (Kind × Text)} (h : Shows t vs) (offset : Nat) :
    ∃ tokens, scanAt offset t = .ok tokens ∧ visible tokens = vs ∧ Unfolded tokens := by
  induction hn : t.length using Nat.strongRecOn generalizing t vs offset with
  | _ n ih =>
    subst hn
    cases h with
    | nil =>
      refine ⟨[], rfl, rfl, ?_⟩
      intro line next rest hsuffix
      exact absurd (List.suffix_nil.mp hsuffix) (List.cons_ne_nil _ _)
    | @blank c t _ hblank next =>
      -- the blanks that follow belong to the same token
      have hlexeme : lexeme? (c :: t.takeWhile Token.isBlank ++ t.dropWhile Token.isBlank) =
          some (.whitespace, c :: t.takeWhile Token.isBlank) := by
        rw [List.cons_append, List.takeWhile_append_dropWhile, lexeme?_of_isBlank hblank]
      have hshort : (t.dropWhile Token.isBlank).length < (c :: t).length := by
        have := (List.dropWhile_suffix Token.isBlank (l := t)).length_le
        rw [List.length_cons]
        omega
      obtain ⟨tokens, hscan, hvisible, hunfolded⟩ := ih _ hshort next.dropWhile
        (offset + Text.byteSize (c :: t.takeWhile Token.isBlank)) rfl
      have hblankText : c :: t = c :: t.takeWhile Token.isBlank ++ t.dropWhile Token.isBlank := by
        rw [List.cons_append, List.takeWhile_append_dropWhile]
      refine ⟨ofLexeme .whitespace offset (c :: t.takeWhile Token.isBlank) :: tokens, ?_, ?_, ?_⟩
      · rw [hblankText, scanAt_of_lexeme? offset hlexeme, hscan]
        rfl
      · rw [visible_cons_blank rfl, hvisible]
      · exact unfolded_cons hunfolded nofun
    | @lexeme kind l t vs longest solid unindented next =>
      have hshort : t.length < (l ++ t).length := by
        have := List.length_pos_iff.mpr (lexeme?_isPrefix longest).1
        rw [List.length_append]
        omega
      obtain ⟨tokens, hscan, hvisible, hunfolded⟩ := ih _ hshort next (offset + l.byteSize) rfl
      refine ⟨ofLexeme kind offset l :: tokens, ?_, ?_, ?_⟩
      · rw [scanAt_of_lexeme? offset longest, hscan]
        rfl
      · rw [visible_cons solid, hvisible]
        rfl
      · refine unfolded_cons hunfolded ?_
        intro hline
        exact headKind?_ne_of_scanAt (unindented hline) hscan

end Scan

section Lexemes

/-- The text is empty, or it starts with a blank, a closing bracket or the end of a line. -/
def Stops (rest : Text) : Prop := ∀ c ∈ rest.head?, c = ' ' ∨ c = ')' ∨ c = ']' ∨ c = '\n'

variable {rest : Text} {vs : List (Kind × Text)} {f : Char → Bool}

/-- The class holds none of the characters that stop a lexeme. -/
def StopsAt (f : Char → Bool) : Prop :=
  f ' ' = false ∧ f ')' = false ∧ f ']' = false ∧ f '\n' = false

theorem Stops.head (h : Stops rest) (hf : StopsAt f) : ∀ c ∈ rest.head?, f c = false := by
  obtain ⟨hblank, hparen, hbracket, hline⟩ := hf
  intro c hc
  rcases h c hc with rfl | rfl | rfl | rfl
  · exact hblank
  · exact hparen
  · exact hbracket
  · exact hline

theorem enclosed?_append {inside : Char → Bool} {close : Char} {body : Text}
    (hclose : inside close = false) (hbody : ∀ c ∈ body, inside c = true) (rest : Text) :
    enclosed? inside close (body ++ close :: rest) = some (body ++ [close]) := by
  have htake : (body ++ close :: rest).takeWhile inside = body := by
    refine Text.takeWhile_append_of_head hbody ?_
    rintro c ⟨⟩
    exact hclose
  have hdrop : (body ++ close :: rest).dropWhile inside = close :: rest := by
    rw [List.dropWhile_append_of_pos hbody, List.dropWhile_cons_of_neg (by rw [hclose]; decide)]
  rw [enclosed?, hdrop, htake]
  exact if_pos rfl

theorem Shows.mark {c : Char} {kind : Kind} (hlexeme : ∀ t, lexeme? (c :: t) = some (kind, [c]))
    (hkind : kind ≠ .whitespace ∧ kind ≠ .lineBreak) (h : Shows rest vs) :
    Shows (c :: rest) ((kind, [c]) :: vs) :=
  .lexeme (l := [c]) (hlexeme rest) hkind.1 (fun hline => absurd hline hkind.2) h

theorem lexeme?_slash (t : Text) : lexeme? ('/' :: t) = some (.slash, ['/']) := by cases t <;> rfl

theorem lexeme?_star (t : Text) : lexeme? ('*' :: t) = some (.star, ['*']) := by cases t <;> rfl

theorem lexeme?_equal (t : Text) : lexeme? ('=' :: t) = some (.equal, ['=']) := by cases t <;> rfl

theorem lexeme?_leftParen (t : Text) : lexeme? ('(' :: t) = some (.leftParen, ['(']) := by
  cases t <;> rfl

theorem lexeme?_rightParen (t : Text) : lexeme? (')' :: t) = some (.rightParen, [')']) := by
  cases t <;> rfl

theorem lexeme?_leftBracket (t : Text) : lexeme? ('[' :: t) = some (.leftBracket, ['[']) := by
  cases t <;> rfl

theorem lexeme?_rightBracket (t : Text) : lexeme? (']' :: t) = some (.rightBracket, [']']) := by
  cases t <;> rfl

theorem isBlank_of_isNameChar {c : Char} (h : isNameChar c = true) : isBlank c = false := by
  have hall : ∀ n : Fin 128, isNameChar (Char.ofNat n) = true → isBlank (Char.ofNat n) = false := by
    decide
  exact Text.ascii_induction (motive := fun c => isNameChar c = true → isBlank c = false) hall
    (Text.toNat_lt_of_isNameChar h) h

theorem isNameChar_of_isLetter {c : Char} (h : isLetter c = true) : isNameChar c = true := by
  simp [isNameChar, h]

theorem isNameChar_of_isDigit {c : Char} (h : c.isDigit = true) : isNameChar c = true := by
  simp [isNameChar, h]

theorem isLetter_of_isDigit {c : Char} (h : c.isDigit = true) : isLetter c = false := by
  have hall : ∀ n : Fin 128, (Char.ofNat n).isDigit = true → isLetter (Char.ofNat n) = false := by
    decide
  exact Text.ascii_induction (motive := fun c => c.isDigit = true → isLetter c = false) hall
    (Text.toNat_lt_of_isNameChar (isNameChar_of_isDigit h)) h

theorem lexeme?_of_isLetter {c : Char} (hc : isLetter c = true) (t : Text) :
    lexeme? (c :: t) = some (.ident, c :: t.takeWhile isNameChar) := by
  have hblank := isBlank_of_isNameChar (isNameChar_of_isLetter hc)
  rw [lexeme?_cons, if_neg (by rw [hblank]; decide), if_pos hc]

theorem lexeme?_of_isDigit {c : Char} (hc : c.isDigit = true) (t : Text) :
    lexeme? (c :: t) = some (.number, c :: t.takeWhile Char.isDigit) := by
  have hblank := isBlank_of_isNameChar (isNameChar_of_isDigit hc)
  have hletter := isLetter_of_isDigit hc
  rw [lexeme?_cons, if_neg (by rw [hblank]; decide), if_neg (by rw [hletter]; decide), if_pos hc]

theorem Shows.ident {name : Text} (hname : name.isName = true)
    (hrest : ∀ c ∈ rest.head?, isNameChar c = false) (h : Shows rest vs) :
    Shows (name ++ rest) ((.ident, name) :: vs) := by
  obtain ⟨c, body, rfl, hc, hbody⟩ := Text.exists_of_isName hname
  refine .lexeme ?_ (by decide) nofun h
  rw [List.cons_append, lexeme?_of_isLetter hc, Text.takeWhile_append_of_head hbody hrest]

theorem Shows.number {digits : Text} (hne : digits ≠ []) (hdigits : ∀ c ∈ digits, c.isDigit = true)
    (hrest : ∀ c ∈ rest.head?, c.isDigit = false) (h : Shows rest vs) :
    Shows (digits ++ rest) ((.number, digits) :: vs) := by
  obtain ⟨c, body, rfl⟩ := List.exists_cons_of_ne_nil hne
  obtain ⟨hc, hbody⟩ := List.forall_mem_cons.mp hdigits
  refine .lexeme ?_ (by decide) nofun h
  rw [List.cons_append, lexeme?_of_isDigit hc, Text.takeWhile_append_of_head hbody hrest]

theorem Shows.prose {text : Text} (htext : ∀ c ∈ text, isProseChar c = true) (h : Shows rest vs) :
    Shows ('<' :: text ++ ['>'] ++ rest) ((.prose, '<' :: text ++ ['>']) :: vs) := by
  refine .lexeme ?_ (by decide) nofun h
  have htext' : '<' :: text ++ ['>'] ++ rest = '<' :: (text ++ '>' :: rest) := by simp
  rw [htext', lexeme?_cons, enclosed?_append (by decide) htext]
  rfl

section Numeric

theorem numericTail_digit {c : Char} (hc : f c = true) (t : Text) :
    numericTail f (c :: t) = c :: numericTail f t := by
  cases t with
  | nil => simp [numericTail, hc]
  | cons d t => rw [numericTail, if_pos hc]

theorem numericTail_append {digits : Text} (hdigits : ∀ c ∈ digits, f c = true) (t : Text) :
    numericTail f (digits ++ t) = digits ++ numericTail f t := by
  induction digits with
  | nil => rfl
  | cons c digits ih =>
    obtain ⟨hc, hdigits⟩ := List.forall_mem_cons.mp hdigits
    rw [List.cons_append, numericTail_digit hc, ih hdigits, List.cons_append]

theorem numericTail_joint {c d : Char} (hc : f c = false) (hjoint : isJoint c = true)
    (hd : f d = true) (t : Text) : numericTail f (c :: d :: t) = c :: d :: numericTail f t := by
  have hboth : (isJoint c && f d) = true := by rw [hjoint, hd, Bool.and_self]
  rw [numericTail, if_neg (by rw [hc]; decide), if_pos hboth]

theorem numericTail_of_head (hdigit : ∀ c ∈ rest.head?, f c = false)
    (hjoint : ∀ c ∈ rest.head?, isJoint c = false) : numericTail f rest = [] := by
  cases rest with
  | nil => rfl
  | cons c rest =>
    have hc := hdigit c rfl
    have hc' := hjoint c rfl
    cases rest with
    | nil => simp [numericTail, hc]
    | cons d rest => simp [numericTail, hc, hc']

end Numeric

/-- A value in base sixteen, or two of them with a dash in between. -/
theorem Shows.hexadecimal {first : Text} (hne : first ≠ [])
    (hfirst : ∀ c ∈ first, isHexDigit c = true) {last : Text}
    (hlast : last = [] ∨ ∃ digits, digits ≠ [] ∧ last = '-' :: digits ∧
      ∀ c ∈ digits, isHexDigit c = true)
    (hrest : Stops rest) (h : Shows rest vs) :
    Shows ('%' :: 'x' :: first ++ last ++ rest)
      ((.hexadecimal, '%' :: 'x' :: first ++ last) :: vs) := by
  have hstop : numericTail isHexDigit rest = [] :=
    numericTail_of_head (hrest.head ⟨by decide, by decide, by decide, by decide⟩)
      (hrest.head ⟨by decide, by decide, by decide, by decide⟩)
  have htail : numericTail isHexDigit (last ++ rest) = last := by
    rcases hlast with rfl | ⟨digits, hdigits, rfl, hall⟩
    · exact hstop
    · obtain ⟨d, digits, rfl⟩ := List.exists_cons_of_ne_nil hdigits
      obtain ⟨hd, hall⟩ := List.forall_mem_cons.mp hall
      rw [List.cons_append, List.cons_append, numericTail_joint (by decide) (by decide) hd,
        numericTail_append hall, hstop, List.append_nil]
  obtain ⟨c, first, rfl⟩ := List.exists_cons_of_ne_nil hne
  obtain ⟨hc, hfirst⟩ := List.forall_mem_cons.mp hfirst
  have hnumeric : numeric? isHexDigit (c :: (first ++ (last ++ rest))) =
      some (c :: (first ++ last)) := by
    rw [numeric?, if_pos hc, numericTail_append hfirst, htail]
  refine .lexeme ?_ (by decide) (fun hline => by cases hline) h
  have htext : '%' :: 'x' :: c :: first ++ last ++ rest =
      '%' :: 'x' :: (c :: (first ++ (last ++ rest))) := by simp
  rw [htext, lexeme?_cons]
  change (percentValue? 'x' (c :: (first ++ (last ++ rest)))).map _ = _
  rw [percentValue?, if_neg (by decide), if_neg (by decide), if_pos (by decide), hnumeric]
  simp

end Lexemes

end AugmentedBnf.Token
