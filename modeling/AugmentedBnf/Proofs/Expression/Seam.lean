import AugmentedBnf.Proofs.Expression.Phrase

/-! # Right-hand sides in front of a line break

A line break that no indentation follows ends every right-hand side that is open there. So a phrase
that is spelled up to the last line break of some tokens is spelled just the same when more tokens
follow, as long as these do not start with an indentation.
-/
namespace AugmentedBnf

namespace Token

variable {line : Token} {front : List Token}

theorem headKind?_append_line (front : List Token) (line : Token) (more : List Token) :
    headKind? (front ++ line :: more) = headKind? (front ++ [line]) := by
  cases front <;> rfl

theorem past_append_line (hline : line.kind = .lineBreak) {kinds : List Kind}
    (hkinds : .lineBreak ∉ kinds) (front more : List Token) :
    past kinds (front ++ line :: more) = past kinds front ++ line :: more := by
  induction front with
  | nil =>
    rw [List.nil_append, past_cons, if_neg (by rwa [hline])]
    rfl
  | cons token front ih =>
    rw [List.cons_append, past_cons, past_cons]
    split
    · exact ih
    · rfl

/-- What stands first behind trivia is found in front of the line break, unless it is one itself. -/
theorem exists_of_past_append {kinds : List Kind} {token : Token} {rest : List Token}
    (h : past kinds (front ++ [line]) = token :: rest) (hne : token ≠ line) :
    ∃ front', rest = front' ++ [line] ∧
      ∀ more, past kinds (front ++ line :: more) = token :: (front' ++ line :: more) := by
  induction front with
  | nil =>
    rw [List.nil_append, past_cons] at h
    split at h
    · cases h
    · cases h
      exact absurd rfl hne
  | cons first front ih =>
    rw [List.cons_append, past_cons] at h
    split at h
    · rename_i hmem
      obtain ⟨front', hrest, hmore⟩ := ih h
      refine ⟨front', hrest, ?_⟩
      intro more
      rw [List.cons_append, past_cons, if_pos hmem, hmore]
    · rename_i hmem
      cases h
      refine ⟨front, rfl, ?_⟩
      intro more
      rw [List.cons_append, past_cons, if_neg hmem]

theorem ne_of_kind {token : Token} {kind : Kind} (hline : line.kind = .lineBreak)
    (hkind : token.kind = kind) (hne : kind ≠ .lineBreak) : token ≠ line := by
  rintro rfl
  exact hne (hkind.symm.trans hline)

end Token

namespace Expression

open Token (past headKind? past_append_line headKind?_append_line exists_of_past_append ne_of_kind)

variable {line : Token} {front rest : List Token}

/-- Tokens that do not continue the line that ends in front of them. -/
def Unindented (more : List Token) : Prop := headKind? more ≠ some .whitespace

theorem turn_append_line (hline : line.kind = .lineBreak) {more : List Token}
    (hmore : Unindented more) (front : List Token) :
    turn (front ++ line :: more) = turn (front ++ [line]) := by
  match front with
  | [] => rw [List.nil_append, List.nil_append, turn_lineBreak hline, turn_lineBreak hline,
      if_neg hmore, if_neg (by nofun)]
  | [token] => rw [List.singleton_append, List.singleton_append, turn_cons, turn_cons]; rfl
  | token :: next :: front =>
    rw [List.cons_append, List.cons_append, List.cons_append, List.cons_append, turn_cons,
      turn_cons]
    rfl

theorem Counts.append_line (hline : line.kind = .lineBreak) {bounds : Bounds}
    (h : Counts bounds (front ++ [line]) rest) :
    ∃ front', rest = front' ++ [line] ∧
      ∀ more, Counts bounds (front ++ line :: more) (front' ++ line :: more) := by
  have hblank : Token.Kind.lineBreak ∉ [Token.Kind.whitespace] := by decide
  have hnumber : ∀ {token : Token} {n : Nat}, token.number? = some n → token ≠ line := by
    intro token n hn
    exact ne_of_kind hline (Token.exists_of_number? hn).1 (by decide)
  have hstar : ∀ {token : Token}, token.kind = .star → token ≠ line := by
    intro token hkind
    exact ne_of_kind hline hkind (by decide)
  have hfirst : ∀ {token : Token} {r : List Token}, front ++ [line] = token :: r → token ≠ line →
      ∃ front₁, front = token :: front₁ ∧ r = front₁ ++ [line] := by
    intro token r heq hne
    cases front with
    | nil =>
      cases heq
      exact absurd rfl hne
    | cons first front₁ =>
      cases heq
      exact ⟨front₁, rfl, rfl⟩
  have hhead : ∀ (r more : List Token) (kind : Token.Kind),
      headKind? (past [.whitespace] (r ++ [line])) ≠ some kind →
      headKind? (past [.whitespace] (r ++ line :: more)) ≠ some kind := by
    intro r more kind hkind
    rw [past_append_line hline hblank] at hkind ⊢
    rwa [headKind?_append_line]
  generalize htokens : front ++ [line] = tokens at h
  cases h with
  | between least mark kind next greatest =>
    obtain ⟨front₁, rfl, rfl⟩ := hfirst htokens (hnumber least)
    obtain ⟨front₂, rfl, hmark⟩ := exists_of_past_append mark (hstar kind)
    obtain ⟨front₃, rfl, hnext⟩ := exists_of_past_append next (hnumber greatest)
    exact ⟨front₃, rfl, fun more => .between least (hmark more) kind (hnext more) greatest⟩
  | atLeast least mark kind next =>
    obtain ⟨front₁, rfl, rfl⟩ := hfirst htokens (hnumber least)
    obtain ⟨front₂, rfl, hmark⟩ := exists_of_past_append mark (hstar kind)
    refine ⟨past [.whitespace] front₂, past_append_line hline hblank front₂ [], ?_⟩
    intro more
    rw [← past_append_line hline hblank]
    exact .atLeast least (hmark more) kind (hhead _ _ _ next)
  | exactly least next =>
    obtain ⟨front₁, rfl, rfl⟩ := hfirst htokens (hnumber least)
    refine ⟨past [.whitespace] front₁, past_append_line hline hblank front₁ [], ?_⟩
    intro more
    rw [← past_append_line hline hblank]
    exact .exactly least (hhead _ _ _ next)
  | atMost kind next greatest =>
    obtain ⟨front₁, rfl, rfl⟩ := hfirst htokens (hstar kind)
    obtain ⟨front₂, rfl, hnext⟩ := exists_of_past_append next (hnumber greatest)
    exact ⟨front₂, rfl, fun more => .atMost kind (hnext more) greatest⟩
  | anyNumber kind next =>
    obtain ⟨front₁, rfl, rfl⟩ := hfirst htokens (hstar kind)
    refine ⟨past [.whitespace] front₁, past_append_line hline hblank front₁ [], ?_⟩
    intro more
    rw [← past_append_line hline hblank]
    exact .anyNumber kind (hhead _ _ _ next)
  | single number star =>
    subst htokens
    refine ⟨front, rfl, ?_⟩
    intro more
    rw [← headKind?_append_line front line more] at number star
    exact .single number star

/-- A phrase in front of the last line break is spelled whatever follows, unless that continues the
line. -/
theorem Spells.append_line (hline : line.kind = .lineBreak) {p : Phrase}
    (h : Spells p (front ++ [line]) rest) :
    ∃ front', rest = front' ++ [line] ∧
      ∀ more, Unindented more → Spells p (front ++ line :: more) (front' ++ line :: more) := by
  have hinline : Token.Kind.lineBreak ∉ Token.Kind.inlineTrivia := by decide
  have hblank : Token.Kind.lineBreak ∉ [Token.Kind.whitespace] := by decide
  generalize htokens : front ++ [line] = tokens at h
  induction h generalizing front with
  | literal first lexeme =>
    subst htokens
    have hne : ∀ token value, Literal.ofLexeme? token.kind token.text = some (.ok value) →
        token ≠ line := by
      rintro token value hvalue rfl
      rw [hline] at hvalue
      cases hvalue
    obtain ⟨front', rfl, hmore⟩ := exists_of_past_append first (hne _ _ lexeme)
    exact ⟨front', rfl, fun more _ => .literal (hmore more) lexeme⟩
  | reference first kind =>
    subst htokens
    obtain ⟨front', rfl, hmore⟩ := exists_of_past_append first (ne_of_kind hline kind (by decide))
    exact ⟨front', rfl, fun more _ => .reference (hmore more) kind⟩
  | prose first kind =>
    subst htokens
    obtain ⟨front', rfl, hmore⟩ := exists_of_past_append first (ne_of_kind hline kind (by decide))
    exact ⟨front', rfl, fun more _ => .prose (hmore more) kind⟩
  | group first kind inner last kind' ih =>
    subst htokens
    obtain ⟨front₁, rfl, hfirst⟩ := exists_of_past_append first (ne_of_kind hline kind (by decide))
    obtain ⟨front₂, rfl, hinner⟩ := ih rfl
    obtain ⟨front₃, rfl, hlast⟩ := exists_of_past_append last (ne_of_kind hline kind' (by decide))
    refine ⟨front₃, rfl, ?_⟩
    intro more hmore
    exact .group (hfirst more) kind (hinner more hmore) (hlast more) kind'
  | option first kind inner last kind' ih =>
    subst htokens
    obtain ⟨front₁, rfl, hfirst⟩ := exists_of_past_append first (ne_of_kind hline kind (by decide))
    obtain ⟨front₂, rfl, hinner⟩ := ih rfl
    obtain ⟨front₃, rfl, hlast⟩ := exists_of_past_append last (ne_of_kind hline kind' (by decide))
    refine ⟨front₃, rfl, ?_⟩
    intro more hmore
    exact .option (hfirst more) kind (hinner more hmore) (hlast more) kind'
  | operand count inner ih =>
    subst htokens
    rw [past_append_line hline hblank] at count
    obtain ⟨front₁, rfl, hcount⟩ := count.append_line hline
    obtain ⟨front₂, rfl, hinner⟩ := ih rfl
    refine ⟨front₂, rfl, ?_⟩
    intro more hmore
    refine .operand ?_ (hinner more hmore)
    rw [past_append_line hline hblank]
    exact hcount more
  | stop stops =>
    subst htokens
    rw [past_append_line hline hinline] at stops ⊢
    refine ⟨_, rfl, ?_⟩
    intro more hmore
    rw [← past_append_line hline hinline]
    refine .stop ?_
    rw [past_append_line hline hinline, turn_append_line hline hmore, stops]
  | fold first kind kind' next ih =>
    subst htokens
    rw [past_append_line hline hinline] at first
    -- the line break at the end has no indentation behind it, so it is not the one folded here
    match hpast : past Token.Kind.inlineTrivia front, first with
    | [_], first =>
      cases first
      exact absurd (kind'.symm.trans hline) (by decide)
    | _ :: _ :: front₁, first =>
      cases first
      obtain ⟨front₂, rfl, hnext⟩ := ih rfl
      refine ⟨front₂, rfl, ?_⟩
      intro more hmore
      refine .fold ?_ kind kind' (hnext more hmore)
      rw [past_append_line hline hinline, hpast]
      rfl
  | another goes first next ihfirst ihnext =>
    subst htokens
    obtain ⟨front₁, rfl, hfirst⟩ := ihfirst (past_append_line hline hinline front []).symm
    obtain ⟨front₂, rfl, hnext⟩ := ihnext rfl
    refine ⟨front₂, rfl, ?_⟩
    intro more hmore
    rw [past_append_line hline hinline] at goes
    refine .another ?_ ?_ (hnext more hmore)
    · rw [past_append_line hline hinline, turn_append_line hline hmore, goes]
    · rw [past_append_line hline hinline]
      exact hfirst more hmore
  | last ends =>
    subst htokens
    rw [past_append_line hline hinline] at ends ⊢
    refine ⟨_, rfl, ?_⟩
    intro more hmore
    rw [← past_append_line hline hinline]
    refine .last ?_
    rw [past_append_line hline hinline, headKind?_append_line]
    exact ends
  | slash first kind branch next ihbranch ihnext =>
    subst htokens
    obtain ⟨front₁, rfl, hfirst⟩ := exists_of_past_append first (ne_of_kind hline kind (by decide))
    obtain ⟨front₂, rfl, hbranch⟩ := ihbranch (past_append_line hline hinline front₁ []).symm
    obtain ⟨front₃, rfl, hnext⟩ := ihnext rfl
    refine ⟨front₃, rfl, ?_⟩
    intro more hmore
    refine .slash (hfirst more) kind ?_ (hnext more hmore)
    rw [past_append_line hline hinline]
    exact hbranch more hmore
  | whole branch next ihbranch ihnext =>
    subst htokens
    obtain ⟨front₁, rfl, hbranch⟩ := ihbranch rfl
    obtain ⟨front₂, rfl, hnext⟩ := ihnext rfl
    refine ⟨front₂, rfl, ?_⟩
    intro more hmore
    exact .whole (hbranch more hmore) (hnext more hmore)

section Leading

variable {tokens : List Token}

/-- Nothing is spelled in front of the end of a line. -/
def Blank (tokens rest : List Token) : Prop :=
  (rest = [] ∨ headKind? rest = some .lineBreak) ∧
    past Token.Kind.trivia tokens = past Token.Kind.trivia rest

theorem past_trivia_past_inline (tokens : List Token) :
    past Token.Kind.trivia (past Token.Kind.inlineTrivia tokens) = past Token.Kind.trivia tokens := by
  induction tokens with
  | nil => rfl
  | cons token rest ih =>
    rw [Token.past_cons Token.Kind.inlineTrivia]
    split
    · rename_i hinline
      have htrivia : token.kind ∈ Token.Kind.trivia := by
        rcases List.mem_cons.mp hinline with h | h
        · rw [h]
          decide
        · rw [List.mem_singleton.mp h]
          decide
      rw [ih, Token.past_cons, if_pos htrivia]
    · rfl

/-- Behind trivia within the line stands a line break, or all trivia end there. -/
theorem past_trivia_eq {token : Token} {rest : List Token}
    (h : past Token.Kind.inlineTrivia tokens = token :: rest) (hline : token.kind ≠ .lineBreak) :
    past Token.Kind.trivia tokens = token :: rest := by
  have hinline := Token.not_mem_of_past h
  have htrivia : token.kind ∉ Token.Kind.trivia := by
    intro hmem
    rcases List.mem_cons.mp hmem with heq | hmem
    · exact hinline (heq ▸ List.mem_cons_self)
    rcases List.mem_cons.mp hmem with heq | hmem
    · exact hinline (heq ▸ List.mem_cons_of_mem _ List.mem_cons_self)
    · exact hline (List.mem_singleton.mp hmem)
  rw [← past_trivia_past_inline, h, Token.past_cons, if_neg htrivia]

/-- A sequence may be read from behind the trivia in front of it. -/
theorem Spells.operands_past {es : List Expression} (h : Spells (.operands es) tokens rest) :
    Spells (.operands es) (past Token.Kind.inlineTrivia tokens) rest := by
  cases h with
  | stop stops =>
    rw [← Token.past_past] at stops
    have hstill := Spells.stop stops
    rwa [Token.past_past] at hstill
  | fold first kind kind' next =>
    rw [← Token.past_past] at first
    exact .fold first kind kind' next
  | another goes first next =>
    rw [← Token.past_past] at goes first
    exact .another goes first next

theorem Spells.blank_or_operands {es : List Expression} (h : Spells (.operands es) tokens rest) :
    (es = [] ∧ Blank tokens rest) ∨ Spells (.operands es) (past Token.Kind.trivia tokens) rest := by
  generalize hp : Phrase.operands es = p at h
  induction h with
  | @stop tokens stops =>
    cases hp
    cases hpast : past Token.Kind.inlineTrivia tokens with
    | nil =>
      refine .inl ⟨rfl, .inl rfl, ?_⟩
      rw [← past_trivia_past_inline, hpast]
    | cons token r =>
      by_cases hline : token.kind = .lineBreak
      · refine .inl ⟨rfl, .inr (congrArg some hline), ?_⟩
        rw [← past_trivia_past_inline, hpast]
      · have hstill := (Spells.stop stops).operands_past
        rw [hpast] at hstill
        rw [past_trivia_eq hpast hline]
        exact .inr hstill
  | @fold tokens r rest line indent es first kind kind' next ih =>
    cases hp
    have hpast : past Token.Kind.trivia tokens = past Token.Kind.trivia r := by
      have hline : line.kind ∈ Token.Kind.trivia := by
        rw [kind]
        decide
      have hindent : indent.kind ∈ Token.Kind.trivia := by
        rw [kind']
        decide
      rw [← past_trivia_past_inline, first, Token.past_cons, if_pos hline, Token.past_cons,
        if_pos hindent]
    rw [Blank, hpast]
    exact ih rfl
  | @another tokens r rest e es goes first next =>
    cases hp
    right
    cases hpast : past Token.Kind.inlineTrivia tokens with
    | nil =>
      rw [hpast] at goes
      cases goes
    | cons token after =>
      have hline : token.kind ≠ .lineBreak := by
        intro hline
        rw [hpast, turn_lineBreak hline] at goes
        split at goes <;> cases goes
      rw [past_trivia_eq hpast hline, ← hpast]
      exact (Spells.another goes first next).operands_past
  | _ => cases hp

/-- Skipping lines in front of a right-hand side changes nothing, unless the right-hand side is
empty. -/
theorem Spells.blank_or_whole {e : Expression} (h : Spells (.whole e) tokens rest) :
    Blank tokens rest ∨ Spells (.whole e) (past Token.Kind.trivia tokens) rest := by
  cases h with
  | @whole _ r _ es others branch next =>
    rcases branch.blank_or_operands with ⟨-, hends, hpast⟩ | hbranch
    · left
      have hinline : past Token.Kind.inlineTrivia r = r := by
        rcases hends with rfl | hline
        · rfl
        · apply Token.past_of_headKind?
          intro kind hkind
          rw [hline]
          rintro ⟨⟩
          exact absurd hkind (by decide)
      have hslash : headKind? r ≠ some .slash := by
        rcases hends with rfl | hline
        · nofun
        · rw [hline]
          nofun
      cases next with
      | last => exact ⟨by rwa [hinline], by rwa [hinline]⟩
      | slash first kind =>
        rw [hinline] at first
        rw [first] at hslash
        exact absurd (congrArg some kind) hslash
    · exact .inr (.whole hbranch next)

end Leading

end Expression

end AugmentedBnf
