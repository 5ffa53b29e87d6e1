import AugmentedBnf.Proofs.Expression.Printing
import AugmentedBnf.Proofs.Expression.Reading
import AugmentedBnf.Proofs.Expression.Seam

/-! # What lexemes spell

Tokens that show the lexemes of an element, of operands in sequence or of alternatives spell it,
whatever blanks stand between them and whatever follows. There is one lemma for each way in which
lexemes are put together, so what a text spells can be put together along with it.
-/
namespace AugmentedBnf

open Token (visible past headKind? past_suffix past_cons past_past slashed)

namespace Token

variable {tokens : List Token} {kind : Kind} {text : Text} {vs : List (Kind × Text)}

/-- The first lexeme is found behind the blanks. -/
theorem exists_of_visible (h : visible tokens = (kind, text) :: vs) (hkind : kind ≠ .comment) :
    ∃ token r, past Kind.inlineTrivia tokens = token :: r ∧ past [.whitespace] tokens = token :: r ∧
      token.kind = kind ∧ token.text = text ∧ visible r = vs ∧ r <:+ tokens := by
  induction tokens with
  | nil => cases h
  | cons first rest ih =>
    by_cases hblank : first.kind = .whitespace
    · rw [visible_cons_blank hblank] at h
      obtain ⟨token, r, hinline, hpast, hfound⟩ := ih h
      refine ⟨token, r, ?_, ?_, hfound.1, hfound.2.1, hfound.2.2.1,
        hfound.2.2.2.trans (List.suffix_cons _ _)⟩
      · rw [past_cons, if_pos (by rw [hblank]; decide), hinline]
      · rw [past_cons, if_pos (by rw [hblank]; decide), hpast]
    · rw [visible_cons hblank] at h
      cases h
      have hinline : first.kind ∉ Kind.inlineTrivia := by
        intro hmem
        rcases List.mem_cons.mp hmem with heq | hmem
        · exact hblank heq
        · exact hkind (List.mem_singleton.mp hmem)
      refine ⟨first, rest, ?_, ?_, rfl, rfl, rfl, List.suffix_cons _ _⟩
      · rw [past_cons, if_neg hinline]
      · rw [past_cons, if_neg (by simpa using hblank)]

theorem past_of_visible_nil (h : visible tokens = []) : past Kind.inlineTrivia tokens = [] := by
  induction tokens with
  | nil => rfl
  | cons token rest ih =>
    by_cases hblank : token.kind = .whitespace
    · rw [visible_cons_blank hblank] at h
      rw [past_cons, if_pos (by rw [hblank]; decide), ih h]
    · rw [visible_cons hblank] at h
      cases h

theorem past_inline_past_blank (tokens : List Token) :
    past Kind.inlineTrivia (past [.whitespace] tokens) = past Kind.inlineTrivia tokens := by
  induction tokens with
  | nil => rfl
  | cons token rest ih =>
    rw [past_cons [.whitespace]]
    split
    · rename_i hblank
      have hinline : token.kind ∈ Kind.inlineTrivia := by
        rw [List.mem_singleton.mp hblank]
        decide
      rw [ih, past_cons Kind.inlineTrivia, if_pos hinline]
    · rfl

end Token

namespace Expression

open Token (exists_of_visible past_of_visible_nil past_inline_past_blank)

section Elements

variable {e : Expression} {tokens rest : List Token}

theorem Spells.element_of_past {tokens' : List Token} (h : Spells (.element e) tokens rest)
    (hpast : past Token.Kind.inlineTrivia tokens' = past Token.Kind.inlineTrivia tokens) :
    Spells (.element e) tokens' rest := by
  cases h with
  | literal first lexeme => exact .literal (hpast.trans first) lexeme
  | reference first kind => exact .reference (hpast.trans first) kind
  | prose first kind => exact .prose (hpast.trans first) kind
  | group first kind inner last kind' => exact .group (hpast.trans first) kind inner last kind'
  | option first kind inner last kind' => exact .option (hpast.trans first) kind inner last kind'

/-- The kinds of tokens that an element starts with. -/
def startsElement (kind : Token.Kind) : Bool :=
  kind.isLiteral || kind == .ident || kind == .prose || kind == .leftParen || kind == .leftBracket

theorem Spells.exists_first (h : Spells (.element e) tokens rest) :
    ∃ token r, past Token.Kind.inlineTrivia tokens = token :: r ∧
      startsElement token.kind = true := by
  cases h with
  | literal first lexeme =>
    refine ⟨_, _, first, ?_⟩
    simp [startsElement, isLiteral_of_ofLexeme? lexeme]
  | reference first kind => exact ⟨_, _, first, by rw [kind]; decide⟩
  | prose first kind => exact ⟨_, _, first, by rw [kind]; decide⟩
  | group first kind => exact ⟨_, _, first, by rw [kind]; decide⟩
  | option first kind => exact ⟨_, _, first, by rw [kind]; decide⟩

/-- Neither a number nor a star stands in front of an element. -/
theorem Spells.headKind?_ne (h : Spells (.element e) tokens rest) (kind : Token.Kind)
    (hkind : startsElement kind = false) (hinline : kind ∉ Token.Kind.inlineTrivia) :
    headKind? (past [.whitespace] tokens) ≠ some kind := by
  obtain ⟨token, r, hpast, hstarts⟩ := h.exists_first
  rw [← past_inline_past_blank] at hpast
  intro hhead
  cases hblank : past [.whitespace] tokens with
  | nil =>
    rw [hblank] at hhead
    cases hhead
  | cons first others =>
    rw [hblank] at hhead hpast
    obtain rfl : first.kind = kind := Option.some.inj hhead
    rw [past_cons, if_neg hinline] at hpast
    cases hpast
    rw [hkind] at hstarts
    cases hstarts

/-- An element is an operand of a sequence. -/
theorem Spells.another_of_element {es : List Expression} {r : List Token}
    (h : Spells (.element e) tokens r) (hnext : Spells (.operands es) r rest) :
    Spells (.operands (e :: es)) tokens rest := by
  obtain ⟨token, others, hpast, hstarts⟩ := h.exists_first
  have hinner := h.element_of_past (past_past Token.Kind.inlineTrivia tokens)
  have hcloses : closes token.kind = false ∧ token.kind ≠ .lineBreak ∧
      token.kind ≠ .whitespace := by
    revert hstarts
    cases token.kind <;> decide
  have hblank : past [.whitespace] (past Token.Kind.inlineTrivia tokens) =
      past Token.Kind.inlineTrivia tokens := by
    rw [hpast, past_cons, if_neg (by simpa using hcloses.2.2)]
  have hsingle : Counts .once (past [.whitespace] (past Token.Kind.inlineTrivia tokens))
      (past Token.Kind.inlineTrivia tokens) := by
    have hnumber := hinner.headKind?_ne .number (by decide) (by decide)
    have hstar := hinner.headKind?_ne .star (by decide) (by decide)
    rw [hblank] at hnumber hstar ⊢
    exact .single hnumber hstar
  have honce : (repetition .once e).simplify = e := by
    rw [Bounds.once, simplify, h.simplify_element]
  have hoperand := Spells.operand hsingle hinner
  rw [honce] at hoperand
  refine .another ?_ hoperand hnext
  rw [hpast]
  exact turn_eq_operand hcloses.1 hcloses.2.1

end Elements

/-- Tokens that show the lexemes spell the element. -/
def ReadsElement (vs : List (Token.Kind × Text)) (e : Expression) : Prop :=
  ∀ tokens ws, visible tokens = vs ++ ws →
    ∃ r, visible r = ws ∧ Spells (.element e) tokens r

/-- Tokens that show the lexemes spell these operands of a sequence, and more may follow. -/
def ReadsPieces (vs : List (Token.Kind × Text)) (ps : List Expression) : Prop :=
  ∀ tokens ws, visible tokens = vs ++ ws →
    ∃ r, r <:+ tokens ∧ visible r = ws ∧ ∀ es rest, Spells (.operands es) r rest →
      Spells (.operands (ps ++ es)) tokens rest

/-- Wherever the tokens show these lexemes, a right-hand side ends. -/
def Closing (tokens : List Token) (ws : List (Token.Kind × Text)) : Prop :=
  ∀ r, r <:+ tokens → visible r = ws → turn (past Token.Kind.inlineTrivia r) = .stop ∧
    headKind? (past Token.Kind.inlineTrivia r) ≠ some .slash ∧
    visible (past Token.Kind.inlineTrivia r) = ws

/-- Tokens that show the lexemes spell the right-hand side, if it ends behind them. -/
def ReadsWhole (vs : List (Token.Kind × Text)) (e : Expression) : Prop :=
  ∀ tokens ws, visible tokens = vs ++ ws → Closing tokens ws →
    ∃ r, visible r = ws ∧ Spells (.whole e) tokens r

section Closing

variable {tokens : List Token} {ws : List (Token.Kind × Text)}

theorem Closing.suffix {r : List Token} (h : Closing tokens ws) (hr : r <:+ tokens) :
    Closing r ws := fun r' hr' => h r' (hr'.trans hr)

theorem closing_nil (tokens : List Token) : Closing tokens [] := by
  intro r _ hvisible
  rw [past_of_visible_nil hvisible]
  exact ⟨rfl, nofun, rfl⟩

theorem visible_past_of_first {kind : Token.Kind} {text : Text} {r : List Token}
    (h : visible r = (kind, text) :: ws) (hkind : kind ≠ .comment) :
    ∃ token others, past Token.Kind.inlineTrivia r = token :: others ∧ token.kind = kind ∧
      visible (past Token.Kind.inlineTrivia r) = (kind, text) :: ws := by
  obtain ⟨token, others, hpast, hblank, rfl, rfl, rfl, -⟩ := exists_of_visible h hkind
  refine ⟨token, others, hpast, rfl, ?_⟩
  have hsolid : token.kind ≠ .whitespace := by
    have hnot := Token.not_mem_of_past hblank
    simpa using hnot
  rw [hpast, Token.visible_cons hsolid]

theorem closing_of_closes {kind : Token.Kind} (hkind : closes kind = true) (hslash : kind ≠ .slash)
    (tokens : List Token) (text : Text) (ws : List (Token.Kind × Text)) :
    Closing tokens ((kind, text) :: ws) := by
  intro r _ hvisible
  have hcomment : kind ≠ .comment := by
    rintro rfl
    cases hkind
  obtain ⟨token, others, hpast, htoken, hstill⟩ := visible_past_of_first hvisible hcomment
  refine ⟨?_, ?_, hstill⟩
  · rw [hpast]
    exact turn_eq_stop_of_closes (by rw [htoken, hkind])
  · rw [hpast]
    exact fun heq => hslash (htoken.symm.trans (Option.some.inj heq))

/-- A right-hand side ends where a line does, if the next one is not indented. -/
theorem closing_of_unfolded (h : Token.Unfolded tokens) (text : Text)
    (ws : List (Token.Kind × Text)) : Closing tokens ((.lineBreak, text) :: ws) := by
  intro r hsuffix hvisible
  obtain ⟨line, others, hpast, hline, hstill⟩ := visible_past_of_first hvisible (by decide)
  have hindent : headKind? others ≠ some .whitespace := by
    cases others with
    | nil => nofun
    | cons next others =>
      have hbehind : line :: next :: others <:+ tokens := by
        rw [← hpast]
        exact (past_suffix _ _).trans hsuffix
      exact fun heq => h line next others hbehind hline (Option.some.inj heq)
  refine ⟨?_, ?_, hstill⟩
  · rw [hpast, turn_lineBreak hline, if_neg hindent]
  · intro heq
    rw [hpast] at heq
    have hslash : line.kind = .slash := Option.some.inj heq
    rw [hline] at hslash
    cases hslash

end Closing

namespace ReadsElement

variable {vs : List (Token.Kind × Text)} {e : Expression}

theorem literal {kind : Token.Kind} {text : Text} {value : Literal}
    (h : Literal.ofLexeme? kind text = some (.ok value)) :
    ReadsElement [(kind, text)] (.literal value) := by
  intro tokens ws hvisible
  have hkind : kind ≠ .comment := by
    rintro rfl
    cases h
  obtain ⟨token, r, hpast, -, rfl, rfl, hr, -⟩ := exists_of_visible hvisible hkind
  exact ⟨r, hr, .literal hpast h⟩

theorem reference {name : Text} (h : name.isName = true) :
    ReadsElement [(.ident, name)] (.reference name) := by
  intro tokens ws hvisible
  obtain ⟨token, r, hpast, -, hkind, rfl, hr, -⟩ := exists_of_visible hvisible (by decide)
  have hspells := Spells.reference hpast hkind
  rw [Text.upper_of_isName h] at hspells
  exact ⟨r, hr, hspells⟩

theorem prose (text : Text) : ReadsElement [(.prose, '<' :: text ++ ['>'])] (.prose text) := by
  intro tokens ws hvisible
  obtain ⟨token, r, hpast, -, hkind, htext, hr, -⟩ := exists_of_visible hvisible (by decide)
  have hinside : token.text.inside 1 1 = text := by
    rw [htext]
    exact Text.inside_append ['<'] text ['>']
  have hspells := Spells.prose hpast hkind
  rw [hinside] at hspells
  exact ⟨r, hr, hspells⟩

/-- The right-hand side inside brackets ends at the closing one. -/
theorem exists_enclosed (h : ReadsWhole vs e) {left right : Token.Kind} {l l' : Text}
    (hleft : left ≠ .comment) (hright : closes right = true) (hslash : right ≠ .slash)
    {tokens : List Token} {ws : List (Token.Kind × Text)}
    (hvisible : visible tokens = ((left, l) :: vs ++ [(right, l')]) ++ ws) :
    ∃ first r r' last rest, past Token.Kind.inlineTrivia tokens = first :: r ∧ first.kind = left ∧
      Spells (.whole e) r r' ∧ past Token.Kind.trivia r' = last :: rest ∧ last.kind = right ∧
      visible rest = ws := by
  have hright' : right ≠ .comment ∧ right ≠ .lineBreak := by
    constructor <;> rintro rfl <;> cases hright
  have hvisible' : visible tokens = (left, l) :: (vs ++ (right, l') :: ws) := by
    rw [hvisible]
    simp
  obtain ⟨first, r, hfirst, -, hkind, -, hr, -⟩ := exists_of_visible hvisible' hleft
  obtain ⟨r', hr', hinner⟩ := h r _ hr (closing_of_closes hright hslash r l' ws)
  obtain ⟨last, rest, hlast, -, hkind', -, hrest, -⟩ := exists_of_visible hr' hright'.1
  have hline : last.kind ≠ .lineBreak := by
    rw [hkind']
    exact hright'.2
  exact ⟨first, r, r', last, rest, hfirst, hkind, hinner, past_trivia_eq hlast hline, hkind', hrest⟩

theorem group (h : ReadsWhole vs e) :
    ReadsElement ((.leftParen, ['(']) :: vs ++ [(.rightParen, [')'])]) (.group e) := by
  intro tokens ws hvisible
  obtain ⟨first, r, r', last, rest, hfirst, hkind, hinner, hlast, hkind', hrest⟩ :=
    exists_enclosed h (by decide) (by decide) (by decide) hvisible
  exact ⟨rest, hrest, .group hfirst hkind hinner hlast hkind'⟩

theorem option (h : ReadsWhole vs e) :
    ReadsElement ((.leftBracket, ['[']) :: vs ++ [(.rightBracket, [']'])]) (.option e) := by
  intro tokens ws hvisible
  obtain ⟨first, r, r', last, rest, hfirst, hkind, hinner, hlast, hkind', hrest⟩ :=
    exists_enclosed h (by decide) (by decide) (by decide) hvisible
  exact ⟨rest, hrest, .option hfirst hkind hinner hlast hkind'⟩

end ReadsElement

namespace ReadsPieces

variable {vs vs' : List (Token.Kind × Text)} {ps ps' : List Expression} {e : Expression}

theorem nil : ReadsPieces [] [] := by
  intro tokens ws hvisible
  exact ⟨tokens, List.suffix_rfl, hvisible, fun _ _ h => h⟩

theorem append (h : ReadsPieces vs ps) (h' : ReadsPieces vs' ps') :
    ReadsPieces (vs ++ vs') (ps ++ ps') := by
  intro tokens ws hvisible
  rw [List.append_assoc] at hvisible
  obtain ⟨r, hsuffix, hr, hfirst⟩ := h tokens _ hvisible
  obtain ⟨r', hsuffix', hr', hsecond⟩ := h' r _ hr
  refine ⟨r', hsuffix'.trans hsuffix, hr', ?_⟩
  intro es rest hrest
  rw [List.append_assoc]
  exact hfirst _ _ (hsecond es rest hrest)

theorem flatten {lists : List (List (Token.Kind × Text))} {rows : List (List Expression)}
    (h : List.Forall₂ ReadsPieces lists rows) : ReadsPieces lists.flatten rows.flatten := by
  induction h with
  | nil => exact .nil
  | cons hfirst _ ih => exact hfirst.append ih

theorem of_element (h : ReadsElement vs e) : ReadsPieces vs [e] := by
  intro tokens ws hvisible
  obtain ⟨r, hr, hspells⟩ := h tokens ws hvisible
  exact ⟨r, hspells.suffix, hr, fun es rest hrest => hspells.another_of_element hrest⟩

theorem exists_number {n : Nat} (hn : n < Text.limit64) {tokens : List Token}
    {ws : List (Token.Kind × Text)} (h : visible tokens = (.number, Text.decimal n) :: ws) :
    ∃ token r, past Token.Kind.inlineTrivia tokens = token :: r ∧
      past [.whitespace] tokens = token :: r ∧ token.number? = some n ∧ visible r = ws := by
  obtain ⟨token, r, hinline, hblank, hkind, htext, hr, -⟩ := exists_of_visible h (by decide)
  refine ⟨token, r, hinline, hblank, ?_, hr⟩
  rw [Token.number?, if_pos hkind, htext, Text.unsigned?_decimal hn]

theorem exists_counts {bounds : Bounds} (hmin : bounds.min < Text.limit64)
    (hmax : ∀ max ∈ bounds.max, max < Text.limit64) (h : ReadsElement vs e) {tokens : List Token}
    {ws : List (Token.Kind × Text)} (hvisible : visible tokens = bounds.shown ++ (vs ++ ws)) :
    ∃ first r r' rest, past Token.Kind.inlineTrivia tokens = first :: r ∧
      (first.kind = .number) ∧ Counts bounds (first :: r) r' ∧
      Spells (.element e) r' rest ∧ visible rest = ws := by
  have hstart : ∀ {t rest : List Token}, Spells (.element e) t rest →
      Spells (.element e) (past [.whitespace] t) rest :=
    fun hspells => hspells.element_of_past (past_inline_past_blank _)
  obtain ⟨min, max?⟩ := bounds
  cases max? with
  | none =>
    obtain ⟨first, r, hinline, -, hnumber, hr⟩ := exists_number hmin hvisible
    obtain ⟨star, r', -, hstar, hkind, -, hr', -⟩ := exists_of_visible hr (by decide)
    obtain ⟨rest, hrest, hspells⟩ := h r' ws hr'
    have hnext := hspells.headKind?_ne .number (by decide) (by decide)
    exact ⟨first, r, _, rest, hinline, (Token.exists_of_number? hnumber).1,
      .atLeast hnumber hstar hkind hnext, hstart hspells, hrest⟩
  | some max =>
    rw [Bounds.shown] at hvisible
    by_cases heq : max = min
    · subst heq
      rw [if_pos rfl] at hvisible
      obtain ⟨first, r, hinline, -, hnumber, hr⟩ := exists_number hmin hvisible
      obtain ⟨rest, hrest, hspells⟩ := h r ws hr
      have hnext := hspells.headKind?_ne .star (by decide) (by decide)
      exact ⟨first, r, _, rest, hinline, (Token.exists_of_number? hnumber).1,
        .exactly hnumber hnext, hstart hspells, hrest⟩
    · rw [if_neg heq] at hvisible
      obtain ⟨first, r, hinline, -, hnumber, hr⟩ := exists_number hmin hvisible
      obtain ⟨star, r', -, hstar, hkind, -, hr', -⟩ := exists_of_visible hr (by decide)
      obtain ⟨second, r'', -, hblank, hnumber', hr''⟩ := exists_number (hmax max rfl) hr'
      obtain ⟨rest, hrest, hspells⟩ := h r'' ws hr''
      exact ⟨first, r, r'', rest, hinline, (Token.exists_of_number? hnumber).1,
        .between hnumber hstar hkind hblank hnumber', hspells, hrest⟩

theorem repetition {bounds : Bounds} (honce : bounds ≠ .once) (hmin : bounds.min < Text.limit64)
    (hmax : ∀ max ∈ bounds.max, max < Text.limit64) (h : ReadsElement vs e) :
    ReadsPieces (bounds.shown ++ vs) [.repetition bounds e] := by
  intro tokens ws hvisible
  rw [List.append_assoc] at hvisible
  obtain ⟨first, r, r', rest, hpast, hkind, hcounts, hspells, hrest⟩ :=
    exists_counts hmin hmax h hvisible
  have hblank : past [.whitespace] (past Token.Kind.inlineTrivia tokens) = first :: r := by
    rw [hpast, past_cons, if_neg (by rw [hkind]; decide)]
  have hoperand : Spells (.operand (.repetition bounds e))
      (past Token.Kind.inlineTrivia tokens) rest := by
    have hspells' := Spells.operand (hblank ▸ hcounts) hspells
    rwa [simplify_repetition honce] at hspells'
  have hgoes : turn (past Token.Kind.inlineTrivia tokens) = .operand := by
    rw [hpast]
    exact turn_eq_operand (by rw [hkind]; decide) (by rw [hkind]; decide)
  refine ⟨rest, hoperand.suffix.trans (past_suffix _ _), hrest, ?_⟩
  intro es more hmore
  exact .another hgoes hoperand hmore

end ReadsPieces

section Whole

/-- A sequence as it is read: without a wrapper around a single operand. -/
def branch (ps : List Expression) : Expression := (concatenation ps).simplify

/-- A choice as it is read, from the operands of its sequences. -/
def assemble (rows : List (List Expression)) : Expression :=
  (alternation (rows.map branch)).simplify

variable {lists : List (List (Token.Kind × Text))} {rows : List (List Expression)}
  {vs : List (Token.Kind × Text)} {ps : List Expression} {e : Expression}

theorem slashed_cons (vs : List (Token.Kind × Text)) (lists : List (List (Token.Kind × Text))) :
    slashed (vs :: lists) = vs ++ lists.flatMap fun vs => (.slash, ['/']) :: vs := by
  induction lists generalizing vs with
  | nil => simp [slashed]
  | cons other lists ih =>
    rw [slashed, ih, List.flatMap_cons, List.cons_append]
    simp

/-- A sequence ends where a slash or the end of the right-hand side stands. -/
theorem ReadsPieces.branch (h : ReadsPieces vs ps) {tokens : List Token}
    {ws : List (Token.Kind × Text)} (hvisible : visible tokens = vs ++ ws)
    (hstops : ∀ r, r <:+ tokens → visible r = ws → turn (past Token.Kind.inlineTrivia r) = .stop ∧
      visible (past Token.Kind.inlineTrivia r) = ws) :
    ∃ r, r <:+ tokens ∧ visible r = ws ∧ past Token.Kind.inlineTrivia r = r ∧
      Spells (.operands ps) tokens r := by
  obtain ⟨r, hsuffix, hr, hspells⟩ := h tokens ws hvisible
  obtain ⟨hstop, hstill⟩ := hstops r hsuffix hr
  have hoperands := hspells [] _ (.stop hstop)
  rw [List.append_nil] at hoperands
  exact ⟨_, (past_suffix _ r).trans hsuffix, hstill, past_past _ _, hoperands⟩

theorem stops_of_slash {ws : List (Token.Kind × Text)} {r : List Token}
    (h : visible r = (.slash, ['/']) :: ws) : turn (past Token.Kind.inlineTrivia r) = .stop ∧
      visible (past Token.Kind.inlineTrivia r) = (.slash, ['/']) :: ws := by
  obtain ⟨token, others, hpast, hkind, hstill⟩ := visible_past_of_first h (by decide)
  refine ⟨?_, hstill⟩
  rw [hpast]
  exact turn_eq_stop_of_closes (by rw [hkind]; rfl)

/-- What follows the lexemes of a sequence ends the sequence: another slash, or what ends the
right-hand side. -/
theorem Closing.stops {tokens : List Token} {ws : List (Token.Kind × Text)}
    (h : Closing tokens ws) (lists : List (List (Token.Kind × Text))) :
    ∀ r, r <:+ tokens → visible r = (lists.flatMap fun vs => (.slash, ['/']) :: vs) ++ ws →
      turn (past Token.Kind.inlineTrivia r) = .stop ∧
      visible (past Token.Kind.inlineTrivia r) =
        (lists.flatMap fun vs => (.slash, ['/']) :: vs) ++ ws := by
  intro r hsuffix hvisible
  cases lists with
  | nil =>
    obtain ⟨hstop, -, hstill⟩ := h r hsuffix hvisible
    exact ⟨hstop, hstill⟩
  | cons vs lists =>
    rw [List.flatMap_cons, List.cons_append, List.cons_append] at hvisible ⊢
    exact stops_of_slash hvisible

theorem exists_alternatives (h : List.Forall₂ ReadsPieces lists rows) {tokens : List Token}
    {ws : List (Token.Kind × Text)} (hpast : past Token.Kind.inlineTrivia tokens = tokens)
    (hvisible : visible tokens = (lists.flatMap fun vs => (.slash, ['/']) :: vs) ++ ws)
    (hclosing : Closing tokens ws) :
    ∃ r, visible r = ws ∧ Spells (.alternatives (rows.map branch)) tokens r := by
  induction h generalizing tokens with
  | nil =>
    obtain ⟨-, hslash, hstill⟩ := hclosing tokens List.suffix_rfl hvisible
    exact ⟨_, hstill, .last hslash⟩
  | @cons vs ps lists rows hfirst hothers ih =>
    rw [List.flatMap_cons, List.cons_append, List.cons_append, List.append_assoc] at hvisible
    obtain ⟨mark, r, hmark, -, hkind, -, hr, hsuffix⟩ := exists_of_visible hvisible (by decide)
    obtain ⟨r', hsuffix', hr', hpast', hbranch⟩ := hfirst.branch hr
      ((hclosing.suffix hsuffix).stops lists)
    have hclosing' := hclosing.suffix (hsuffix'.trans hsuffix)
    obtain ⟨rest, hrest, hmore⟩ := ih hpast' hr' hclosing'
    exact ⟨rest, hrest, .slash hmark hkind hbranch.operands_past hmore⟩

/-- Sequences with slashes in between are read as a choice. -/
theorem ReadsWhole.of_rows (h : List.Forall₂ ReadsPieces lists rows) (hne : rows ≠ []) :
    ReadsWhole (slashed lists) (assemble rows) := by
  intro tokens ws hvisible hclosing
  cases h with
  | nil => exact absurd rfl hne
  | @cons vs ps lists rows hfirst hothers =>
    rw [slashed_cons, List.append_assoc] at hvisible
    obtain ⟨r, hsuffix, hr, hpast, hbranch⟩ := hfirst.branch hvisible (hclosing.stops lists)
    obtain ⟨rest, hrest, hmore⟩ := exists_alternatives hothers hpast hr (hclosing.suffix hsuffix)
    exact ⟨rest, hrest, .whole hbranch hmore⟩

theorem ReadsWhole.of_pieces (h : ReadsPieces vs ps) : ReadsWhole vs (assemble [ps]) :=
  .of_rows (.cons h .nil) (List.cons_ne_nil _ _)

end Whole

end Expression

end AugmentedBnf
