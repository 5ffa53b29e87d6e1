import AugmentedBnf.Proofs.Expression.Seam
import AugmentedBnf.Proofs.Expression.Steps

/-! # Folds in front of a right-hand side

A sequence passes over the blanks, comments and continued lines in front of its first element, and
stops at a line break that nothing continues. So where a right-hand side starts does not matter, as
long as only such tokens are passed.
-/
namespace AugmentedBnf

open Token (past headKind? past_past past_cons length_past_le not_mem_of_past)
open Expression (Spells SameBelow turn)

namespace Token

theorem mem_trivia_iff_inline_or {kind : Kind} :
    kind ∈ Kind.trivia ↔ kind ∈ Kind.inlineTrivia ∨ kind = .lineBreak := by
  cases kind <;> decide

/-- The tokens behind blanks, comments and continued lines. -/
def pastFolds : List Token → List Token
  | [] => []
  | token :: rest =>
    if token.kind ∈ Kind.inlineTrivia ∨
        (token.kind = .lineBreak ∧ headKind? rest = some .whitespace) then pastFolds rest
    else token :: rest

theorem pastFolds_past_inline (tokens : List Token) :
    pastFolds (past Kind.inlineTrivia tokens) = pastFolds tokens := by
  induction tokens with
  | nil => rfl
  | cons token rest ih =>
    rw [past_cons]
    by_cases h : token.kind ∈ Kind.inlineTrivia
    · rw [if_pos h, ih, pastFolds, if_pos (.inl h)]
    · rw [if_neg h]

theorem pastFolds_fold {line indent : Token} (hline : line.kind = .lineBreak)
    (hindent : indent.kind = .whitespace) (rest : List Token) :
    pastFolds (line :: indent :: rest) = pastFolds rest := by
  have hblank : indent.kind ∈ Kind.inlineTrivia := by
    rw [hindent]
    decide
  rw [pastFolds, if_pos (.inr ⟨hline, congrArg some hindent⟩), pastFolds, if_pos (.inl hblank)]

/-- A token that is neither trivia within a line nor a line break that goes on stays in front. -/
theorem pastFolds_of_turn {tokens : List Token} (h : turn (past Kind.inlineTrivia tokens) ≠ .fold) :
    pastFolds tokens = past Kind.inlineTrivia tokens := by
  rw [← pastFolds_past_inline]
  cases hpast : past Kind.inlineTrivia tokens with
  | nil => rfl
  | cons token rest =>
    have hstays : ¬ (token.kind ∈ Kind.inlineTrivia ∨
        (token.kind = .lineBreak ∧ headKind? rest = some .whitespace)) := by
      rintro (hmem | ⟨hline, hindent⟩)
      · exact not_mem_of_past hpast hmem
      · rw [hpast, Expression.turn_lineBreak hline, if_pos hindent] at h
        exact h rfl
    rw [pastFolds, if_neg hstays]

theorem past_trivia_pastFolds (tokens : List Token) :
    past Kind.trivia (pastFolds tokens) = past Kind.trivia tokens := by
  induction tokens with
  | nil => rfl
  | cons token rest ih =>
    rw [pastFolds]
    split
    · rename_i h
      have htrivia : token.kind ∈ Kind.trivia :=
        mem_trivia_iff_inline_or.mpr (h.imp_right And.left)
      rw [ih, past_cons, if_pos htrivia]
    · rfl

theorem length_pastFolds_le (tokens : List Token) : (pastFolds tokens).length ≤ tokens.length := by
  induction tokens with
  | nil => exact Nat.le_refl _
  | cons token rest ih =>
    rw [pastFolds]
    split
    · exact Nat.le_succ_of_le ih
    · exact Nat.le_refl _

theorem turn_pastFolds {tokens : List Token} (h : headKind? (pastFolds tokens) = some .lineBreak) :
    turn (pastFolds tokens) = .stop := by
  induction tokens with
  | nil => rfl
  | cons token rest ih =>
    rw [pastFolds] at h ⊢
    split
    · rename_i hgone
      rw [if_pos hgone] at h
      exact ih h
    · rename_i hstays
      rw [if_neg hstays] at h
      have hline : token.kind = .lineBreak := Option.some.inj h
      rw [Expression.turn_lineBreak hline, if_neg fun hindent => hstays (.inr ⟨hline, hindent⟩)]

/-- Up to the end of the line, going past folds is going past all trivia. -/
theorem pastFolds_eq_past_trivia {tokens : List Token}
    (h : headKind? (pastFolds tokens) ≠ some .lineBreak) :
    pastFolds tokens = past Kind.trivia tokens := by
  induction tokens with
  | nil => rfl
  | cons token rest ih =>
    rw [← past_trivia_pastFolds]
    rw [pastFolds] at h ⊢
    split
    · rename_i hgone
      rw [if_pos hgone] at h
      rw [past_trivia_pastFolds]
      exact ih h
    · rename_i hstays
      rw [if_neg hstays] at h
      have hother : token.kind ∉ Kind.trivia := by
        intro hmem
        rcases mem_trivia_iff_inline_or.mp hmem with hinline | hline
        · exact hstays (.inl hinline)
        · exact h (congrArg some hline)
      rw [past_cons, if_neg hother]

end Token

open Token (pastFolds pastFolds_past_inline pastFolds_fold pastFolds_of_turn past_trivia_pastFolds
  length_pastFolds_le pastFolds_eq_past_trivia)

namespace Expression

variable {inside : Reader Expression} {tokens rest : List Token} {size : Nat} {e : Expression}

theorem readOperands_pastFolds (hsound : Sound inside) {count count' : Nat}
    (hcount : tokens.length < count) (hcount' : tokens.length < count') :
    readOperands inside count ⟨tokens, size⟩ =
      readOperands inside count' ⟨pastFolds tokens, size⟩ := by
  have hsame : ∀ n, SameBelow inside inside n := fun n r size hless => rfl
  -- only the folds in front are passed here, so the first element is read where the induction ends
  induction count generalizing tokens with
  | zero => omega
  | succ count ih =>
    by_cases hturn : turn (past Token.Kind.inlineTrivia tokens) = .fold
    · obtain ⟨line, indent, r, hpast, hline, hindent⟩ := turn_eq_fold_iff.mp hturn
      have hshort := length_past_le Token.Kind.inlineTrivia tokens
      rw [hpast] at hshort
      simp only [List.length_cons] at hshort
      rw [readOperands_succ, hturn, ← pastFolds_past_inline, hpast, pastFolds_fold hline hindent]
      dsimp only
      rw [Reader.bind_of_ok (Reader.consume_cons hline _ _),
        Reader.bind_of_ok (Reader.consume_cons hindent _ _)]
      exact ih (by omega) (by omega)
    · have hlength := length_past_le Token.Kind.inlineTrivia tokens
      have hskipped : readOperands inside (count + 1) ⟨tokens, size⟩ =
          readOperands inside (count + 1) ⟨past Token.Kind.inlineTrivia tokens, size⟩ := by
        rw [readOperands_succ, readOperands_succ, past_past]
      rw [pastFolds_of_turn hturn, hskipped]
      exact readOperands_congr (hsame _) hsound (by omega) (by omega)

theorem readConcatenation_pastFolds (hsound : Sound inside) :
    readConcatenation inside ⟨tokens, size⟩ = readConcatenation inside ⟨pastFolds tokens, size⟩ := by
  have hshort := length_pastFolds_le tokens
  have hsame : ∀ n, SameBelow inside inside n := fun n r size hless => rfl
  unfold readConcatenation
  rw [Reader.bind_of_ok (stepsLeft_apply _ _), Reader.bind_of_ok (stepsLeft_apply _ _)]
  refine Reader.bind_congr_left ?_
  rw [readOperands_pastFolds hsound (Nat.lt_succ_self _) (Nat.lt_succ_self tokens.length)]
  exact readOperands_congr (hsame _) hsound (by omega) (by omega)

/-- A right-hand side starts behind the folds in front of it. -/
theorem read_pastFolds (tokens : List Token) (size : Nat) :
    read ⟨pastFolds tokens, size⟩ = read ⟨tokens, size⟩ := by
  have hshort := length_pastFolds_le tokens
  rw [← readNested_eq_read (Nat.lt_succ_of_le hshort), ← readNested_eq_read (Nat.lt_succ_self _)]
  have hsame : readAlternation (readNested tokens.length) ⟨pastFolds tokens, size⟩ =
      readAlternation (readNested tokens.length) ⟨tokens, size⟩ :=
    Reader.bind_congr_left (readConcatenation_pastFolds (sound_readNested _)).symm
  exact Reader.bind_congr_left hsame

theorem spells_whole_iff : Spells (.whole e) tokens rest ↔ read ⟨tokens, 0⟩ = .ok e ⟨rest, 0⟩ := by
  rw [read_eq_ok_iff]
  constructor
  · exact fun h => ⟨rest, rfl, h⟩
  · rintro ⟨_, heq, h⟩
    cases heq
    exact h

theorem spells_pastFolds_iff :
    Spells (.whole e) (pastFolds tokens) rest ↔ Spells (.whole e) tokens rest := by
  rw [spells_whole_iff, spells_whole_iff, read_pastFolds]

/-- Tokens spell one right-hand side at most. -/
theorem Spells.whole_unique {e' : Expression} {rest' : List Token}
    (h : Spells (.whole e) tokens rest) (h' : Spells (.whole e') tokens rest') :
    e = e' ∧ rest = rest' := by
  have hread := (spells_whole_iff.mp h).symm.trans (spells_whole_iff.mp h')
  obtain ⟨rfl, hstream⟩ := EStateM.Result.ok.inj hread
  exact ⟨rfl, congrArg TokenStream.tokens hstream⟩

/-- An empty right-hand side where nothing can be read: at the end, at the end of a line, and in
front of a closing bracket. -/
theorem spells_nothing (hstop : turn tokens = .stop) (hslash : headKind? tokens ≠ some .slash)
    (hpast : past Token.Kind.inlineTrivia tokens = tokens) :
    Spells (.whole (concatenation [])) tokens tokens := by
  have hbranch : Spells (.operands []) tokens (past Token.Kind.inlineTrivia tokens) :=
    .stop (by rwa [hpast])
  have hnext : Spells (.alternatives []) tokens (past Token.Kind.inlineTrivia tokens) :=
    .last (by rwa [hpast])
  rw [hpast] at hbranch hnext
  exact .whole hbranch hnext

theorem Spells.whole_length_lt {token : Token} {r : List Token}
    (h : Spells (.whole e) (token :: r) rest) (htrivia : token.kind ∉ Token.Kind.trivia)
    (hparen : token.kind ≠ .rightParen) (hbracket : token.kind ≠ .rightBracket) :
    rest.length < (token :: r).length := by
  have hline : token.kind ≠ .lineBreak :=
    fun heq => htrivia (Token.mem_trivia_iff_inline_or.mpr (.inr heq))
  have hinline : token.kind ∉ Token.Kind.inlineTrivia :=
    fun hmem => htrivia (Token.mem_trivia_iff_inline_or.mpr (.inl hmem))
  have hpast : past Token.Kind.inlineTrivia (token :: r) = token :: r := by
    rw [past_cons, if_neg hinline]
  cases h with
  | whole branch next =>
    have hnext := next.length_le
    cases branch with
    | stop stops =>
      rw [hpast] at stops hnext next
      have hslash : token.kind = .slash := by
        by_contra hslash
        have hcloses : closes token.kind = false := by
          cases hkind : token.kind with
          | slash => exact absurd hkind hslash
          | rightParen => exact absurd hkind hparen
          | rightBracket => exact absurd hkind hbracket
          | _ => rfl
        rw [turn_eq_operand hcloses hline] at stops
        cases stops
      cases next with
      | last ends =>
        rw [hpast] at ends
        exact absurd (congrArg some hslash) ends
      | slash first kind branch next =>
        rw [hpast] at first
        obtain ⟨rfl, rfl⟩ := List.cons_eq_cons.mp first
        have h1 := next.length_le
        have h2 := branch.length_le
        have h3 := length_past_le Token.Kind.inlineTrivia r
        rw [List.length_cons]
        omega
    | fold first kind =>
      rw [hpast] at first
      exact absurd ((List.cons_eq_cons.mp first).1 ▸ kind) hline
    | another goes first next' =>
      have h1 := first.operand_length_lt
      have h2 := next'.length_le
      rw [hpast] at h1
      omega

end Expression

end AugmentedBnf
