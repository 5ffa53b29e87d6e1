import Mathlib.Tactic.ByContra
import AugmentedBnf.Expression.Parser

/-! # What tokens spell

A right-hand side is read by functions that count their steps. Here is what they read, without the
counting: the tokens in front of a reader spell a phrase and leave a rest. There is one rule for each
way in which a level of reading can go on, and the rules look at the next tokens exactly as far as
the readers do, so tokens spell one phrase at most.
-/
namespace AugmentedBnf

namespace Token

/-- The tokens behind those of some kinds at the front. -/
def past (kinds : List Kind) (tokens : List Token) : List Token :=
  tokens.dropWhile fun token => kinds.contains token.kind

def headKind? (tokens : List Token) : Option Kind := tokens.head?.map (·.kind)

/-- The number that a token spells. -/
def number? (token : Token) : Option Nat :=
  if token.kind = .number then Text.unsigned? 10 Text.limit64 token.text else none

@[simp] theorem past_nil (kinds : List Kind) : past kinds [] = [] := rfl

theorem past_cons (kinds : List Kind) (token : Token) (rest : List Token) :
    past kinds (token :: rest) =
      if token.kind ∈ kinds then past kinds rest else token :: rest := by
  simp only [past, List.dropWhile_cons, List.contains_iff_mem]

theorem past_suffix (kinds : List Kind) (tokens : List Token) : past kinds tokens <:+ tokens :=
  List.dropWhile_suffix _

theorem length_past_le (kinds : List Kind) (tokens : List Token) :
    (past kinds tokens).length ≤ tokens.length := (past_suffix kinds tokens).length_le

theorem suffix_of_past {kinds : List Kind} {tokens rest : List Token} {token : Token}
    (h : past kinds tokens = token :: rest) :
    rest <:+ tokens ∧ rest.length < tokens.length := by
  have hpast := past_suffix kinds tokens
  rw [h] at hpast
  have hlength := hpast.length_le
  rw [List.length_cons] at hlength
  exact ⟨(List.suffix_cons token rest).trans hpast, by omega⟩

theorem not_mem_of_past {kinds : List Kind} {tokens rest : List Token} {token : Token}
    (h : past kinds tokens = token :: rest) : token.kind ∉ kinds := by
  have hhead := List.head?_dropWhile_not (fun t : Token => kinds.contains t.kind) tokens
  rw [show tokens.dropWhile _ = token :: rest from h] at hhead
  simpa using hhead

theorem exists_of_headKind? {kind : Kind} {tokens : List Token}
    (h : headKind? tokens = some kind) : ∃ token rest, tokens = token :: rest ∧ token.kind = kind := by
  cases tokens with
  | nil => cases h
  | cons token rest => exact ⟨token, rest, rfl, Option.some.inj h⟩

theorem past_past (kinds : List Kind) (tokens : List Token) :
    past kinds (past kinds tokens) = past kinds tokens := by
  cases h : past kinds tokens with
  | nil => rfl
  | cons token rest => rw [past_cons, if_neg (not_mem_of_past h)]

theorem past_of_headKind? {kinds : List Kind} {tokens : List Token}
    (h : ∀ kind ∈ kinds, headKind? tokens ≠ some kind) : past kinds tokens = tokens := by
  cases tokens with
  | nil => rfl
  | cons token rest =>
    have hkind : token.kind ∉ kinds := fun hmem => h token.kind hmem rfl
    rw [past_cons, if_neg hkind]

/-- The rest lies behind some tokens, none of which is an equal sign. -/
inductive Passes : List Token → List Token → Prop where
  | refl {rest : List Token} : Passes rest rest
  | cons {token : Token} {tokens rest : List Token} (kind : token.kind ≠ .equal)
      (next : Passes tokens rest) : Passes (token :: tokens) rest

namespace Passes

variable {tokens rest rest' : List Token}

theorem trans (h : Passes tokens rest) (h' : Passes rest rest') : Passes tokens rest' := by
  induction h with
  | refl => exact h'
  | cons kind _ ih => exact .cons kind (ih h')

theorem suffix (h : Passes tokens rest) : rest <:+ tokens := by
  induction h with
  | refl => exact List.suffix_rfl
  | cons _ _ ih => exact ih.trans (List.suffix_cons _ _)

theorem exists_append (h : Passes tokens rest) :
    ∃ taken, tokens = taken ++ rest ∧ ∀ token ∈ taken, token.kind ≠ .equal := by
  induction h with
  | refl => exact ⟨[], rfl, List.forall_mem_nil _⟩
  | @cons token _ _ kind _ ih =>
    obtain ⟨taken, rfl, htaken⟩ := ih
    exact ⟨token :: taken, rfl, List.forall_mem_cons.mpr ⟨kind, htaken⟩⟩

theorem past {kinds : List Kind} (hkinds : .equal ∉ kinds) (tokens : List Token) :
    Passes tokens (past kinds tokens) := by
  induction tokens with
  | nil => exact .refl
  | cons token tokens ih =>
    rw [past_cons]
    split
    · rename_i hmem
      exact .cons (fun heq => hkinds (heq ▸ hmem)) ih
    · exact .refl

theorem of_past {kinds : List Kind} {token : Token} (hkinds : .equal ∉ kinds)
    (h : Token.past kinds tokens = token :: rest) (hkind : token.kind ≠ .equal) :
    Passes tokens rest := by
  have hpast := past hkinds tokens
  rw [h] at hpast
  exact hpast.trans (.cons hkind .refl)

end Passes

theorem exists_of_number? {token : Token} {n : Nat} (h : token.number? = some n) :
    token.kind = .number ∧ Text.unsigned? 10 Text.limit64 token.text = some n := by
  unfold number? at h
  split at h
  · exact ⟨by assumption, h⟩
  · cases h

end Token

namespace Expression

open Token

/-- The count in front of an element and the tokens behind it. -/
inductive Counts : Bounds → List Token → List Token → Prop where
  | between {first star second : Token} {min max : Nat} {r r' rest : List Token}
      (least : first.number? = some min) (mark : past [.whitespace] r = star :: r')
      (kind : star.kind = .star) (next : past [.whitespace] r' = second :: rest)
      (greatest : second.number? = some max) :
      Counts ⟨min, some max⟩ (first :: r) rest
  | atLeast {first star : Token} {min : Nat} {r r' : List Token}
      (least : first.number? = some min) (mark : past [.whitespace] r = star :: r')
      (kind : star.kind = .star) (next : headKind? (past [.whitespace] r') ≠ some .number) :
      Counts ⟨min, none⟩ (first :: r) (past [.whitespace] r')
  | exactly {first : Token} {min : Nat} {r : List Token} (least : first.number? = some min)
      (next : headKind? (past [.whitespace] r) ≠ some .star) :
      Counts ⟨min, some min⟩ (first :: r) (past [.whitespace] r)
  | atMost {star second : Token} {max : Nat} {r rest : List Token} (kind : star.kind = .star)
      (next : past [.whitespace] r = second :: rest) (greatest : second.number? = some max) :
      Counts ⟨0, some max⟩ (star :: r) rest
  | anyNumber {star : Token} {r : List Token} (kind : star.kind = .star)
      (next : headKind? (past [.whitespace] r) ≠ some .number) :
      Counts ⟨0, none⟩ (star :: r) (past [.whitespace] r)
  | single {tokens : List Token} (number : headKind? tokens ≠ some .number)
      (star : headKind? tokens ≠ some .star) : Counts .once tokens tokens

/-- What the next two tokens mean inside a sequence. -/
def turn (tokens : List Token) : Turn :=
  .detect ((TokenStream.aheadIn [] 2 tokens).map (·.kind))

/-- The parts of a right-hand side, each with what reading it returns. -/
inductive Phrase where
  | element (e : Expression)
  | operand (e : Expression)
  | operands (es : List Expression)
  | alternatives (es : List Expression)
  | whole (e : Expression)

/-- The front of the tokens spells the phrase, and the rest is left. -/
inductive Spells : Phrase → List Token → List Token → Prop where
  | literal {tokens rest : List Token} {token : Token} {value : Literal}
      (first : past Kind.inlineTrivia tokens = token :: rest)
      (lexeme : Literal.ofLexeme? token.kind token.text = some (.ok value)) :
      Spells (.element (.literal value)) tokens rest
  | reference {tokens rest : List Token} {token : Token}
      (first : past Kind.inlineTrivia tokens = token :: rest) (kind : token.kind = .ident) :
      Spells (.element (.reference token.text.upper)) tokens rest
  | prose {tokens rest : List Token} {token : Token}
      (first : past Kind.inlineTrivia tokens = token :: rest) (kind : token.kind = .prose) :
      Spells (.element (.prose (token.text.inside 1 1))) tokens rest
  | group {tokens r r' rest : List Token} {left right : Token} {e : Expression}
      (first : past Kind.inlineTrivia tokens = left :: r) (kind : left.kind = .leftParen)
      (inner : Spells (.whole e) r r') (last : past Kind.trivia r' = right :: rest)
      (kind' : right.kind = .rightParen) : Spells (.element (.group e)) tokens rest
  | option {tokens r r' rest : List Token} {left right : Token} {e : Expression}
      (first : past Kind.inlineTrivia tokens = left :: r) (kind : left.kind = .leftBracket)
      (inner : Spells (.whole e) r r') (last : past Kind.trivia r' = right :: rest)
      (kind' : right.kind = .rightBracket) : Spells (.element (.option e)) tokens rest
  | operand {tokens r rest : List Token} {bounds : Bounds} {e : Expression}
      (count : Counts bounds (past [.whitespace] tokens) r) (inner : Spells (.element e) r rest) :
      Spells (.operand (repetition bounds e).simplify) tokens rest
  | stop {tokens : List Token} (stops : turn (past Kind.inlineTrivia tokens) = .stop) :
      Spells (.operands []) tokens (past Kind.inlineTrivia tokens)
  | fold {tokens r rest : List Token} {line indent : Token} {es : List Expression}
      (first : past Kind.inlineTrivia tokens = line :: indent :: r)
      (kind : line.kind = .lineBreak) (kind' : indent.kind = .whitespace)
      (next : Spells (.operands es) r rest) : Spells (.operands es) tokens rest
  | another {tokens r rest : List Token} {e : Expression} {es : List Expression}
      (goes : turn (past Kind.inlineTrivia tokens) = .operand)
      (first : Spells (.operand e) (past Kind.inlineTrivia tokens) r)
      (next : Spells (.operands es) r rest) : Spells (.operands (e :: es)) tokens rest
  | last {tokens : List Token}
      (ends : headKind? (past Kind.inlineTrivia tokens) ≠ some .slash) :
      Spells (.alternatives []) tokens (past Kind.inlineTrivia tokens)
  | slash {tokens r r' rest : List Token} {mark : Token} {es others : List Expression}
      (first : past Kind.inlineTrivia tokens = mark :: r) (kind : mark.kind = .slash)
      (branch : Spells (.operands es) (past Kind.inlineTrivia r) r')
      (next : Spells (.alternatives others) r' rest) :
      Spells (.alternatives ((concatenation es).simplify :: others)) tokens rest
  | whole {tokens r rest : List Token} {es others : List Expression}
      (branch : Spells (.operands es) tokens r) (next : Spells (.alternatives others) r rest) :
      Spells (.whole (alternation ((concatenation es).simplify :: others)).simplify) tokens rest

section Turns

variable {token : Token} {rest : List Token}

@[simp] theorem turn_nil : turn [] = .stop := rfl

theorem turn_cons : turn (token :: rest) = .detect (token.kind :: (rest.take 1).map (·.kind)) := by
  cases rest with
  | nil => rfl
  | cons next rest => simp [turn, TokenStream.aheadIn]

/-- A line is continued only by an indentation. -/
theorem turn_lineBreak (h : token.kind = .lineBreak) :
    turn (token :: rest) = if headKind? rest = some .whitespace then .fold else .stop := by
  rw [turn_cons, h]
  cases rest with
  | nil => rfl
  | cons next rest =>
    simp only [headKind?, List.take_succ_cons, List.take_zero, List.map_cons, List.map_nil,
      List.head?_cons, Option.map_some, Option.some.injEq]
    cases next.kind <;> rfl

/-- The kinds of tokens that end a sequence. -/
def closes : Token.Kind → Bool
  | .slash | .rightParen | .rightBracket => true
  | _ => false

theorem turn_eq_stop_of_closes (h : closes token.kind = true) : turn (token :: rest) = .stop := by
  rw [turn_cons]
  cases hkind : token.kind with
  | slash | rightParen | rightBracket => rfl
  | _ =>
    rw [hkind] at h
    cases h

theorem turn_eq_operand (h : closes token.kind = false) (hline : token.kind ≠ .lineBreak) :
    turn (token :: rest) = .operand := by
  rw [turn_cons]
  cases hkind : token.kind with
  | lineBreak => exact absurd hkind hline
  | slash | rightParen | rightBracket =>
    rw [hkind] at h
    cases h
  | _ => rfl

theorem turn_eq_fold_iff {tokens : List Token} : turn tokens = .fold ↔
    ∃ line indent rest, tokens = line :: indent :: rest ∧ line.kind = .lineBreak ∧
      indent.kind = .whitespace := by
  constructor
  · intro h
    cases tokens with
    | nil => cases h
    | cons line rest =>
      by_cases hline : line.kind = .lineBreak
      · rw [turn_lineBreak hline] at h
        cases rest with
        | nil => cases h
        | cons indent rest =>
          refine ⟨line, indent, rest, rfl, hline, ?_⟩
          by_contra hindent
          have hkind : headKind? (indent :: rest) ≠ some .whitespace :=
            fun heq => hindent (Option.some.inj heq)
          rw [if_neg hkind] at h
          cases h
      · cases hcloses : closes line.kind with
        | true =>
          rw [turn_eq_stop_of_closes hcloses] at h
          cases h
        | false =>
          rw [turn_eq_operand hcloses hline] at h
          cases h
  · rintro ⟨line, indent, rest, rfl, hline, hindent⟩
    have hkind : headKind? (indent :: rest) = some .whitespace := congrArg some hindent
    rw [turn_lineBreak hline, if_pos hkind]

end Turns

theorem Counts.passes {bounds : Bounds} {tokens rest : List Token}
    (h : Counts bounds tokens rest) : Passes tokens rest := by
  have hblank : Token.Kind.equal ∉ [Token.Kind.whitespace] := by decide
  have hnumber : ∀ {token : Token} {n : Nat}, token.number? = some n → token.kind ≠ .equal := by
    intro token n hn
    rw [(Token.exists_of_number? hn).1]
    decide
  have hstar : ∀ {token : Token}, token.kind = .star → token.kind ≠ .equal := by
    intro token hkind
    rw [hkind]
    decide
  cases h with
  | between least mark kind next greatest =>
    refine .cons (hnumber least) (Passes.trans (.of_past hblank mark (hstar kind)) ?_)
    exact .of_past hblank next (hnumber greatest)
  | atLeast least mark kind next =>
    exact .cons (hnumber least) (Passes.trans (.of_past hblank mark (hstar kind)) (.past hblank _))
  | exactly least next => exact .cons (hnumber least) (.past hblank _)
  | atMost kind next greatest =>
    exact .cons (hstar kind) (.of_past hblank next (hnumber greatest))
  | anyNumber kind next => exact .cons (hstar kind) (.past hblank _)
  | single number star => exact .refl

theorem Counts.suffix {bounds : Bounds} {tokens rest : List Token} (h : Counts bounds tokens rest) :
    rest <:+ tokens := h.passes.suffix

namespace Spells

/-- A right-hand side never holds an equal sign. -/
theorem passes {p : Phrase} {tokens rest : List Token} (h : Spells p tokens rest) :
    Passes tokens rest := by
  have hinline : Token.Kind.equal ∉ Token.Kind.inlineTrivia := by decide
  have htrivia : Token.Kind.equal ∉ Token.Kind.trivia := by decide
  have hblank : Token.Kind.equal ∉ [Token.Kind.whitespace] := by decide
  have hne : ∀ {token : Token} {kind : Token.Kind}, token.kind = kind → kind ≠ .equal →
      token.kind ≠ .equal := by
    intro token kind hkind hother
    rw [hkind]
    exact hother
  induction h with
  | literal first lexeme =>
    refine .of_past hinline first ?_
    intro heq
    rw [heq] at lexeme
    cases lexeme
  | reference first kind => exact .of_past hinline first (hne kind (by decide))
  | prose first kind => exact .of_past hinline first (hne kind (by decide))
  | group first kind _ last kind' ih =>
    refine Passes.trans (.of_past hinline first (hne kind (by decide))) (ih.trans ?_)
    exact .of_past htrivia last (hne kind' (by decide))
  | option first kind _ last kind' ih =>
    refine Passes.trans (.of_past hinline first (hne kind (by decide))) (ih.trans ?_)
    exact .of_past htrivia last (hne kind' (by decide))
  | operand count _ ih => exact Passes.trans (.past hblank _) (count.passes.trans ih)
  | stop => exact .past hinline _
  | fold first kind kind' _ ih =>
    refine Passes.trans (.of_past hinline first (hne kind (by decide))) ?_
    exact .cons (hne kind' (by decide)) ih
  | another _ _ _ ihfirst ihnext => exact Passes.trans (.past hinline _) (ihfirst.trans ihnext)
  | last => exact .past hinline _
  | slash first kind _ _ ihbranch ihnext =>
    refine Passes.trans (.of_past hinline first (hne kind (by decide))) ?_
    exact Passes.trans (.past hinline _) (ihbranch.trans ihnext)
  | whole _ _ ihbranch ihnext => exact ihbranch.trans ihnext

theorem suffix {p : Phrase} {tokens rest : List Token} (h : Spells p tokens rest) :
    rest <:+ tokens := h.passes.suffix

theorem length_le {p : Phrase} {tokens rest : List Token} (h : Spells p tokens rest) :
    rest.length ≤ tokens.length := h.suffix.length_le

theorem element_length_lt {e : Expression} {tokens rest : List Token}
    (h : Spells (.element e) tokens rest) : rest.length < tokens.length := by
  cases h with
  | literal first => exact (Token.suffix_of_past first).2
  | reference first => exact (Token.suffix_of_past first).2
  | prose first => exact (Token.suffix_of_past first).2
  | group first _ inner last =>
    have h1 := (Token.suffix_of_past first).2
    have h2 := (Token.suffix_of_past last).2
    have h3 := inner.length_le
    omega
  | option first _ inner last =>
    have h1 := (Token.suffix_of_past first).2
    have h2 := (Token.suffix_of_past last).2
    have h3 := inner.length_le
    omega

theorem operand_length_lt {e : Expression} {tokens rest : List Token}
    (h : Spells (.operand e) tokens rest) : rest.length < tokens.length := by
  cases h with
  | operand count inner =>
    have h1 := inner.element_length_lt
    have h2 := count.suffix.length_le
    have h3 := length_past_le [.whitespace] tokens
    omega

end Spells

end Expression

end AugmentedBnf
