import Mathlib.Algebra.Ring.Int.Defs
import Mathlib.Data.List.Forall2
import AugmentedBnf.Proofs.Expression.Normal
import AugmentedBnf.Proofs.Expression.Reading

/-! # What becomes of the tokens

Reading a right-hand side takes a run of tokens and leaves the rest. Every token that is taken is
accounted for: the terminal values, names and descriptions are the leaves of the expression in their
order, each pair of brackets is a group or an option around what stands between them, and a choice
has one slash less than it has operands. Blanks, comments, line breaks and counts show nowhere else,
and no equal sign is taken.
-/
namespace AugmentedBnf

namespace Token

namespace Kind

/-- The kinds of tokens that are elements on their own. -/
def isLeaf : Kind → Bool
  | ident | prose => true
  | kind => kind.isLiteral

/-- The kind of the bracket that closes an opening bracket. -/
def closer? : Kind → Option Kind
  | leftParen => some rightParen
  | leftBracket => some rightBracket
  | _ => none

/-- The kinds of opening brackets. -/
def opens (kind : Kind) : Bool := kind.closer?.isSome

/-- The kinds of closing brackets. -/
def closes : Kind → Bool
  | rightParen | rightBracket => true
  | _ => false

/-- The kinds of tokens that an element can start with. -/
def starts (kind : Kind) : Bool := kind.isLeaf || kind.opens

/-- The kinds of tokens that an expression shows one by one. -/
def isShown (kind : Kind) : Bool := kind.starts || kind.closes

/-- Trivia and the marks of a count. -/
def isSilent : Kind → Bool
  | number | star => true
  | kind => kind.isTrivia

end Kind

/-- Parentheses and brackets come in pairs of one kind, and what stands between the two of a pair is
nested as well. -/
inductive Nested : List Token → Prop where
  | nil : Nested []
  | cons {token : Token} {tokens : List Token} (opens : token.kind.opens = false)
      (closes : token.kind.closes = false) (rest : Nested tokens) : Nested (token :: tokens)
  | enclosed {left right : Token} {inside tokens : List Token}
      (pair : left.kind.closer? = some right.kind) (inner : Nested inside)
      (rest : Nested tokens) : Nested (left :: inside ++ right :: tokens)

/-- The element that starts with the token: what a token is read as, or the group or option that it
opens. -/
inductive Starts (token : Token) : Expression → Prop where
  | literal {value : Literal}
      (lexeme : Literal.ofLexeme? token.kind token.text = some (.ok value)) :
      Starts token (.literal value)
  | reference (kind : token.kind = .ident) : Starts token (.reference token.text.upper)
  | prose (kind : token.kind = .prose) : Starts token (.prose (token.text.inside 1 1))
  | group {inner : Expression} (kind : token.kind = .leftParen) : Starts token (.group inner)
  | option {inner : Expression} (kind : token.kind = .leftBracket) : Starts token (.option inner)

/-- The group or option that the token closes. -/
inductive Ends (token : Token) : Expression → Prop where
  | group {inner : Expression} (kind : token.kind = .rightParen) : Ends token (.group inner)
  | option {inner : Expression} (kind : token.kind = .rightBracket) : Ends token (.option inner)

end Token

namespace Expression

/-- A step of a walk through an expression. -/
inductive Step where
  | enter (e : Expression)
  | leave (e : Expression)

mutual
/-- The walk through an expression from left to right. -/
def walk : Expression → List Step
  | alternation operands =>
    .enter (alternation operands) :: walkAll operands ++ [.leave (alternation operands)]
  | concatenation operands =>
    .enter (concatenation operands) :: walkAll operands ++ [.leave (concatenation operands)]
  | repetition bounds operand =>
    .enter (repetition bounds operand) :: walk operand ++ [.leave (repetition bounds operand)]
  | group inner => .enter (group inner) :: walk inner ++ [.leave (group inner)]
  | option inner => .enter (option inner) :: walk inner ++ [.leave (option inner)]
  | literal value => [.enter (literal value), .leave (literal value)]
  | reference name => [.enter (reference name), .leave (reference name)]
  | prose text => [.enter (prose text), .leave (prose text)]

/-- The walks through some expressions one after the other. -/
def walkAll : List Expression → List Step
  | [] => []
  | operand :: rest => walk operand ++ walkAll rest
end

/-- Terminal values, references and descriptions. -/
def isLeaf : Expression → Bool
  | literal _ | reference _ | prose _ => true
  | _ => false

/-- Groups and options. -/
def isBracketed : Expression → Bool
  | group _ | option _ => true
  | _ => false

/-- The slashes between the operands of a choice. -/
def slashes : Expression → Int
  | alternation operands => operands.length - 1
  | _ => 0

/-- The steps that a token stands for. -/
def Step.isShown : Step → Bool
  | enter e => e.isElement
  | leave e => e.isBracketed

/-- The expressions that are entered, in order. -/
def entered : List Step → List Expression
  | [] => []
  | .enter e :: steps => e :: entered steps
  | .leave _ :: steps => entered steps

/-- The expression and all its sub-expressions, each before those inside it. -/
def preorder (e : Expression) : List Expression := entered e.walk

/-- The slashes of all choices that are entered. -/
def slashSum (steps : List Step) : Int := ((entered steps).map slashes).sum

end Expression

/-- The token stands for the step. -/
def Token.StandsFor (token : Token) : Expression.Step → Prop
  | .enter e => token.Starts e
  | .leave e => token.Ends e

theorem Expression.isElement_eq (e : Expression) : e.isElement = (e.isLeaf || e.isBracketed) := by
  cases e <;> rfl

namespace Token

variable {token : Token} {e : Expression}

theorem Kind.leaf_of_isLiteral {kind : Kind} (h : kind.isLiteral = true) :
    kind.isLeaf = true ∧ kind.opens = false := by
  revert h
  cases kind <;> decide

theorem Kind.ne_slash {kind : Kind} (h : kind.isShown = true) : kind ≠ .slash := by
  rintro rfl
  cases h

theorem Kind.isShown_of_starts {kind : Kind} (h : kind.starts = true) : kind.isShown = true := by
  rw [isShown, h, Bool.true_or]

theorem Kind.closes_of_starts {kind : Kind} (h : kind.starts = true) : kind.closes = false := by
  revert h
  cases kind <;> decide

theorem Nested.append {ts us : List Token} (h : Nested ts) (h' : Nested us) :
    Nested (ts ++ us) := by
  induction h with
  | nil => exact h'
  | cons opens closes _ ih => exact .cons opens closes ih
  | enclosed pair inner _ _ ih =>
    rw [List.append_assoc]
    exact .enclosed pair inner ih

theorem Starts.isLeaf_eq (h : token.Starts e) : token.kind.isLeaf = e.isLeaf := by
  cases h with
  | literal lexeme => exact (Kind.leaf_of_isLiteral (Expression.isLiteral_of_ofLexeme? lexeme)).1
  | reference kind | prose kind | group kind | option kind => rw [kind]; rfl

theorem Starts.opens_eq (h : token.Starts e) : token.kind.opens = e.isBracketed := by
  cases h with
  | literal lexeme => exact (Kind.leaf_of_isLiteral (Expression.isLiteral_of_ofLexeme? lexeme)).2
  | reference kind | prose kind | group kind | option kind => rw [kind]; rfl

theorem Starts.isElement (h : token.Starts e) : e.isElement = true := by cases h <;> rfl

theorem Ends.isBracketed (h : token.Ends e) : e.isBracketed = true := by cases h <;> rfl

theorem Starts.starts (h : token.Starts e) : token.kind.starts = true := by
  rw [Kind.starts, h.isLeaf_eq, h.opens_eq, ← Expression.isElement_eq, h.isElement]

theorem Starts.isShown (h : token.Starts e) : token.kind.isShown = true :=
  Kind.isShown_of_starts h.starts

theorem Ends.closes (h : token.Ends e) : token.kind.closes = true := by
  cases h with
  | group kind | option kind => rw [kind]; rfl

theorem Ends.isShown (h : token.Ends e) : token.kind.isShown = true := by
  rw [Kind.isShown, h.closes, Bool.or_true]

/-- A bracket that starts an element is closed by one that ends it. -/
theorem Starts.closer?_eq {right : Token} (h : token.Starts e) (h' : right.Ends e) :
    token.kind.closer? = some right.kind := by
  cases h' with
  | group kind' =>
    cases h with
    | group kind => rw [kind, kind']; rfl
  | option kind' =>
    cases h with
    | option kind => rw [kind, kind']; rfl

end Token

namespace Expression

/-- The tokens are nested and stand for the steps, and beyond the slashes of the choices that are
entered there are some more. -/
structure Accounts (taken : List Token) (steps : List Step) (more : Int) : Prop where
  nested : Token.Nested taken
  shown : List.Forall₂ Token.StandsFor (taken.filter (·.kind.isShown)) (steps.filter Step.isShown)
  slashes : (taken.countP (·.kind = .slash) : Int) = slashSum steps + more

/-- The rest is left by tokens that stand for the steps. -/
def Takes (tokens rest : List Token) (steps : List Step) (more : Int) : Prop :=
  ∃ taken, tokens = taken ++ rest ∧ Accounts taken steps more

variable {tokens rest : List Token} {token : Token} {e : Expression} {steps : List Step}
  {more : Int}

section Walks

theorem entered_append (steps others : List Step) :
    entered (steps ++ others) = entered steps ++ entered others := by
  fun_induction entered steps with
  | case1 => rfl
  | case2 e steps ih => rw [List.cons_append, entered, ih, List.cons_append]
  | case3 e steps ih => rw [List.cons_append, entered, ih]

@[simp] theorem slashSum_nil : slashSum [] = 0 := rfl

@[simp] theorem slashSum_append (steps others : List Step) :
    slashSum (steps ++ others) = slashSum steps + slashSum others := by
  rw [slashSum, entered_append, List.map_append, List.sum_append, slashSum, slashSum]

@[simp] theorem slashSum_enter (e : Expression) (steps : List Step) :
    slashSum (.enter e :: steps) = e.slashes + slashSum steps := by
  rw [slashSum, entered, List.map_cons, List.sum_cons, slashSum]

@[simp] theorem slashSum_leave (e : Expression) (steps : List Step) :
    slashSum (.leave e :: steps) = slashSum steps := rfl

theorem walk_eq (e : Expression) : e.walk = .enter e :: walkAll e.children ++ [.leave e] := by
  cases e <;> simp [walk, walkAll, children]

theorem walkAll_singleton (e : Expression) : walkAll [e] = e.walk := by
  rw [walkAll, walkAll, List.append_nil]

theorem slashSum_walk (e : Expression) :
    slashSum e.walk = e.slashes + slashSum (walkAll e.children) := by
  simp [walk_eq]

theorem not_isBracketed (h : e.isElement = false) : e.isBracketed = false := by
  cases e with
  | group | option => cases h
  | _ => rfl

/-- Choices, sequences and counts are not shown. -/
theorem filter_walk (h : e.isElement = false) :
    e.walk.filter Step.isShown = (walkAll e.children).filter Step.isShown := by
  simp [walk_eq, Step.isShown, h, not_isBracketed h]

/-- A wrapper is not shown and calls for no slash. -/
theorem Wraps.same_walk {counted : Bool} {x : Expression} (h : Wraps counted e x) :
    x.walk.filter Step.isShown = e.walk.filter Step.isShown ∧
      slashSum x.walk = slashSum e.walk := by
  have honly : e.isElement = false ∧ e.children = [x] ∧ e.slashes = 0 := by
    cases h <;> exact ⟨rfl, rfl, rfl⟩
  obtain ⟨helement, hchildren, hslashes⟩ := honly
  rw [filter_walk helement, slashSum_walk e, hchildren, hslashes, walkAll_singleton, Int.zero_add]
  exact ⟨rfl, rfl⟩

theorem walk_simplify (e : Expression) :
    e.simplify.walk.filter Step.isShown = e.walk.filter Step.isShown ∧
      slashSum e.simplify.walk = slashSum e.walk := by
  obtain ⟨counted, h⟩ := exists_collapses_simplify e
  generalize e.simplify = core at h ⊢
  induction h with
  | bare => exact ⟨rfl, rfl⟩
  | wrapped wrapper _ ih => exact ⟨ih.1.trans wrapper.same_walk.1, ih.2.trans wrapper.same_walk.2⟩

end Walks

section Taking

theorem Takes.refl (rest : List Token) : Takes rest rest [] 0 :=
  ⟨[], rfl, .nil, .nil, rfl⟩

theorem Takes.trans {r : List Token} {steps' : List Step} {more' : Int}
    (h : Takes tokens r steps more) (h' : Takes r rest steps' more') :
    Takes tokens rest (steps ++ steps') (more + more') := by
  obtain ⟨taken, rfl, hnested, hshown, hslashes⟩ := h
  obtain ⟨taken', rfl, hnested', hshown', hslashes'⟩ := h'
  refine ⟨taken ++ taken', (List.append_assoc ..).symm, hnested.append hnested', ?_, ?_⟩
  · rw [List.filter_append, List.filter_append]
    exact List.rel_append hshown hshown'
  · rw [List.countP_append, slashSum_append]
    push_cast
    omega

/-- What counts of the steps is which of them are shown and the slashes that they call for. -/
theorem Takes.congr {steps' : List Step} {more' : Int} (h : Takes tokens rest steps more)
    (hshown : steps'.filter Step.isShown = steps.filter Step.isShown)
    (hslashes : slashSum steps' + more' = slashSum steps + more) :
    Takes tokens rest steps' more' := by
  obtain ⟨taken, htokens, haccounts⟩ := h
  refine ⟨taken, htokens, haccounts.nested, ?_, ?_⟩
  · rw [hshown]
    exact haccounts.shown
  · rw [hslashes]
    exact haccounts.slashes

theorem Takes.unshown (h : token.kind.isShown = false) (rest : List Token) :
    Takes (token :: rest) rest [] (if token.kind = .slash then 1 else 0) := by
  obtain ⟨hstarts, hcloses⟩ := Bool.or_eq_false_iff.mp h
  have hopens := (Bool.or_eq_false_iff.mp hstarts).2
  refine ⟨[token], rfl, .cons hopens hcloses .nil, ?_, ?_⟩
  · simp [h]
  · split <;> simp [*]

theorem Takes.silent (h : token.kind.isSilent = true) (rest : List Token) :
    Takes (token :: rest) rest [] 0 := by
  have hkinds : token.kind.isShown = false ∧ token.kind ≠ .slash := by
    revert h
    cases token.kind <;> decide
  have htaken := Takes.unshown hkinds.1 rest
  rwa [if_neg hkinds.2] at htaken

theorem Takes.slash (h : token.kind = .slash) (rest : List Token) :
    Takes (token :: rest) rest [] 1 := by
  have hshown : token.kind.isShown = false := by rw [h]; rfl
  have htaken := Takes.unshown hshown rest
  rwa [if_pos h] at htaken

theorem Takes.leaf (h : token.Starts e) (hleaf : e.isLeaf = true) (rest : List Token) :
    Takes (token :: rest) rest e.walk 0 := by
  have hplain : e.isBracketed = false ∧ e.slashes = 0 ∧ e.children = [] := by
    cases e with
    | literal | reference | prose => exact ⟨rfl, rfl, rfl⟩
    | _ => cases hleaf
  obtain ⟨hbracketed, hslashes, hchildren⟩ := hplain
  have hopens := h.opens_eq.trans hbracketed
  have hcloses := Token.Kind.closes_of_starts h.starts
  refine ⟨[token], rfl, .cons hopens hcloses .nil, ?_, ?_⟩
  · have htokens : [token].filter (·.kind.isShown) = [token] := by simp [h.isShown]
    have hsteps : e.walk.filter Step.isShown = [.enter e] := by
      simp [walk_eq, hchildren, walkAll, Step.isShown, h.isElement, hbracketed]
    have hentered : token.StandsFor (.enter e) := h
    rw [htokens, hsteps]
    exact .cons hentered .nil
  · rw [slashSum_walk, hslashes, hchildren]
    simp [walkAll, Token.Kind.ne_slash h.isShown]

/-- The two tokens of a group or an option are around the tokens of what is inside. -/
theorem Takes.enclosed {left right : Token} {r : List Token} (h : left.Starts e)
    (h' : right.Ends e) (inner : Takes tokens r (walkAll e.children) 0)
    (last : Takes r (right :: rest) [] 0) : Takes (left :: tokens) rest e.walk 0 := by
  have hinside := inner.trans last
  rw [List.append_nil] at hinside
  obtain ⟨taken, rfl, hnested, hshown, hslashes⟩ := hinside
  have hnone : e.slashes = 0 := by cases h' <;> rfl
  refine ⟨left :: taken ++ [right], ?_, .enclosed (h.closer?_eq h') hnested .nil, ?_, ?_⟩
  · simp
  · have htokens : (left :: taken ++ [right]).filter (·.kind.isShown) =
        left :: taken.filter (·.kind.isShown) ++ [right] := by
      simp [h.isShown, h'.isShown]
    have hsteps : e.walk.filter Step.isShown =
        .enter e :: (walkAll e.children).filter Step.isShown ++ [.leave e] := by
      simp [walk_eq, Step.isShown, h.isElement, h'.isBracketed]
    have hleft : left.StandsFor (.enter e) := h
    have hright : right.StandsFor (.leave e) := h'
    rw [htokens, hsteps]
    exact List.rel_append (.cons hleft hshown) (.cons hright .nil)
  · rw [slashSum_walk, hnone]
    simpa [Token.Kind.ne_slash h.isShown, Token.Kind.ne_slash h'.isShown] using hslashes

/-- A choice, a sequence or a count takes what its operands take and, if it is a choice, the slashes
between them. -/
theorem Takes.around (helement : e.isElement = false)
    (h : Takes tokens rest (walkAll e.children) e.slashes) : Takes tokens rest e.walk 0 :=
  h.congr (filter_walk helement) (by rw [slashSum_walk, Int.add_zero, Int.add_comm])

theorem Takes.simplify (h : Takes tokens rest e.walk more) :
    Takes tokens rest e.simplify.walk more :=
  h.congr (walk_simplify e).1 (by rw [(walk_simplify e).2])

theorem Takes.past {kinds : List Token.Kind} (hkinds : ∀ kind ∈ kinds, kind.isSilent = true)
    (tokens : List Token) : Takes tokens (Token.past kinds tokens) [] 0 := by
  induction tokens with
  | nil => exact .refl []
  | cons token tokens ih =>
    rw [Token.past_cons]
    split
    · rename_i hmem
      exact (Takes.silent (hkinds _ hmem) tokens).trans ih
    · exact .refl _

/-- Tokens that stand for nothing make no difference in front. -/
theorem Takes.pass {r : List Token} (h : Takes tokens r [] 0) (h' : Takes r rest steps more) :
    Takes tokens rest steps more := by
  have htokens := h.trans h'
  rwa [List.nil_append, Int.zero_add] at htokens

theorem Takes.of_past {kinds : List Token.Kind} {r : List Token}
    (hkinds : ∀ kind ∈ kinds, kind.isSilent = true) (hpast : Token.past kinds tokens = r)
    (h : Takes r rest steps more) : Takes tokens rest steps more :=
  (Takes.past hkinds tokens).pass (hpast ▸ h)

end Taking

section Spelling

theorem silent_inlineTrivia : ∀ kind ∈ Token.Kind.inlineTrivia, kind.isSilent = true := by decide

theorem silent_trivia : ∀ kind ∈ Token.Kind.trivia, kind.isSilent = true := by decide

theorem silent_whitespace : ∀ kind ∈ [Token.Kind.whitespace], kind.isSilent = true := by decide

/-- A count leaves no trace but in the bounds. -/
theorem Counts.takes {bounds : Bounds} (h : Counts bounds tokens rest) :
    Takes tokens rest [] 0 := by
  have hnumber : ∀ {token : Token} {n : Nat} (r : List Token), token.number? = some n →
      Takes (token :: r) r [] 0 := by
    intro token n r hn
    exact .silent (by rw [(Token.exists_of_number? hn).1]; rfl) r
  have hstar : ∀ {token : Token} (r : List Token), token.kind = .star →
      Takes (token :: r) r [] 0 := by
    intro token r hkind
    exact .silent (by rw [hkind]; rfl) r
  have hblank : ∀ r, Takes r (Token.past [.whitespace] r) [] 0 := .past silent_whitespace
  cases h with
  | between least mark kind next greatest =>
    refine (hnumber _ least).pass (.of_past silent_whitespace mark ?_)
    exact (hstar _ kind).pass (.of_past silent_whitespace next (hnumber _ greatest))
  | atLeast least mark kind next =>
    exact (hnumber _ least).pass (.of_past silent_whitespace mark ((hstar _ kind).pass (hblank _)))
  | exactly least next => exact (hnumber _ least).pass (hblank _)
  | atMost kind next greatest =>
    exact (hstar _ kind).pass (.of_past silent_whitespace next (hnumber _ greatest))
  | anyNumber kind next => exact (hstar _ kind).pass (hblank _)
  | single number star => exact .refl _

/-- The walk through what a phrase returns. -/
def Phrase.walk : Phrase → List Step
  | .element e | .operand e | .whole e => e.walk
  | .operands es | .alternatives es => walkAll es

/-- The slashes of a phrase that belong to no choice inside it. -/
def Phrase.slashes : Phrase → Int
  | .alternatives es => es.length
  | _ => 0

theorem Spells.takes {p : Phrase} (h : Spells p tokens rest) :
    Takes tokens rest p.walk p.slashes := by
  have henclosed : ∀ {tokens r r' rest : List Token} {left right : Token} {e inner : Expression},
      left.Starts e → right.Ends e → e.children = [inner] →
      Token.past Token.Kind.inlineTrivia tokens = left :: r → Takes r r' inner.walk 0 →
      Token.past Token.Kind.trivia r' = right :: rest → Takes tokens rest e.walk 0 := by
    intro tokens r r' rest left right e inner hleft hright hchildren hfirst hinner hlast
    have hinside : Takes r r' (walkAll e.children) 0 := by
      rw [hchildren, walkAll_singleton]
      exact hinner
    have hclose : Takes r' (right :: rest) [] 0 := .of_past silent_trivia hlast (.refl _)
    exact .of_past silent_inlineTrivia hfirst (.enclosed hleft hright hinside hclose)
  have hsequence : ∀ {r r' : List Token} {es : List Expression}, Takes r r' (walkAll es) 0 →
      Takes r r' (concatenation es).simplify.walk 0 := by
    intro r r' es hes
    exact .simplify (.around rfl hes)
  induction h with
  | literal first lexeme =>
    exact .of_past silent_inlineTrivia first (.leaf (.literal lexeme) rfl _)
  | reference first kind =>
    exact .of_past silent_inlineTrivia first (.leaf (.reference kind) rfl _)
  | prose first kind => exact .of_past silent_inlineTrivia first (.leaf (.prose kind) rfl _)
  | group first kind _ last kind' ih =>
    exact henclosed (.group kind) (.group kind') rfl first ih last
  | option first kind _ last kind' ih =>
    exact henclosed (.option kind) (.option kind') rfl first ih last
  | @operand tokens r rest bounds e count _ ih =>
    have hcounted : Takes r rest (repetition bounds e).walk 0 :=
      .around rfl ((walkAll_singleton e).symm ▸ ih)
    exact .of_past silent_whitespace rfl (count.takes.pass hcounted.simplify)
  | stop => exact .past silent_inlineTrivia _
  | fold first kind kind' _ ih =>
    refine .of_past silent_inlineTrivia first ?_
    refine Takes.pass (.silent ?_ _) (Takes.pass (.silent ?_ _) ih)
    · rw [kind]; rfl
    · rw [kind']; rfl
  | another _ _ _ ihfirst ihnext =>
    exact .of_past silent_inlineTrivia rfl (ihfirst.trans ihnext)
  | last => exact .past silent_inlineTrivia _
  | slash first kind _ _ ihbranch ihnext =>
    -- the slash belongs to the choice around the alternatives and is carried along until then
    have hbranch := Takes.of_past silent_inlineTrivia rfl (hsequence ihbranch)
    have hall := (Takes.slash kind _).trans (hbranch.trans ihnext)
    refine .of_past silent_inlineTrivia first (hall.congr rfl ?_)
    simp only [Phrase.slashes, Phrase.walk, walkAll, List.nil_append, List.length_cons]
    omega
  | whole _ _ ihbranch ihnext =>
    have hall := (hsequence ihbranch).trans ihnext
    refine .simplify (.around rfl (hall.congr rfl ?_))
    simp only [Phrase.slashes, Phrase.walk, slashes, children, walkAll, List.length_cons]
    omega

end Spelling

section Selection

variable {p : Token.Kind → Bool} {q : Expression → Bool}

theorem filter_shown_tokens (hp : ∀ kind, p kind = true → kind.starts = true)
    (tokens : List Token) :
    (tokens.filter (·.kind.isShown)).filter (p ·.kind) = tokens.filter (p ·.kind) := by
  rw [List.filter_filter]
  refine List.filter_congr fun token _ => ?_
  cases hkind : p token.kind with
  | true => rw [Token.Kind.isShown_of_starts (hp _ hkind), Bool.and_true]
  | false => rw [Bool.false_and]

theorem filter_shown_steps (hq : ∀ e, q e = true → e.isElement = true) (steps : List Step) :
    (entered (steps.filter Step.isShown)).filter q = (entered steps).filter q := by
  fun_induction entered steps with
  | case1 => rfl
  | case2 e steps ih =>
    cases helement : e.isElement with
    | true =>
      rw [List.filter_cons_of_pos (by exact helement), entered, List.filter_cons, List.filter_cons,
        ih]
    | false =>
      have hnone : ¬ q e = true := by
        intro hq'
        rw [hq e hq'] at helement
        cases helement
      rw [List.filter_cons_of_neg (by simp [Step.isShown, helement]), ih,
        List.filter_cons_of_neg hnone]
  | case3 e steps ih =>
    rw [List.filter_cons]
    split
    · rw [entered, ih]
    · exact ih

/-- The tokens of some kinds are where the walk enters the expressions that start with them. -/
theorem starts_of_standsFor (hp : ∀ kind, p kind = true → kind.starts = true)
    (hstarts : ∀ {token : Token} {e : Expression}, token.Starts e → p token.kind = q e)
    (h : List.Forall₂ Token.StandsFor tokens steps) :
    List.Forall₂ Token.Starts (tokens.filter (p ·.kind)) ((entered steps).filter q) := by
  induction h with
  | nil => exact .nil
  | @cons token step tokens steps hstands _ ih =>
    cases step with
    | enter e =>
      have hentered : token.Starts e := hstands
      rw [entered, List.filter_cons, List.filter_cons, hstarts hentered]
      split
      · exact .cons hentered ih
      · exact ih
    | leave e =>
      have hnone : ¬ p token.kind = true := by
        intro hkind
        have hcloses := Token.Ends.closes hstands
        rw [Token.Kind.closes_of_starts (hp _ hkind)] at hcloses
        cases hcloses
      rw [entered, List.filter_cons, if_neg hnone]
      exact ih

theorem Accounts.starts {taken : List Token} (h : Accounts taken steps more)
    (hp : ∀ kind, p kind = true → kind.starts = true)
    (hq : ∀ e, q e = true → e.isElement = true)
    (hstarts : ∀ {token : Token} {e : Expression}, token.Starts e → p token.kind = q e) :
    List.Forall₂ Token.Starts (taken.filter (p ·.kind)) ((entered steps).filter q) := by
  rw [← filter_shown_tokens hp, ← filter_shown_steps hq]
  exact starts_of_standsFor hp hstarts h.shown

end Selection

/-- Reading a right-hand side loses, repeats and reorders nothing. The tokens of elements and
brackets that it takes stand for the walk through the expression, so those of leaves are its leaves
and those that open brackets its groups and options, and the slashes are those of its choices. -/
theorem read_takes_every_token {start stream : TokenStream} (h : read start = .ok e stream) :
    ∃ taken, start.tokens = taken ++ stream.tokens ∧ stream.size = start.size ∧
      (∀ token ∈ taken, token.kind ≠ .equal) ∧ Token.Nested taken ∧
      List.Forall₂ Token.StandsFor (taken.filter (·.kind.isShown)) (e.walk.filter Step.isShown) ∧
      List.Forall₂ Token.Starts (taken.filter (·.kind.isLeaf)) (e.preorder.filter isLeaf) ∧
      List.Forall₂ Token.Starts (taken.filter (·.kind.opens)) (e.preorder.filter isBracketed) ∧
      (taken.countP (·.kind = .slash) : Int) = (e.preorder.map slashes).sum := by
  obtain ⟨rest, rfl, hspells⟩ := read_eq_ok_iff.mp h
  obtain ⟨taken, htokens, haccounts⟩ := hspells.takes
  have hplain : ∀ token ∈ taken, token.kind ≠ .equal := by
    obtain ⟨taken', htokens', hplain⟩ := hspells.passes.exists_append
    rwa [List.append_cancel_right (htokens.symm.trans htokens')]
  have hleaves : List.Forall₂ Token.Starts (taken.filter (·.kind.isLeaf))
      (e.preorder.filter isLeaf) := by
    refine haccounts.starts (fun kind hkind => ?_) (fun e he => ?_) Token.Starts.isLeaf_eq
    · rw [Token.Kind.starts, hkind, Bool.true_or]
    · rw [isElement_eq, he, Bool.true_or]
  have hbrackets : List.Forall₂ Token.Starts (taken.filter (·.kind.opens))
      (e.preorder.filter isBracketed) := by
    refine haccounts.starts (fun kind hkind => ?_) (fun e he => ?_) Token.Starts.opens_eq
    · rw [Token.Kind.starts, hkind, Bool.or_true]
    · rw [isElement_eq, he, Bool.or_true]
  have hslashes : (taken.countP (·.kind = .slash) : Int) = (e.preorder.map slashes).sum :=
    haccounts.slashes.trans (Int.add_zero _)
  exact ⟨taken, htokens, rfl, hplain, haccounts.nested, haccounts.shown, hleaves, hbrackets,
    hslashes⟩

/-- A choice of two alternatives, the second of them counted and continued on a line of its own,
with another choice inside: the line break behind the closing parenthesis is left. -/
theorem read_takes_every_token_folded :
    let text := ['"', 'a', '"', ' ', '/', ' ', '2', '(', ' ', 'B', '\n', ' ', '[', ' ', '<', 'd',
      '>', ' ', ']', ' ', '/', ' ', 'c', ' ', ')', '\n', 'X']
    let e := alternation [.literal (.insensitive ['a']), .repetition ⟨2, some 2⟩ (.group
      (.alternation [.concatenation [.reference ['B'], .option (.prose ['d'])], .reference ['C']]))]
    ∃ start stream, TokenStream.ofSource text = .ok start ∧ read start = .ok e stream ∧
      ∃ taken, start.tokens = taken ++ stream.tokens ∧ stream.size = start.size ∧
        (∀ token ∈ taken, token.kind ≠ .equal) ∧ Token.Nested taken ∧
        List.Forall₂ Token.StandsFor (taken.filter (·.kind.isShown)) (e.walk.filter Step.isShown) ∧
        List.Forall₂ Token.Starts (taken.filter (·.kind.isLeaf)) (e.preorder.filter isLeaf) ∧
        List.Forall₂ Token.Starts (taken.filter (·.kind.opens))
          (e.preorder.filter isBracketed) ∧
        (taken.countP (·.kind = .slash) : Int) = (e.preorder.map slashes).sum := by
  intro text e
  have hread : ∃ start stream, TokenStream.ofSource text = .ok start ∧ read start = .ok e stream :=
    ⟨_, _, rfl, rfl⟩
  obtain ⟨start, stream, hscan, hread⟩ := hread
  exact ⟨start, stream, hscan, hread, read_takes_every_token hread⟩

end Expression

end AugmentedBnf
