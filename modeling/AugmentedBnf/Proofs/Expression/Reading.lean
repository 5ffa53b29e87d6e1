import AugmentedBnf.Proofs.Expression.Phrase
import AugmentedBnf.Proofs.Grammar.Table

/-! # Readers find what tokens spell

A right-hand side is read exactly where the tokens spell one, and the readers return the phrase and
leave the rest. The bounds on steps and on nesting never show: each step takes a token, and each
bracket does, so a bound above the number of tokens is never reached.
-/
namespace AugmentedBnf

open Token (past headKind? length_past_le)

namespace Reader

variable {α β : Type} {tokens : List Token} {size : Nat} {stream : TokenStream}

theorem bind_eq_ok_iff {x : Reader α} {f : α → Reader β} {b : β} {start : TokenStream} :
    (x >>= f) start = .ok b stream ↔ ∃ a rest, x start = .ok a rest ∧ f a rest = .ok b stream := by
  refine ⟨bind_eq_ok, ?_⟩
  rintro ⟨a, rest, hx, hf⟩
  simp only [bind, EStateM.bind, hx, hf]

theorem bind_of_ok {x : Reader α} {a : α} {start : TokenStream} (h : x start = .ok a stream)
    (f : α → Reader β) : (x >>= f) start = f a stream := by
  simp only [bind, EStateM.bind, h]

theorem skip_apply (kinds : List Token.Kind) (tokens : List Token) (size : Nat) :
    skip kinds ⟨tokens, size⟩ = .ok () ⟨past kinds tokens, size⟩ := rfl

theorem get_apply (start : TokenStream) : (get : Reader TokenStream) start = .ok start start := rfl

theorem isAt_apply (kind : Token.Kind) (tokens : List Token) (size : Nat) :
    isAt kind ⟨tokens, size⟩ = .ok (decide (headKind? tokens = some kind)) ⟨tokens, size⟩ := by
  have hstream : TokenStream.isAt ⟨tokens, size⟩ kind = decide (headKind? tokens = some kind) := by
    cases tokens with
    | nil => rfl
    | cons token rest =>
      rw [TokenStream.isAt, Bool.eq_iff_iff]
      simp [headKind?]
  rw [← hstream]
  rfl

theorem consume_eq_ok_iff {kind : Token.Kind} {text : Text} :
    consume kind ⟨tokens, size⟩ = .ok text stream ↔
      ∃ token rest, tokens = token :: rest ∧ token.kind = kind ∧ text = token.text ∧
        stream = ⟨rest, size⟩ := by
  constructor
  · intro h
    cases tokens with
    | nil => cases h
    | cons token rest =>
      by_cases hkind : token.kind = kind
      · simp only [consume, if_pos hkind] at h
        cases h
        exact ⟨token, rest, rfl, hkind, rfl, rfl⟩
      · simp only [consume, if_neg hkind] at h
        cases h
  · rintro ⟨token, rest, rfl, hkind, rfl, rfl⟩
    simp only [consume, if_pos hkind]

theorem consume_cons {kind : Token.Kind} {token : Token} (h : token.kind = kind)
    (rest : List Token) (size : Nat) :
    consume kind ⟨token :: rest, size⟩ = .ok token.text ⟨rest, size⟩ :=
  consume_eq_ok_iff.mpr ⟨token, rest, rfl, h, rfl, rfl⟩

end Reader

theorem TokenStream.aheadIn_succ (passing : List Token.Kind) (amount : Nat) (tokens : List Token) :
    aheadIn passing (amount + 1) tokens =
      match past passing tokens with
      | [] => []
      | token :: rest => token :: aheadIn passing amount rest := by
  induction tokens with
  | nil => rfl
  | cons token rest ih =>
    rw [aheadIn, Token.past_cons]
    by_cases h : token.kind ∈ passing
    · rw [if_pos (List.contains_iff_mem.mpr h), if_pos h, ih]
    · rw [if_neg (mt List.contains_iff_mem.mp h), if_neg h]

namespace Expression

variable {tokens : List Token} {size : Nat} {stream : TokenStream}

section Bounds

theorem readNumber_eq_ok_iff {n : Nat} : readNumber ⟨tokens, size⟩ = .ok n stream ↔
    ∃ token rest, tokens = token :: rest ∧ token.number? = some n ∧ stream = ⟨rest, size⟩ := by
  unfold readNumber
  rw [Reader.bind_eq_ok_iff]
  constructor
  · rintro ⟨text, r, hconsume, hvalue⟩
    obtain ⟨token, rest, rfl, hkind, rfl, rfl⟩ := Reader.consume_eq_ok_iff.mp hconsume
    cases hnumber : Text.unsigned? 10 Text.limit64 token.text with
    | none =>
      rw [hnumber] at hvalue
      cases hvalue
    | some value =>
      rw [hnumber] at hvalue
      cases hvalue
      exact ⟨token, rest, rfl, by rw [Token.number?, if_pos hkind, hnumber], rfl⟩
  · rintro ⟨token, rest, rfl, hnumber, rfl⟩
    obtain ⟨hkind, hvalue⟩ := Token.exists_of_number? hnumber
    refine ⟨token.text, ⟨rest, size⟩, Reader.consume_cons hkind rest size, ?_⟩
    rw [hvalue]
    rfl

theorem readMinimum_eq_ok_iff {n : Nat} : readMinimum ⟨tokens, size⟩ = .ok n stream ↔
    ∃ token rest, tokens = token :: rest ∧ token.number? = some n ∧
      stream = ⟨past [.whitespace] rest, size⟩ := by
  unfold readMinimum
  rw [Reader.bind_eq_ok_iff]
  constructor
  · rintro ⟨min, r, hnumber, hrest⟩
    obtain ⟨token, rest, rfl, hvalue, rfl⟩ := readNumber_eq_ok_iff.mp hnumber
    cases hrest
    exact ⟨token, rest, rfl, hvalue, rfl⟩
  · rintro ⟨token, rest, rfl, hvalue, rfl⟩
    exact ⟨n, ⟨rest, size⟩, readNumber_eq_ok_iff.mpr ⟨token, rest, rfl, hvalue, rfl⟩, rfl⟩

theorem readStar_eq_ok_iff {u : Unit} : readStar ⟨tokens, size⟩ = .ok u stream ↔
    ∃ token rest, tokens = token :: rest ∧ token.kind = .star ∧
      stream = ⟨past [.whitespace] rest, size⟩ := by
  unfold readStar
  rw [Reader.bind_eq_ok_iff]
  constructor
  · rintro ⟨text, r, hconsume, hrest⟩
    obtain ⟨token, rest, rfl, hkind, -, rfl⟩ := Reader.consume_eq_ok_iff.mp hconsume
    cases hrest
    exact ⟨token, rest, rfl, hkind, rfl⟩
  · rintro ⟨token, rest, rfl, hkind, rfl⟩
    exact ⟨token.text, ⟨rest, size⟩, Reader.consume_cons hkind rest size, rfl⟩

/-- The form of the count at the front of the tokens. -/
def form (tokens : List Token) : Count :=
  .detect ((TokenStream.aheadIn [.whitespace] 3 tokens).map (·.kind))

theorem form_cons {token : Token} (h : token.kind ≠ .whitespace) (rest : List Token) :
    form (token :: rest) =
      .detect (token.kind :: (TokenStream.aheadIn [.whitespace] 2 rest).map (·.kind)) := by
  have hpast : past [.whitespace] (token :: rest) = token :: rest := by
    rw [Token.past_cons, if_neg (by simpa using h)]
  rw [form, TokenStream.aheadIn_succ, hpast, List.map_cons]

theorem form_number {token : Token} (h : token.kind = .number) (rest : List Token) :
    form (token :: rest) =
      match past [.whitespace] rest with
      | [] => .exactly
      | star :: rest =>
        if star.kind ≠ .star then .exactly
        else if headKind? (past [.whitespace] rest) = some .number then .between
        else .atLeast := by
  rw [form_cons (by rw [h]; decide), h, TokenStream.aheadIn_succ]
  cases past [.whitespace] rest with
  | nil => rfl
  | cons star r =>
    by_cases hstar : star.kind = .star
    · simp only [List.map_cons, hstar, ne_eq, not_true_eq_false, if_false]
      rw [TokenStream.aheadIn_succ]
      cases past [.whitespace] r with
      | nil => rfl
      | cons second r' =>
        simp only [List.map_cons, headKind?, List.head?_cons, Option.map_some, Option.some.injEq]
        cases second.kind <;> rfl
    · simp only [List.map_cons, if_pos hstar]
      cases hkind : star.kind with
      | star => exact absurd hkind hstar
      | _ => rfl

theorem form_star {token : Token} (h : token.kind = .star) (rest : List Token) :
    form (token :: rest) =
      if headKind? (past [.whitespace] rest) = some .number then .atMost else .anyNumber := by
  rw [form_cons (by rw [h]; decide), h, TokenStream.aheadIn_succ]
  cases past [.whitespace] rest with
  | nil => rfl
  | cons second r =>
    simp only [List.map_cons, headKind?, List.head?_cons, Option.map_some, Option.some.injEq]
    cases second.kind <;> rfl

theorem form_other {tokens : List Token} (hblank : headKind? tokens ≠ some .whitespace)
    (hnumber : headKind? tokens ≠ some .number) (hstar : headKind? tokens ≠ some .star) :
    form tokens = .single := by
  cases tokens with
  | nil => rfl
  | cons token rest =>
    have hne : ∀ kind, headKind? (token :: rest) ≠ some kind → token.kind ≠ kind :=
      fun kind h heq => h (congrArg some heq)
    rw [form_cons (hne _ hblank)]
    cases hkind : token.kind with
    | number => exact absurd hkind (hne _ hnumber)
    | star => exact absurd hkind (hne _ hstar)
    | _ => rfl

theorem counts_of_readBounds {bounds : Bounds} (hblank : headKind? tokens ≠ some .whitespace)
    (h : readBounds (form tokens) ⟨tokens, size⟩ = .ok bounds stream) :
    ∃ rest, stream = ⟨rest, size⟩ ∧ Counts bounds tokens rest := by
  by_cases hnumber : headKind? tokens = some .number
  · cases tokens with
    | nil => cases hnumber
    | cons first r =>
      rw [form_number (Option.some.inj hnumber)] at h
      cases hr : past [.whitespace] r with
      | nil =>
        rw [hr] at h
        obtain ⟨min, _, hmin, hrest⟩ := Reader.bind_eq_ok h
        obtain ⟨_, _, hcons, hvalue, rfl⟩ := readMinimum_eq_ok_iff.mp hmin
        cases hcons
        cases hrest
        refine ⟨_, rfl, .exactly hvalue ?_⟩
        rw [hr]
        nofun
      | cons star r' =>
        rw [hr] at h
        dsimp only at h
        by_cases hstar : star.kind = .star
        · rw [if_neg (not_not_intro hstar)] at h
          by_cases hmax : headKind? (past [.whitespace] r') = some .number
          · rw [if_pos hmax] at h
            obtain ⟨min, _, hmin, h⟩ := Reader.bind_eq_ok h
            obtain ⟨_, _, hcons, hleast, rfl⟩ := readMinimum_eq_ok_iff.mp hmin
            cases hcons
            obtain ⟨_, _, hmark, h⟩ := Reader.bind_eq_ok h
            obtain ⟨_, _, hcons, -, rfl⟩ := readStar_eq_ok_iff.mp hmark
            rw [hr] at hcons
            cases hcons
            obtain ⟨max, _, hsecond, h⟩ := Reader.bind_eq_ok h
            obtain ⟨second, rest, hcons, hgreatest, rfl⟩ := readNumber_eq_ok_iff.mp hsecond
            cases h
            exact ⟨rest, rfl, .between hleast hr hstar hcons hgreatest⟩
          · rw [if_neg hmax] at h
            obtain ⟨min, _, hmin, h⟩ := Reader.bind_eq_ok h
            obtain ⟨_, _, hcons, hleast, rfl⟩ := readMinimum_eq_ok_iff.mp hmin
            cases hcons
            obtain ⟨_, _, hmark, h⟩ := Reader.bind_eq_ok h
            obtain ⟨_, _, hcons, -, rfl⟩ := readStar_eq_ok_iff.mp hmark
            rw [hr] at hcons
            cases hcons
            cases h
            exact ⟨_, rfl, .atLeast hleast hr hstar hmax⟩
        · rw [if_pos hstar] at h
          obtain ⟨min, _, hmin, hrest⟩ := Reader.bind_eq_ok h
          obtain ⟨_, _, hcons, hvalue, rfl⟩ := readMinimum_eq_ok_iff.mp hmin
          cases hcons
          cases hrest
          refine ⟨_, rfl, .exactly hvalue ?_⟩
          rw [hr]
          exact fun heq => hstar (Option.some.inj heq)
  by_cases hstar : headKind? tokens = some .star
  · cases tokens with
    | nil => cases hstar
    | cons star r =>
      have hkind : star.kind = .star := Option.some.inj hstar
      rw [form_star hkind] at h
      by_cases hmax : headKind? (past [.whitespace] r) = some .number
      · rw [if_pos hmax] at h
        obtain ⟨_, _, hmark, h⟩ := Reader.bind_eq_ok h
        obtain ⟨_, _, hcons, -, rfl⟩ := readStar_eq_ok_iff.mp hmark
        cases hcons
        obtain ⟨max, _, hsecond, h⟩ := Reader.bind_eq_ok h
        obtain ⟨second, rest, hcons, hgreatest, rfl⟩ := readNumber_eq_ok_iff.mp hsecond
        cases h
        exact ⟨rest, rfl, .atMost hkind hcons hgreatest⟩
      · rw [if_neg hmax] at h
        obtain ⟨_, _, hmark, h⟩ := Reader.bind_eq_ok h
        obtain ⟨_, _, hcons, -, rfl⟩ := readStar_eq_ok_iff.mp hmark
        cases hcons
        cases h
        exact ⟨_, rfl, .anyNumber hkind hmax⟩
  · rw [form_other hblank hnumber hstar] at h
    cases h
    exact ⟨tokens, rfl, .single hnumber hstar⟩

theorem readBounds_of_counts {bounds : Bounds} {rest : List Token}
    (hblank : headKind? tokens ≠ some .whitespace) (h : Counts bounds tokens rest) (size : Nat) :
    readBounds (form tokens) ⟨tokens, size⟩ = .ok bounds ⟨rest, size⟩ := by
  have hmin : ∀ {first : Token} {r : List Token} {min : Nat}, first.number? = some min →
      readMinimum ⟨first :: r, size⟩ = .ok min ⟨past [.whitespace] r, size⟩ :=
    fun hvalue => readMinimum_eq_ok_iff.mpr ⟨_, _, rfl, hvalue, rfl⟩
  have hmark : ∀ {star : Token} {r : List Token}, star.kind = .star →
      readStar ⟨star :: r, size⟩ = .ok () ⟨past [.whitespace] r, size⟩ :=
    fun hkind => readStar_eq_ok_iff.mpr ⟨_, _, rfl, hkind, rfl⟩
  have hmax : ∀ {second : Token} {r : List Token} {max : Nat}, second.number? = some max →
      readNumber ⟨second :: r, size⟩ = .ok max ⟨r, size⟩ :=
    fun hvalue => readNumber_eq_ok_iff.mpr ⟨_, _, rfl, hvalue, rfl⟩
  cases h with
  | between least mark kind next greatest =>
    have hsecond := congrArg some (Token.exists_of_number? greatest).1
    rw [form_number (Token.exists_of_number? least).1, mark]
    simp only [next, kind, headKind?, List.head?_cons, Option.map_some, hsecond, ne_eq,
      not_true_eq_false, if_true, if_false]
    rw [readBounds, Reader.bind_of_ok (hmin least), mark, Reader.bind_of_ok (hmark kind), next,
      Reader.bind_of_ok (hmax greatest)]
    rfl
  | atLeast least mark kind next =>
    rw [form_number (Token.exists_of_number? least).1, mark]
    simp only [kind, ne_eq, not_true_eq_false, if_false, if_neg next]
    rw [readBounds, Reader.bind_of_ok (hmin least), mark, Reader.bind_of_ok (hmark kind)]
    rfl
  | exactly least next =>
    rename_i first min r
    have hform : form (first :: r) = .exactly := by
      rw [form_number (Token.exists_of_number? least).1]
      cases hr : past [.whitespace] r with
      | nil => rfl
      | cons star r' =>
        rw [hr] at next
        have hstar : star.kind ≠ .star := fun heq => next (congrArg some heq)
        simp only [if_pos hstar]
    rw [hform, readBounds, Reader.bind_of_ok (hmin least)]
    rfl
  | atMost kind next greatest =>
    have hsecond := congrArg some (Token.exists_of_number? greatest).1
    rw [form_star kind, next]
    simp only [headKind?, List.head?_cons, Option.map_some, hsecond, if_true]
    rw [readBounds, Reader.bind_of_ok (hmark kind), next, Reader.bind_of_ok (hmax greatest)]
    rfl
  | anyNumber kind next =>
    rw [form_star kind, if_neg next, readBounds, Reader.bind_of_ok (hmark kind)]
    rfl
  | single number star =>
    rw [form_other hblank number star]
    rfl

end Bounds

theorem isLiteral_of_ofLexeme? {kind : Token.Kind} {text : Text}
    {result : Except CompileError Literal} (h : Literal.ofLexeme? kind text = some result) :
    kind.isLiteral = true := by
  cases kind with
  | binary | decimal | hexadecimal | quoted | insensitiveQuoted | sensitiveQuoted => rfl
  | _ => cases h

theorem literal_read_eq_ok_iff {token : Token} {rest : List Token} {value : Literal} :
    Literal.read ⟨token :: rest, size⟩ = .ok value stream ↔
      Literal.ofLexeme? token.kind token.text = some (.ok value) ∧ stream = ⟨rest, size⟩ := by
  unfold Literal.read
  dsimp only
  cases hlexeme : Literal.ofLexeme? token.kind token.text with
  | none => simp
  | some result =>
    cases result with
    | error cause => simp
    | ok found =>
      constructor
      · intro h
        cases h
        exact ⟨rfl, rfl⟩
      · rintro ⟨hvalue, rfl⟩
        cases hvalue
        rfl

section Steps

theorem readElement_of_past {inside : Reader Expression} {token : Token} {r : List Token}
    (h : past Token.Kind.inlineTrivia tokens = token :: r) (size : Nat) :
    readElement inside ⟨tokens, size⟩ =
      (if token.kind.isLiteral then do return literal (← Literal.read)
      else match token.kind with
        | .ident => do return reference (Text.upper (← Reader.consume .ident))
        | .leftParen => do return group (← readEnclosed inside .leftParen .rightParen)
        | .leftBracket => do return option (← readEnclosed inside .leftBracket .rightBracket)
        | .prose => do return prose ((← Reader.consume .prose).inside 1 1)
        | kind => throw (.unsupportedToken kind token.offset) : Reader Expression)
        ⟨token :: r, size⟩ := by
  rw [readElement, Reader.bind_of_ok (Reader.skip_apply _ _ _),
    Reader.bind_of_ok (Reader.get_apply _), h]
  rfl

theorem stepsLeft_apply (tokens : List Token) (size : Nat) :
    stepsLeft ⟨tokens, size⟩ = .ok (tokens.length + 1) ⟨tokens, size⟩ := rfl

theorem readOperands_succ (inside : Reader Expression) (count : Nat) (tokens : List Token)
    (size : Nat) : readOperands inside (count + 1) ⟨tokens, size⟩ =
      (match turn (past Token.Kind.inlineTrivia tokens) with
        | .stop => return []
        | .fold => do
          let _ ← Reader.consume .lineBreak
          let _ ← Reader.consume .whitespace
          readOperands inside count
        | .operand => do
          let operand ← readRepetition inside
          let rest ← readOperands inside count
          return operand.simplify :: rest : Reader (List Expression))
        ⟨past Token.Kind.inlineTrivia tokens, size⟩ := rfl

theorem readAlternatives_of_slash {inside : Reader Expression} {mark : Token} {r : List Token}
    (h : past Token.Kind.inlineTrivia tokens = mark :: r) (hkind : mark.kind = .slash)
    (count size : Nat) : readAlternatives inside (count + 1) ⟨tokens, size⟩ =
      (do
        let operand ← readConcatenation inside
        let rest ← readAlternatives inside count
        return operand.simplify :: rest : Reader (List Expression))
        ⟨past Token.Kind.inlineTrivia r, size⟩ := by
  have hslash : headKind? (mark :: r) = some .slash := congrArg some hkind
  rw [readAlternatives, Reader.bind_of_ok (Reader.skip_apply _ _ _),
    Reader.bind_of_ok (Reader.isAt_apply _ _ _), h, if_pos (decide_eq_true hslash),
    Reader.bind_of_ok (Reader.consume_cons hkind _ _), Reader.bind_of_ok (Reader.skip_apply _ _ _)]

theorem readAlternatives_of_ne {inside : Reader Expression}
    (h : headKind? (past Token.Kind.inlineTrivia tokens) ≠ some .slash) (count size : Nat) :
    readAlternatives inside (count + 1) ⟨tokens, size⟩ =
      .ok [] ⟨past Token.Kind.inlineTrivia tokens, size⟩ := by
  rw [readAlternatives, Reader.bind_of_ok (Reader.skip_apply _ _ _),
    Reader.bind_of_ok (Reader.isAt_apply _ _ _), if_neg (by simpa using h)]
  rfl

end Steps

section Soundness

/-- Whatever the reader returns, the tokens spell it. -/
def Sound (inside : Reader Expression) : Prop :=
  ∀ (tokens : List Token) (size : Nat) (e : Expression) (stream : TokenStream),
    inside ⟨tokens, size⟩ = .ok e stream →
    ∃ rest, stream = ⟨rest, size⟩ ∧ Spells (.whole e) tokens rest

variable {inside : Reader Expression} {e : Expression} {es : List Expression}

theorem exists_of_readEnclosed (hinside : Sound inside) {left right : Token.Kind}
    (h : readEnclosed inside left right ⟨tokens, size⟩ = .ok e stream) :
    ∃ first r r' last rest, tokens = first :: r ∧ first.kind = left ∧ Spells (.whole e) r r' ∧
      past Token.Kind.trivia r' = last :: rest ∧ last.kind = right ∧ stream = ⟨rest, size⟩ := by
  obtain ⟨_, _, hleft, h⟩ := Reader.bind_eq_ok h
  obtain ⟨first, r, rfl, hkind, -, rfl⟩ := Reader.consume_eq_ok_iff.mp hleft
  obtain ⟨inner, _, hinner, h⟩ := Reader.bind_eq_ok h
  obtain ⟨r', rfl, hspells⟩ := hinside _ _ _ _ hinner
  obtain ⟨_, _, hskip, h⟩ := Reader.bind_eq_ok h
  cases hskip
  obtain ⟨_, _, hright, h⟩ := Reader.bind_eq_ok h
  obtain ⟨last, rest, hlast, hkind', -, rfl⟩ := Reader.consume_eq_ok_iff.mp hright
  cases h
  exact ⟨first, r, r', last, rest, rfl, hkind, hspells, hlast, hkind', rfl⟩

theorem element_of_readElement (hinside : Sound inside)
    (h : readElement inside ⟨tokens, size⟩ = .ok e stream) :
    ∃ rest, stream = ⟨rest, size⟩ ∧ Spells (.element e) tokens rest := by
  cases hpast : past Token.Kind.inlineTrivia tokens with
  | nil =>
    rw [readElement, Reader.bind_of_ok (Reader.skip_apply _ _ _),
      Reader.bind_of_ok (Reader.get_apply _), hpast] at h
    cases h
  | cons token r =>
    rw [readElement_of_past hpast] at h
    by_cases hliteral : token.kind.isLiteral = true
    · rw [if_pos hliteral] at h
      obtain ⟨value, _, hvalue, h⟩ := Reader.bind_eq_ok h
      obtain ⟨hlexeme, rfl⟩ := literal_read_eq_ok_iff.mp hvalue
      cases h
      exact ⟨r, rfl, .literal hpast hlexeme⟩
    · rw [if_neg hliteral] at h
      cases hkind : token.kind with
      | ident =>
        rw [hkind] at h
        obtain ⟨text, _, htext, h⟩ := Reader.bind_eq_ok h
        obtain ⟨_, _, hcons, -, rfl, rfl⟩ := Reader.consume_eq_ok_iff.mp htext
        cases hcons
        cases h
        exact ⟨r, rfl, .reference hpast hkind⟩
      | prose =>
        rw [hkind] at h
        obtain ⟨text, _, htext, h⟩ := Reader.bind_eq_ok h
        obtain ⟨_, _, hcons, -, rfl, rfl⟩ := Reader.consume_eq_ok_iff.mp htext
        cases hcons
        cases h
        exact ⟨r, rfl, .prose hpast hkind⟩
      | leftParen =>
        rw [hkind] at h
        obtain ⟨inner, _, hinner, h⟩ := Reader.bind_eq_ok h
        obtain ⟨_, _, r', last, rest, hcons, -, hspells, hlast, hright, rfl⟩ :=
          exists_of_readEnclosed hinside hinner
        cases hcons
        cases h
        exact ⟨rest, rfl, .group hpast hkind hspells hlast hright⟩
      | leftBracket =>
        rw [hkind] at h
        obtain ⟨inner, _, hinner, h⟩ := Reader.bind_eq_ok h
        obtain ⟨_, _, r', last, rest, hcons, -, hspells, hlast, hright, rfl⟩ :=
          exists_of_readEnclosed hinside hinner
        cases hcons
        cases h
        exact ⟨rest, rfl, .option hpast hkind hspells hlast hright⟩
      | _ =>
        rw [hkind] at h
        cases h

/-- An element stands for itself: only its count can be a wrapper. -/
theorem Spells.simplify_element {tokens rest : List Token} (h : Spells (.element e) tokens rest) :
    e.simplify = e := by
  cases h <;> rfl

theorem headKind?_past_ne {kinds : List Token.Kind} {kind : Token.Kind} (h : kind ∈ kinds)
    (tokens : List Token) : headKind? (past kinds tokens) ≠ some kind := by
  intro hhead
  cases hpast : past kinds tokens with
  | nil =>
    rw [hpast] at hhead
    cases hhead
  | cons token rest =>
    rw [hpast] at hhead
    obtain rfl : token.kind = kind := Option.some.inj hhead
    exact Token.not_mem_of_past hpast h

theorem operand_of_readRepetition (hinside : Sound inside)
    (h : readRepetition inside ⟨tokens, size⟩ = .ok e stream) :
    ∃ rest, stream = ⟨rest, size⟩ ∧ Spells (.operand e.simplify) tokens rest := by
  obtain ⟨_, _, hskip, h⟩ := Reader.bind_eq_ok h
  rw [Reader.skip_apply] at hskip
  cases hskip
  obtain ⟨_, _, hget, h⟩ := Reader.bind_eq_ok h
  cases hget
  obtain ⟨bounds, _, hbounds, h⟩ := Reader.bind_eq_ok h
  have hblank := headKind?_past_ne (List.mem_singleton_self Token.Kind.whitespace) tokens
  obtain ⟨r, rfl, hcounts⟩ := counts_of_readBounds hblank hbounds
  obtain ⟨element, _, helement, h⟩ := Reader.bind_eq_ok h
  obtain ⟨rest, rfl, hspells⟩ := element_of_readElement hinside helement
  rw [hspells.simplify_element] at h
  cases h
  exact ⟨rest, rfl, .operand hcounts hspells⟩

theorem operands_of_readOperands (hinside : Sound inside) {count : Nat}
    (hcount : tokens.length < count)
    (h : readOperands inside count ⟨tokens, size⟩ = .ok es stream) :
    ∃ rest, stream = ⟨rest, size⟩ ∧ Spells (.operands es) tokens rest := by
  induction count generalizing tokens es stream with
  | zero => omega
  | succ count ih =>
    have hshort := length_past_le Token.Kind.inlineTrivia tokens
    rw [readOperands_succ] at h
    cases hturn : turn (past Token.Kind.inlineTrivia tokens) with
    | stop =>
      rw [hturn] at h
      cases h
      exact ⟨_, rfl, .stop hturn⟩
    | fold =>
      rw [hturn] at h
      obtain ⟨line, indent, r, hpast, hline, hindent⟩ := turn_eq_fold_iff.mp hturn
      rw [hpast] at h hshort
      dsimp only at h
      rw [Reader.bind_of_ok (Reader.consume_cons hline _ _),
        Reader.bind_of_ok (Reader.consume_cons hindent _ _)] at h
      simp only [List.length_cons] at hshort
      obtain ⟨rest, rfl, hspells⟩ := ih (by omega) h
      exact ⟨rest, rfl, .fold hpast hline hindent hspells⟩
    | operand =>
      rw [hturn] at h
      obtain ⟨operand, _, hoperand, h⟩ := Reader.bind_eq_ok h
      obtain ⟨r, rfl, hfirst⟩ := operand_of_readRepetition hinside hoperand
      obtain ⟨others, _, hothers, h⟩ := Reader.bind_eq_ok h
      have hless := hfirst.operand_length_lt
      obtain ⟨rest, rfl, hspells⟩ := ih (by omega) hothers
      cases h
      exact ⟨rest, rfl, .another hturn hfirst hspells⟩

theorem operands_of_readConcatenation (hinside : Sound inside)
    (h : readConcatenation inside ⟨tokens, size⟩ = .ok e stream) :
    ∃ es rest, e = concatenation es ∧ stream = ⟨rest, size⟩ ∧
      Spells (.operands es) tokens rest := by
  obtain ⟨_, _, hsteps, h⟩ := Reader.bind_eq_ok h
  cases hsteps
  obtain ⟨es, _, hes, h⟩ := Reader.bind_eq_ok h
  obtain ⟨rest, rfl, hspells⟩ := operands_of_readOperands hinside (Nat.lt_succ_self _) hes
  cases h
  exact ⟨es, rest, rfl, rfl, hspells⟩

theorem alternatives_of_readAlternatives (hinside : Sound inside) {count : Nat}
    (hcount : tokens.length < count)
    (h : readAlternatives inside count ⟨tokens, size⟩ = .ok es stream) :
    ∃ rest, stream = ⟨rest, size⟩ ∧ Spells (.alternatives es) tokens rest := by
  induction count generalizing tokens es stream with
  | zero => omega
  | succ count ih =>
    by_cases hslash : headKind? (past Token.Kind.inlineTrivia tokens) = some .slash
    · obtain ⟨mark, r, hpast, hkind⟩ := Token.exists_of_headKind? hslash
      have hshort := (Token.suffix_of_past hpast).2
      rw [readAlternatives_of_slash hpast hkind] at h
      obtain ⟨branch, _, hbranch, h⟩ := Reader.bind_eq_ok h
      obtain ⟨operands, r', rfl, rfl, hoperands⟩ := operands_of_readConcatenation hinside hbranch
      obtain ⟨others, _, hothers, h⟩ := Reader.bind_eq_ok h
      have hless := hoperands.length_le
      have hless' := length_past_le Token.Kind.inlineTrivia r
      obtain ⟨rest, rfl, hspells⟩ := ih (by omega) hothers
      cases h
      exact ⟨rest, rfl, .slash hpast hkind hoperands hspells⟩
    · rw [readAlternatives_of_ne hslash] at h
      cases h
      exact ⟨_, rfl, .last hslash⟩

theorem sound_readNested (depth : Nat) : Sound (readNested depth) := by
  induction depth with
  | zero =>
    intro tokens size e stream h
    cases h
  | succ depth ih =>
    intro tokens size e stream h
    obtain ⟨whole, _, hwhole, h⟩ := Reader.bind_eq_ok h
    obtain ⟨first, _, hfirst, hwhole⟩ := Reader.bind_eq_ok hwhole
    obtain ⟨es, r, rfl, rfl, hes⟩ := operands_of_readConcatenation ih hfirst
    obtain ⟨_, _, hsteps, hwhole⟩ := Reader.bind_eq_ok hwhole
    cases hsteps
    obtain ⟨others, _, hothers, hwhole⟩ := Reader.bind_eq_ok hwhole
    obtain ⟨rest, rfl, hspells⟩ := alternatives_of_readAlternatives ih (Nat.lt_succ_self _) hothers
    cases hwhole
    cases h
    exact ⟨rest, rfl, .whole hes hspells⟩

end Soundness

section Completeness

/-- The reader of the phrase returns it and leaves the rest, if its bounds cover the tokens. -/
def Found : Phrase → List Token → List Token → Prop
  | .element e, tokens, rest => ∀ size depth, tokens.length ≤ depth →
      readElement (readNested depth) ⟨tokens, size⟩ = .ok e ⟨rest, size⟩
  | .operand e, tokens, rest => ∀ size depth, tokens.length ≤ depth →
      ∃ e', e'.simplify = e ∧
        readRepetition (readNested depth) ⟨tokens, size⟩ = .ok e' ⟨rest, size⟩
  | .operands es, tokens, rest => ∀ size depth count, tokens.length ≤ depth →
      tokens.length < count →
      readOperands (readNested depth) count ⟨tokens, size⟩ = .ok es ⟨rest, size⟩
  | .alternatives es, tokens, rest => ∀ size depth count, tokens.length ≤ depth →
      tokens.length < count →
      readAlternatives (readNested depth) count ⟨tokens, size⟩ = .ok es ⟨rest, size⟩
  | .whole e, tokens, rest => ∀ size depth, tokens.length < depth →
      readNested depth ⟨tokens, size⟩ = .ok e ⟨rest, size⟩

theorem readEnclosed_of_spells {inside : Reader Expression} {e : Expression} (left : Token)
    {right : Token} {r r' rest : List Token} (hinside : inside ⟨r, size⟩ = .ok e ⟨r', size⟩)
    (hlast : past Token.Kind.trivia r' = right :: rest) :
    readEnclosed inside left.kind right.kind ⟨left :: r, size⟩ = .ok e ⟨rest, size⟩ := by
  rw [readEnclosed, Reader.bind_of_ok (Reader.consume_cons rfl _ _), Reader.bind_of_ok hinside,
    Reader.bind_of_ok (Reader.skip_apply _ _ _), hlast,
    Reader.bind_of_ok (Reader.consume_cons rfl _ _)]
  rfl

theorem readConcatenation_of_found {es : List Expression} {tokens rest : List Token} {depth : Nat}
    (h : Found (.operands es) tokens rest) (hdepth : tokens.length ≤ depth) :
    readConcatenation (readNested depth) ⟨tokens, size⟩ =
      .ok (concatenation es) ⟨rest, size⟩ := by
  have hoperands := h size depth (tokens.length + 1) hdepth (Nat.lt_succ_self _)
  rw [readConcatenation, Reader.bind_of_ok (stepsLeft_apply _ _), Reader.bind_of_ok hoperands]
  rfl

theorem Spells.found {p : Phrase} {tokens rest : List Token} (h : Spells p tokens rest) :
    Found p tokens rest := by
  induction h with
  | literal first lexeme =>
    intro size depth hdepth
    rw [readElement_of_past first, if_pos (isLiteral_of_ofLexeme? lexeme),
      Reader.bind_of_ok (literal_read_eq_ok_iff.mpr ⟨lexeme, rfl⟩)]
    rfl
  | reference first kind =>
    intro size depth hdepth
    rw [readElement_of_past first, kind, if_neg (by decide)]
    dsimp only
    rw [Reader.bind_of_ok (Reader.consume_cons kind _ _)]
    rfl
  | prose first kind =>
    intro size depth hdepth
    rw [readElement_of_past first, kind, if_neg (by decide)]
    dsimp only
    rw [Reader.bind_of_ok (Reader.consume_cons kind _ _)]
    rfl
  | @group _ _ _ _ left right _ first kind inner last kind' ih =>
    intro size depth hdepth
    have hfirst := (Token.suffix_of_past first).2
    have hinner := readEnclosed_of_spells left (ih size depth (by omega)) last
    rw [kind, kind'] at hinner
    rw [readElement_of_past first, kind, if_neg (by decide)]
    dsimp only
    rw [Reader.bind_of_ok hinner]
    rfl
  | @option _ _ _ _ left right _ first kind inner last kind' ih =>
    intro size depth hdepth
    have hfirst := (Token.suffix_of_past first).2
    have hinner := readEnclosed_of_spells left (ih size depth (by omega)) last
    rw [kind, kind'] at hinner
    rw [readElement_of_past first, kind, if_neg (by decide)]
    dsimp only
    rw [Reader.bind_of_ok hinner]
    rfl
  | @operand tokens r rest bounds e count inner ih =>
    intro size depth hdepth
    have hblank := headKind?_past_ne (List.mem_singleton_self Token.Kind.whitespace) tokens
    have hbounds := readBounds_of_counts hblank count size
    have hshort := count.suffix.length_le
    have hshort' := length_past_le [.whitespace] tokens
    refine ⟨repetition bounds e, rfl, ?_⟩
    rw [readRepetition, Reader.bind_of_ok (Reader.skip_apply _ _ _),
      Reader.bind_of_ok (Reader.get_apply _)]
    change (readBounds (form (past [.whitespace] tokens)) >>= _) _ = _
    rw [Reader.bind_of_ok hbounds, Reader.bind_of_ok (ih size depth (by omega)),
      inner.simplify_element]
    rfl
  | stop stops =>
    intro size depth count hdepth hcount
    obtain ⟨count, rfl⟩ := Nat.exists_eq_add_one_of_ne_zero (Nat.ne_zero_of_lt hcount)
    rw [readOperands_succ, stops]
    rfl
  | fold first kind kind' next ih =>
    intro size depth count hdepth hcount
    obtain ⟨count, rfl⟩ := Nat.exists_eq_add_one_of_ne_zero (Nat.ne_zero_of_lt hcount)
    have hfirst := (Token.suffix_of_past first).2
    rw [List.length_cons] at hfirst
    rw [readOperands_succ, turn_eq_fold_iff.mpr ⟨_, _, _, first, kind, kind'⟩, first]
    dsimp only
    rw [Reader.bind_of_ok (Reader.consume_cons kind _ _),
      Reader.bind_of_ok (Reader.consume_cons kind' _ _), ih size depth count (by omega) (by omega)]
  | @another tokens r rest e es goes first next ihfirst ihnext =>
    intro size depth count hdepth hcount
    obtain ⟨count, rfl⟩ := Nat.exists_eq_add_one_of_ne_zero (Nat.ne_zero_of_lt hcount)
    have hshort := length_past_le Token.Kind.inlineTrivia tokens
    have hfirst := first.operand_length_lt
    obtain ⟨e', rfl, hread⟩ := ihfirst size depth (by omega)
    rw [readOperands_succ, goes]
    dsimp only
    rw [Reader.bind_of_ok hread, Reader.bind_of_ok (ihnext size depth count (by omega) (by omega))]
    rfl
  | @last tokens ends =>
    intro size depth count hdepth hcount
    obtain ⟨count, rfl⟩ := Nat.exists_eq_add_one_of_ne_zero (Nat.ne_zero_of_lt hcount)
    exact readAlternatives_of_ne ends count size
  | @slash tokens r r' rest mark es others first kind branch next ihbranch ihnext =>
    intro size depth count hdepth hcount
    obtain ⟨count, rfl⟩ := Nat.exists_eq_add_one_of_ne_zero (Nat.ne_zero_of_lt hcount)
    have hfirst := (Token.suffix_of_past first).2
    have hshort := length_past_le Token.Kind.inlineTrivia r
    have hbranch := branch.length_le
    rw [readAlternatives_of_slash first kind,
      Reader.bind_of_ok (readConcatenation_of_found ihbranch (by omega)),
      Reader.bind_of_ok (ihnext size depth count (by omega) (by omega))]
    rfl
  | @whole tokens r rest es others branch next ihbranch ihnext =>
    intro size depth hdepth
    obtain ⟨depth, rfl⟩ := Nat.exists_eq_add_one_of_ne_zero (Nat.ne_zero_of_lt hdepth)
    have hbranch := branch.length_le
    have hread : readAlternation (readNested depth) ⟨tokens, size⟩ =
        .ok (alternation ((concatenation es).simplify :: others)) ⟨rest, size⟩ := by
      rw [readAlternation, Reader.bind_of_ok (readConcatenation_of_found ihbranch (by omega)),
        Reader.bind_of_ok (stepsLeft_apply _ _),
        Reader.bind_of_ok (ihnext size depth (r.length + 1) (by omega) (Nat.lt_succ_self _))]
      rfl
    rw [readNested, Reader.bind_of_ok hread]
    rfl

end Completeness

/-- Reading a right-hand side returns what the tokens spell and fails where they spell nothing. -/
theorem read_eq_ok_iff {e : Expression} : read ⟨tokens, size⟩ = .ok e stream ↔
    ∃ rest, stream = ⟨rest, size⟩ ∧ Spells (.whole e) tokens rest := by
  have hread : read ⟨tokens, size⟩ = readNested (tokens.length + 1) ⟨tokens, size⟩ := rfl
  rw [hread]
  constructor
  · intro h
    exact sound_readNested _ _ _ _ _ h
  · rintro ⟨rest, rfl, h⟩
    exact h.found size _ (Nat.lt_succ_self _)

end Expression

end AugmentedBnf
