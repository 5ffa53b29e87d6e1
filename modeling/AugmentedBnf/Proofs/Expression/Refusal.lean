import AugmentedBnf.Proofs.Expression.Accounting
import AugmentedBnf.Proofs.Expression.Layout

/-! # Why tokens are refused

A right-hand side is refused at the first token that does not fit. Here is where and why, without the
counting of steps: one rule for each way in which a level of reading ends in a refusal. Together with
the rules of what tokens spell they say what reading does with any tokens whatever.
-/
namespace AugmentedBnf

open Token (past headKind? length_past_le)

/-- The cause for which a token of a kind is missed at the front of the tokens. -/
def Token.missing (wanted : Kind) (size : Nat) : List Token → CompileError
  | [] => .expected wanted none size
  | token :: _ => .expected wanted (some token.kind) token.offset

namespace Reader

variable {α β : Type} {tokens : List Token} {size : Nat} {cause : CompileError}
  {start stream : TokenStream}

theorem bind_eq_error {x : Reader α} {f : α → Reader β}
    (h : (x >>= f) start = .error cause stream) :
    x start = .error cause stream ∨
      ∃ a rest, x start = .ok a rest ∧ f a rest = .error cause stream := by
  simp only [bind, EStateM.bind] at h
  split at h
  · rename_i a rest heq
    exact .inr ⟨a, rest, heq, h⟩
  · rename_i heq
    cases h
    exact .inl heq

theorem consume_of_ne {kind : Token.Kind} (h : headKind? tokens ≠ some kind) (size : Nat) :
    consume kind ⟨tokens, size⟩ = .error (Token.missing kind size tokens) ⟨tokens, size⟩ := by
  cases tokens with
  | nil => rfl
  | cons token rest =>
    have hkind : token.kind ≠ kind := fun heq => h (congrArg some heq)
    simp only [consume, if_neg hkind]
    rfl

theorem consume_eq_error {kind : Token.Kind}
    (h : consume kind ⟨tokens, size⟩ = .error cause stream) :
    headKind? tokens ≠ some kind ∧ cause = Token.missing kind size tokens ∧
      stream = ⟨tokens, size⟩ := by
  by_cases hkind : headKind? tokens = some kind
  · obtain ⟨token, rest, rfl, heq⟩ := Token.exists_of_headKind? hkind
    rw [consume_cons heq] at h
    cases h
  · rw [consume_of_ne hkind] at h
    cases h
    exact ⟨hkind, rfl, rfl⟩

end Reader

namespace Expression

/-- The parts of a right-hand side, without what reading them returns. -/
inductive Part where
  | element
  | operand
  | operands
  | alternatives
  | whole
  deriving DecidableEq

/-- A number in the count in front of an element is too large. -/
inductive CountRefused : List Token → CompileError → List Token → Prop where
  | least {first : Token} {r : List Token} (kind : first.kind = .number)
      (large : first.number? = none) : CountRefused (first :: r) (.invalidNumber first.text) r
  | greatest {first star second : Token} {min : Nat} {r r' rest : List Token}
      (least : first.number? = some min) (mark : past [.whitespace] r = star :: r')
      (kind : star.kind = .star) (next : past [.whitespace] r' = second :: rest)
      (kind' : second.kind = .number) (large : second.number? = none) :
      CountRefused (first :: r) (.invalidNumber second.text) rest
  | atMost {star second : Token} {r rest : List Token} (kind : star.kind = .star)
      (next : past [.whitespace] r = second :: rest) (kind' : second.kind = .number)
      (large : second.number? = none) :
      CountRefused (star :: r) (.invalidNumber second.text) rest

/-- Reading the part at the front of the tokens is refused for the cause, and the rest is what it has
not taken yet. -/
inductive Refuses (size : Nat) : Part → List Token → CompileError → List Token → Prop where
  | ended {tokens : List Token} (nothing : past Token.Kind.inlineTrivia tokens = []) :
      Refuses size .element tokens .unexpectedEnd []
  | unsupported {tokens r : List Token} {token : Token}
      (first : past Token.Kind.inlineTrivia tokens = token :: r)
      (kind : token.kind.starts = false) :
      Refuses size .element tokens (.unsupportedToken token.kind token.offset) (token :: r)
  | literal {tokens rest : List Token} {token : Token} {cause : CompileError}
      (first : past Token.Kind.inlineTrivia tokens = token :: rest)
      (lexeme : Literal.ofLexeme? token.kind token.text = some (.error cause)) :
      Refuses size .element tokens cause rest
  | inside {tokens r rest : List Token} {left : Token} {right : Token.Kind} {cause : CompileError}
      (first : past Token.Kind.inlineTrivia tokens = left :: r)
      (kind : left.kind.closer? = some right) (inner : Refuses size .whole r cause rest) :
      Refuses size .element tokens cause rest
  | unclosed {tokens r r' : List Token} {left : Token} {right : Token.Kind} {e : Expression}
      (first : past Token.Kind.inlineTrivia tokens = left :: r)
      (kind : left.kind.closer? = some right) (inner : Spells (.whole e) r r')
      (last : headKind? (past Token.Kind.trivia r') ≠ some right) :
      Refuses size .element tokens (Token.missing right size (past Token.Kind.trivia r'))
        (past Token.Kind.trivia r')
  | count {tokens rest : List Token} {cause : CompileError}
      (count : CountRefused (past [.whitespace] tokens) cause rest) :
      Refuses size .operand tokens cause rest
  | counted {tokens r rest : List Token} {bounds : Bounds} {cause : CompileError}
      (count : Counts bounds (past [.whitespace] tokens) r)
      (inner : Refuses size .element r cause rest) : Refuses size .operand tokens cause rest
  | fold {tokens r rest : List Token} {line indent : Token} {cause : CompileError}
      (first : past Token.Kind.inlineTrivia tokens = line :: indent :: r)
      (kind : line.kind = .lineBreak) (kind' : indent.kind = .whitespace)
      (next : Refuses size .operands r cause rest) : Refuses size .operands tokens cause rest
  | first {tokens rest : List Token} {cause : CompileError}
      (goes : turn (past Token.Kind.inlineTrivia tokens) = .operand)
      (first : Refuses size .operand (past Token.Kind.inlineTrivia tokens) cause rest) :
      Refuses size .operands tokens cause rest
  | later {tokens r rest : List Token} {e : Expression} {cause : CompileError}
      (goes : turn (past Token.Kind.inlineTrivia tokens) = .operand)
      (first : Spells (.operand e) (past Token.Kind.inlineTrivia tokens) r)
      (next : Refuses size .operands r cause rest) : Refuses size .operands tokens cause rest
  | branch {tokens r rest : List Token} {mark : Token} {cause : CompileError}
      (first : past Token.Kind.inlineTrivia tokens = mark :: r) (kind : mark.kind = .slash)
      (branch : Refuses size .operands (past Token.Kind.inlineTrivia r) cause rest) :
      Refuses size .alternatives tokens cause rest
  | others {tokens r r' rest : List Token} {mark : Token} {es : List Expression}
      {cause : CompileError} (first : past Token.Kind.inlineTrivia tokens = mark :: r)
      (kind : mark.kind = .slash)
      (branch : Spells (.operands es) (past Token.Kind.inlineTrivia r) r')
      (next : Refuses size .alternatives r' cause rest) :
      Refuses size .alternatives tokens cause rest
  | start {tokens rest : List Token} {cause : CompileError}
      (branch : Refuses size .operands tokens cause rest) : Refuses size .whole tokens cause rest
  | rest {tokens r rest : List Token} {es : List Expression} {cause : CompileError}
      (branch : Spells (.operands es) tokens r)
      (next : Refuses size .alternatives r cause rest) : Refuses size .whole tokens cause rest

variable {tokens : List Token} {size : Nat} {stream : TokenStream} {cause : CompileError}

section Bounds

theorem readNumber_of_large {token : Token} (hkind : token.kind = .number)
    (hlarge : token.number? = none) (rest : List Token) (size : Nat) :
    readNumber ⟨token :: rest, size⟩ = .error (.invalidNumber token.text) ⟨rest, size⟩ := by
  have hnone : Text.unsigned? 10 Text.limit64 token.text = none := by
    rwa [Token.number?, if_pos hkind] at hlarge
  rw [readNumber, Reader.bind_of_ok (Reader.consume_cons hkind _ _), hnone]
  rfl

/-- Where a number is next, reading it is refused only because it is too large. -/
theorem readNumber_eq_error {token : Token} {rest : List Token} (hkind : token.kind = .number)
    (h : readNumber ⟨token :: rest, size⟩ = .error cause stream) :
    token.number? = none ∧ cause = .invalidNumber token.text ∧ stream = ⟨rest, size⟩ := by
  cases hnumber : token.number? with
  | none =>
    rw [readNumber_of_large hkind hnumber] at h
    cases h
    exact ⟨rfl, rfl, rfl⟩
  | some n =>
    rw [readNumber_eq_ok_iff.mpr ⟨token, rest, rfl, hnumber, rfl⟩] at h
    cases h

theorem readStar_apply {star : Token} (hkind : star.kind = .star) (r : List Token) (size : Nat) :
    readStar ⟨star :: r, size⟩ = .ok () ⟨past [.whitespace] r, size⟩ :=
  readStar_eq_ok_iff.mpr ⟨star, r, rfl, hkind, rfl⟩

theorem readMinimum_of_large {token : Token} (hkind : token.kind = .number)
    (hlarge : token.number? = none) (rest : List Token) (size : Nat) :
    readMinimum ⟨token :: rest, size⟩ = .error (.invalidNumber token.text) ⟨rest, size⟩ :=
  Reader.bind_of_error (readNumber_of_large hkind hlarge rest size) _

/-- Behind a star, the count is refused only for a number that is too large. -/
theorem readMaximum_eq_error {star : Token} {r : List Token} {min : Nat} (hstar : star.kind = .star)
    (h : readMaximum min ⟨star :: r, size⟩ = .error cause stream) :
    ∃ second rest, past [.whitespace] r = second :: rest ∧ second.kind = .number ∧
      second.number? = none ∧ cause = .invalidNumber second.text ∧ stream = ⟨rest, size⟩ := by
  rw [readMaximum, Reader.bind_of_ok (readStar_apply hstar r size),
    Reader.bind_of_ok (Reader.isAt_apply _ _ _)] at h
  split at h
  · rename_i hnumber
    obtain ⟨second, rest, hr, hkind⟩ := Token.exists_of_headKind? (of_decide_eq_true hnumber)
    rw [hr] at h
    rcases Reader.bind_eq_error h with h | ⟨_, _, -, h⟩
    · obtain ⟨hlarge, rfl, rfl⟩ := readNumber_eq_error hkind h
      exact ⟨second, rest, hr, hkind, hlarge, rfl, rfl⟩
    · cases h
  · cases h

theorem readMaximum_of_large {star second : Token} {r rest : List Token}
    (hstar : star.kind = .star) (hnext : past [.whitespace] r = second :: rest)
    (hkind : second.kind = .number) (hlarge : second.number? = none) (min size : Nat) :
    readMaximum min ⟨star :: r, size⟩ = .error (.invalidNumber second.text) ⟨rest, size⟩ := by
  have hhead : headKind? (second :: rest) = some .number := congrArg some hkind
  rw [readMaximum, Reader.bind_of_ok (readStar_apply hstar r size), hnext,
    Reader.bind_of_ok (Reader.isAt_apply _ _ _), if_pos (decide_eq_true hhead)]
  exact Reader.bind_of_error (readNumber_of_large hkind hlarge rest size) _

theorem countRefused_of_readCount (h : readCount ⟨tokens, size⟩ = .error cause stream) :
    ∃ rest, stream = ⟨rest, size⟩ ∧ CountRefused tokens cause rest := by
  have hstarred : ∀ {min : Nat} {r : List Token}, headKind? r = some .star →
      readMaximum min ⟨r, size⟩ = .error cause stream →
      ∃ star r' second rest, r = star :: r' ∧ star.kind = .star ∧
        past [.whitespace] r' = second :: rest ∧ second.kind = .number ∧ second.number? = none ∧
        cause = .invalidNumber second.text ∧ stream = ⟨rest, size⟩ := by
    intro min r hhead h
    obtain ⟨star, r', rfl, hstar⟩ := Token.exists_of_headKind? hhead
    obtain ⟨second, rest, hsecond⟩ := readMaximum_eq_error hstar h
    exact ⟨star, r', second, rest, rfl, hstar, hsecond⟩
  rw [readCount, Reader.bind_of_ok (Reader.isAt_apply _ _ _)] at h
  split at h
  · rename_i hnumber
    obtain ⟨first, r, rfl, hkind⟩ := Token.exists_of_headKind? (of_decide_eq_true hnumber)
    cases hvalue : first.number? with
    | none =>
      rw [Reader.bind_of_error (readMinimum_of_large hkind hvalue r size)] at h
      cases h
      exact ⟨r, rfl, .least hkind hvalue⟩
    | some min =>
      rw [Reader.bind_of_ok (readMinimum_eq_ok_iff.mpr ⟨first, r, rfl, hvalue, rfl⟩),
        Reader.bind_of_ok (Reader.isAt_apply _ _ _)] at h
      split at h
      · rename_i hstar
        obtain ⟨star, r', second, rest, hr, hkind, hnext, hkind', hlarge, rfl, rfl⟩ :=
          hstarred (of_decide_eq_true hstar) h
        exact ⟨rest, rfl, .greatest hvalue hr hkind hnext hkind' hlarge⟩
      · cases h
  · rw [Reader.bind_of_ok (Reader.isAt_apply _ _ _)] at h
    split at h
    · rename_i hstar
      obtain ⟨star, r', second, rest, rfl, hkind, hnext, hkind', hlarge, rfl, rfl⟩ :=
        hstarred (of_decide_eq_true hstar) h
      exact ⟨rest, rfl, .atMost hkind hnext hkind' hlarge⟩
    · cases h

theorem readCount_of_countRefused {rest : List Token} (h : CountRefused tokens cause rest)
    (size : Nat) : readCount ⟨tokens, size⟩ = .error cause ⟨rest, size⟩ := by
  have hhead : ∀ {kind : Token.Kind} {token : Token} {r : List Token}, token.kind = kind →
      decide (headKind? (token :: r) = some kind) = true :=
    fun hkind => decide_eq_true (congrArg some hkind)
  rw [readCount, Reader.bind_of_ok (Reader.isAt_apply _ _ _)]
  cases h with
  | least kind large =>
    rw [if_pos (hhead kind)]
    exact Reader.bind_of_error (readMinimum_of_large kind large _ size) _
  | greatest least mark kind next kind' large =>
    rw [if_pos (hhead (Token.exists_of_number? least).1),
      Reader.bind_of_ok (readMinimum_eq_ok_iff.mpr ⟨_, _, rfl, least, rfl⟩), mark,
      Reader.bind_of_ok (Reader.isAt_apply _ _ _), if_pos (hhead kind)]
    exact readMaximum_of_large kind next kind' large _ size
  | @atMost star second r rest kind next kind' large =>
    have hnumber : headKind? (star :: r) ≠ some .number := by
      rw [headKind?, List.head?_cons, Option.map_some, kind]
      decide
    rw [if_neg (by simpa using hnumber), Reader.bind_of_ok (Reader.isAt_apply _ _ _),
      if_pos (hhead kind)]
    exact readMaximum_of_large kind next kind' large _ size

end Bounds

section Soundness

/-- Where fewer tokens are left than the bound, the reader is refused only where the tokens are. -/
def RefusesBelow (inside : Reader Expression) (bound : Nat) : Prop :=
  ∀ (tokens : List Token) (size : Nat) (cause : CompileError) (stream : TokenStream),
    tokens.length < bound → inside ⟨tokens, size⟩ = .error cause stream →
    ∃ rest, stream = ⟨rest, size⟩ ∧ Refuses size .whole tokens cause rest

variable {inside : Reader Expression}

theorem RefusesBelow.mono {bound bound' : Nat} (h : RefusesBelow inside bound)
    (hle : bound' ≤ bound) : RefusesBelow inside bound' :=
  fun tokens size cause stream hlt => h tokens size cause stream (Nat.lt_of_lt_of_le hlt hle)

theorem ofLexeme?_ne_none {kind : Token.Kind} (h : kind.isLiteral = true) (text : Text) :
    Literal.ofLexeme? kind text ≠ none := by
  cases kind with
  | binary | decimal | hexadecimal | quoted | insensitiveQuoted | sensitiveQuoted => nofun
  | _ => cases h

theorem literal_read_eq_error {token : Token} {rest : List Token} (hkind : token.kind.isLiteral = true)
    (h : Literal.read ⟨token :: rest, size⟩ = .error cause stream) :
    Literal.ofLexeme? token.kind token.text = some (.error cause) ∧ stream = ⟨rest, size⟩ := by
  unfold Literal.read at h
  dsimp only at h
  cases hlexeme : Literal.ofLexeme? token.kind token.text with
  | none => exact absurd hlexeme (ofLexeme?_ne_none hkind _)
  | some result =>
    rw [hlexeme] at h
    cases result with
    | ok value => cases h
    | error cause' =>
      cases h
      exact ⟨rfl, rfl⟩

/-- Inside brackets the tokens are refused, or the closing bracket is missed behind them. -/
theorem refuses_of_readEnclosed {left : Token} {right : Token.Kind} {r : List Token}
    (hsound : Sound inside) (hinside : RefusesBelow inside (r.length + 1))
    (hfirst : past Token.Kind.inlineTrivia tokens = left :: r)
    (hkind : left.kind.closer? = some right)
    (h : readEnclosed inside left.kind right ⟨left :: r, size⟩ = .error cause stream) :
    ∃ rest, stream = ⟨rest, size⟩ ∧ Refuses size .element tokens cause rest := by
  rw [readEnclosed, Reader.bind_of_ok (Reader.consume_cons rfl _ _)] at h
  rcases Reader.bind_eq_error h with h | ⟨e, _, hinner, h⟩
  · obtain ⟨rest, rfl, hrefuses⟩ := hinside r size _ _ (Nat.lt_succ_self _) h
    exact ⟨rest, rfl, .inside hfirst hkind hrefuses⟩
  · obtain ⟨r', rfl, hspells⟩ := hsound _ _ _ _ hinner
    rw [Reader.bind_of_ok (Reader.skip_apply _ _ _)] at h
    rcases Reader.bind_eq_error h with h | ⟨_, _, -, h⟩
    · obtain ⟨hlast, rfl, rfl⟩ := Reader.consume_eq_error h
      exact ⟨_, rfl, .unclosed hfirst hkind hspells hlast⟩
    · cases h

theorem refuses_of_readElement (hsound : Sound inside) (hinside : RefusesBelow inside tokens.length)
    (h : readElement inside ⟨tokens, size⟩ = .error cause stream) :
    ∃ rest, stream = ⟨rest, size⟩ ∧ Refuses size .element tokens cause rest := by
  have hshort := length_past_le Token.Kind.inlineTrivia tokens
  cases hpast : past Token.Kind.inlineTrivia tokens with
  | nil =>
    rw [readElement, Reader.bind_of_ok (Reader.skip_apply _ _ _),
      Reader.bind_of_ok (Reader.get_apply _), hpast] at h
    cases h
    exact ⟨[], rfl, .ended hpast⟩
  | cons token r =>
    rw [hpast, List.length_cons] at hshort
    rw [readElement_of_past hpast] at h
    have hnested := hinside.mono hshort
    have hunsupported : token.kind.starts = false →
        ∃ rest, (⟨token :: r, size⟩ : TokenStream) = ⟨rest, size⟩ ∧
          Refuses size .element tokens (.unsupportedToken token.kind token.offset) rest :=
      fun hstarts => ⟨_, rfl, .unsupported hpast hstarts⟩
    by_cases hliteral : token.kind.isLiteral = true
    · rw [if_pos hliteral] at h
      rcases Reader.bind_eq_error h with h | ⟨_, _, -, h⟩
      · obtain ⟨hlexeme, rfl⟩ := literal_read_eq_error hliteral h
        exact ⟨r, rfl, .literal hpast hlexeme⟩
      · cases h
    · rw [if_neg hliteral] at h
      cases hkind : token.kind with
      | ident =>
        rw [hkind] at h
        dsimp only at h
        rw [Reader.bind_of_ok (Reader.consume_cons hkind _ _)] at h
        cases h
      | prose =>
        rw [hkind] at h
        dsimp only at h
        rw [Reader.bind_of_ok (Reader.consume_cons hkind _ _)] at h
        cases h
      | leftParen =>
        rw [hkind] at h
        rcases Reader.bind_eq_error h with h | ⟨_, _, -, h⟩
        · rw [← hkind] at h
          exact refuses_of_readEnclosed hsound hnested hpast (by rw [hkind]; rfl) h
        · cases h
      | leftBracket =>
        rw [hkind] at h
        rcases Reader.bind_eq_error h with h | ⟨_, _, -, h⟩
        · rw [← hkind] at h
          exact refuses_of_readEnclosed hsound hnested hpast (by rw [hkind]; rfl) h
        · cases h
      | binary | decimal | hexadecimal | quoted | insensitiveQuoted | sensitiveQuoted =>
        exact absurd (by rw [hkind]; rfl) hliteral
      | _ =>
        rw [hkind] at h hunsupported
        cases h
        exact hunsupported rfl

theorem refuses_of_readRepetition (hsound : Sound inside)
    (hinside : RefusesBelow inside tokens.length)
    (h : readRepetition inside ⟨tokens, size⟩ = .error cause stream) :
    ∃ rest, stream = ⟨rest, size⟩ ∧ Refuses size .operand tokens cause rest := by
  have hblank := headKind?_past_ne (List.mem_singleton_self Token.Kind.whitespace) tokens
  rw [readRepetition_eq, Reader.bind_of_ok (Reader.skip_apply _ _ _)] at h
  rcases Reader.bind_eq_error h with h | ⟨bounds, _, hbounds, h⟩
  · obtain ⟨rest, rfl, hcount⟩ := countRefused_of_readCount h
    exact ⟨rest, rfl, .count hcount⟩
  · rw [← readBounds_form hblank] at hbounds
    obtain ⟨r, rfl, hcounts⟩ := counts_of_readBounds hblank hbounds
    rcases Reader.bind_eq_error h with h | ⟨_, _, -, h⟩
    · have hshort := hcounts.suffix.length_le
      have hshort' := length_past_le [.whitespace] tokens
      obtain ⟨rest, rfl, hrefuses⟩ := refuses_of_readElement hsound (hinside.mono (by omega)) h
      exact ⟨rest, rfl, .counted hcounts hrefuses⟩
    · cases h

/-- The count of the steps is not what ends a sequence. -/
theorem refuses_of_readOperands (hsound : Sound inside) (hinside : RefusesBelow inside tokens.length)
    {count : Nat} (hcount : tokens.length < count)
    (h : readOperands inside count ⟨tokens, size⟩ = .error cause stream) :
    ∃ rest, stream = ⟨rest, size⟩ ∧ Refuses size .operands tokens cause rest := by
  induction count generalizing tokens with
  | zero => omega
  | succ count ih =>
    have hshort := length_past_le Token.Kind.inlineTrivia tokens
    rw [readOperands_succ] at h
    cases hturn : turn (past Token.Kind.inlineTrivia tokens) with
    | stop =>
      rw [hturn] at h
      cases h
    | fold =>
      rw [hturn] at h
      obtain ⟨line, indent, r, hpast, hline, hindent⟩ := turn_eq_fold_iff.mp hturn
      rw [hpast] at h hshort
      dsimp only at h
      rw [Reader.bind_of_ok (Reader.consume_cons hline _ _),
        Reader.bind_of_ok (Reader.consume_cons hindent _ _)] at h
      simp only [List.length_cons] at hshort
      obtain ⟨rest, rfl, hrefuses⟩ := ih (hinside.mono (by omega)) (by omega) h
      exact ⟨rest, rfl, .fold hpast hline hindent hrefuses⟩
    | operand =>
      rw [hturn] at h
      rcases Reader.bind_eq_error h with h | ⟨operand, _, hoperand, h⟩
      · obtain ⟨rest, rfl, hrefuses⟩ := refuses_of_readRepetition hsound (hinside.mono hshort) h
        exact ⟨rest, rfl, .first hturn hrefuses⟩
      · obtain ⟨r, rfl, hfirst⟩ := operand_of_readRepetition hsound hoperand
        have hless := hfirst.operand_length_lt
        rcases Reader.bind_eq_error h with h | ⟨_, _, -, h⟩
        · obtain ⟨rest, rfl, hrefuses⟩ := ih (hinside.mono (by omega)) (by omega) h
          exact ⟨rest, rfl, .later hturn hfirst hrefuses⟩
        · cases h

theorem refuses_of_readConcatenation (hsound : Sound inside)
    (hinside : RefusesBelow inside tokens.length)
    (h : readConcatenation inside ⟨tokens, size⟩ = .error cause stream) :
    ∃ rest, stream = ⟨rest, size⟩ ∧ Refuses size .operands tokens cause rest := by
  rw [readConcatenation, Reader.bind_of_ok (stepsLeft_apply _ _)] at h
  rcases Reader.bind_eq_error h with h | ⟨_, _, -, h⟩
  · exact refuses_of_readOperands hsound hinside (Nat.lt_succ_self _) h
  · cases h

theorem refuses_of_readAlternatives (hsound : Sound inside)
    (hinside : RefusesBelow inside tokens.length) {count : Nat} (hcount : tokens.length < count)
    (h : readAlternatives inside count ⟨tokens, size⟩ = .error cause stream) :
    ∃ rest, stream = ⟨rest, size⟩ ∧ Refuses size .alternatives tokens cause rest := by
  induction count generalizing tokens with
  | zero => omega
  | succ count ih =>
    by_cases hslash : headKind? (past Token.Kind.inlineTrivia tokens) = some .slash
    · obtain ⟨mark, r, hpast, hkind⟩ := Token.exists_of_headKind? hslash
      have hshort := (Token.suffix_of_past hpast).2
      have hshort' := length_past_le Token.Kind.inlineTrivia r
      rw [readAlternatives_of_slash hpast hkind] at h
      rcases Reader.bind_eq_error h with h | ⟨branch, _, hbranch, h⟩
      · obtain ⟨rest, rfl, hrefuses⟩ :=
          refuses_of_readConcatenation hsound (hinside.mono (by omega)) h
        exact ⟨rest, rfl, .branch hpast hkind hrefuses⟩
      · obtain ⟨es, r', -, rfl, hspells⟩ := operands_of_readConcatenation hsound hbranch
        have hless := hspells.length_le
        rcases Reader.bind_eq_error h with h | ⟨_, _, -, h⟩
        · obtain ⟨rest, rfl, hrefuses⟩ := ih (hinside.mono (by omega)) (by omega) h
          exact ⟨rest, rfl, .others hpast hkind hspells hrefuses⟩
        · cases h
    · rw [readAlternatives_of_ne hslash] at h
      cases h

theorem refusesBelow_readNested (depth : Nat) : RefusesBelow (readNested depth) depth := by
  induction depth with
  | zero => exact fun _ _ _ _ hlt => absurd hlt (Nat.not_lt_zero _)
  | succ depth ih =>
    intro tokens size cause stream hlt h
    have hsound := sound_readNested depth
    have hinside := ih.mono (Nat.le_of_lt_succ hlt)
    rcases Reader.bind_eq_error h with h | ⟨_, _, -, h⟩
    · rcases Reader.bind_eq_error h with h | ⟨branch, _, hbranch, h⟩
      · obtain ⟨rest, rfl, hrefuses⟩ := refuses_of_readConcatenation hsound hinside h
        exact ⟨rest, rfl, .start hrefuses⟩
      · obtain ⟨es, r, -, rfl, hspells⟩ := operands_of_readConcatenation hsound hbranch
        have hless := hspells.length_le
        rw [Reader.bind_of_ok (stepsLeft_apply _ _)] at h
        rcases Reader.bind_eq_error h with h | ⟨_, _, -, h⟩
        · obtain ⟨rest, rfl, hrefuses⟩ :=
            refuses_of_readAlternatives hsound (hinside.mono hless) (Nat.lt_succ_self _) h
          exact ⟨rest, rfl, .rest hspells hrefuses⟩
        · cases h
    · cases h

end Soundness

section Completeness

/-- The reader of the part is refused for the cause and leaves the rest, if its bounds cover the
tokens. -/
def RefusedBy (size : Nat) : Part → List Token → CompileError → List Token → Prop
  | .element, tokens, cause, rest => ∀ depth, tokens.length ≤ depth →
      readElement (readNested depth) ⟨tokens, size⟩ = .error cause ⟨rest, size⟩
  | .operand, tokens, cause, rest => ∀ depth, tokens.length ≤ depth →
      readRepetition (readNested depth) ⟨tokens, size⟩ = .error cause ⟨rest, size⟩
  | .operands, tokens, cause, rest => ∀ depth count, tokens.length ≤ depth →
      tokens.length < count →
      readOperands (readNested depth) count ⟨tokens, size⟩ = .error cause ⟨rest, size⟩
  | .alternatives, tokens, cause, rest => ∀ depth count, tokens.length ≤ depth →
      tokens.length < count →
      readAlternatives (readNested depth) count ⟨tokens, size⟩ = .error cause ⟨rest, size⟩
  | .whole, tokens, cause, rest => ∀ depth, tokens.length < depth →
      readNested depth ⟨tokens, size⟩ = .error cause ⟨rest, size⟩

theorem isLiteral_of_starts_eq_false {kind : Token.Kind} (h : kind.starts = false) :
    kind.isLiteral = false := by
  cases hliteral : kind.isLiteral with
  | false => rfl
  | true =>
    rw [Token.Kind.starts, (Token.Kind.leaf_of_isLiteral hliteral).1] at h
    cases h

theorem readConcatenation_of_refusedBy {tokens rest : List Token} {depth : Nat}
    (h : RefusedBy size .operands tokens cause rest) (hdepth : tokens.length ≤ depth) :
    readConcatenation (readNested depth) ⟨tokens, size⟩ = .error cause ⟨rest, size⟩ := by
  rw [readConcatenation, Reader.bind_of_ok (stepsLeft_apply _ _)]
  exact Reader.bind_of_error (h depth _ hdepth (Nat.lt_succ_self _)) _

/-- An opening bracket hands on what its inside or its closing bracket is refused for. -/
theorem readElement_of_bracket {inside : Reader Expression} {left : Token} {right : Token.Kind}
    {r : List Token} {rest : TokenStream} (hfirst : past Token.Kind.inlineTrivia tokens = left :: r)
    (hkind : left.kind.closer? = some right)
    (h : (do
      let _ ← inside
      Reader.skip Token.Kind.trivia
      Reader.consume right) ⟨r, size⟩ = .error cause rest) :
    readElement inside ⟨tokens, size⟩ = .error cause rest := by
  have henclosed : readEnclosed inside left.kind right ⟨left :: r, size⟩ = .error cause rest := by
    rw [readEnclosed, Reader.bind_of_ok (Reader.consume_cons rfl _ _)]
    rcases Reader.bind_eq_error h with h | ⟨e, s, hinner, h⟩
    · exact Reader.bind_of_error h _
    · rw [Reader.bind_of_ok hinner]
      rcases Reader.bind_eq_error h with h | ⟨_, s', hskip, h⟩
      · exact Reader.bind_of_error h _
      · rw [Reader.bind_of_ok hskip]
        exact Reader.bind_of_error h _
  rw [readElement_of_past hfirst]
  cases hleft : left.kind with
  | leftParen =>
    rw [hleft] at hkind henclosed
    cases hkind
    exact Reader.bind_of_error henclosed _
  | leftBracket =>
    rw [hleft] at hkind henclosed
    cases hkind
    exact Reader.bind_of_error henclosed _
  | _ =>
    rw [hleft] at hkind
    cases hkind

theorem Refuses.refusedBy {part : Part} {rest : List Token}
    (h : Refuses size part tokens cause rest) : RefusedBy size part tokens cause rest := by
  induction h with
  | ended nothing =>
    intro depth hdepth
    rw [readElement, Reader.bind_of_ok (Reader.skip_apply _ _ _),
      Reader.bind_of_ok (Reader.get_apply _), nothing]
    rfl
  | @unsupported tokens r token first kind =>
    intro depth hdepth
    rw [readElement_of_past first, isLiteral_of_starts_eq_false kind, if_neg (by decide)]
    cases hkind : token.kind with
    | whitespace | comment | lineBreak | equal | slash | star | number => rfl
    | rightParen | rightBracket => rfl
    | _ =>
      rw [hkind] at kind
      cases kind
  | literal first lexeme =>
    intro depth hdepth
    rw [readElement_of_past first, if_pos (isLiteral_of_ofLexeme? lexeme)]
    refine Reader.bind_of_error ?_ _
    unfold Literal.read
    dsimp only
    rw [lexeme]
  | inside first kind inner ih =>
    intro depth hdepth
    have hfirst := (Token.suffix_of_past first).2
    exact readElement_of_bracket first kind (Reader.bind_of_error (ih depth (by omega)) _)
  | @unclosed tokens r r' left right e first kind inner last =>
    intro depth hdepth
    have hfirst := (Token.suffix_of_past first).2
    refine readElement_of_bracket first kind ?_
    rw [Reader.bind_of_ok (inner.found size depth (by omega)),
      Reader.bind_of_ok (Reader.skip_apply _ _ _)]
    exact Reader.consume_of_ne last size
  | count count =>
    intro depth hdepth
    rw [readRepetition_eq, Reader.bind_of_ok (Reader.skip_apply _ _ _)]
    exact Reader.bind_of_error (readCount_of_countRefused count size) _
  | @counted tokens r rest bounds cause count inner ih =>
    intro depth hdepth
    have hblank := headKind?_past_ne (List.mem_singleton_self Token.Kind.whitespace) tokens
    have hbounds := readBounds_of_counts hblank count size
    have hshort := count.suffix.length_le
    have hshort' := length_past_le [.whitespace] tokens
    rw [readBounds_form hblank] at hbounds
    rw [readRepetition_eq, Reader.bind_of_ok (Reader.skip_apply _ _ _), Reader.bind_of_ok hbounds]
    exact Reader.bind_of_error (ih depth (by omega)) _
  | fold first kind kind' next ih =>
    intro depth count hdepth hcount
    obtain ⟨count, rfl⟩ := Nat.exists_eq_add_one_of_ne_zero (Nat.ne_zero_of_lt hcount)
    have hfirst := (Token.suffix_of_past first).2
    rw [List.length_cons] at hfirst
    rw [readOperands_succ, turn_eq_fold_iff.mpr ⟨_, _, _, first, kind, kind'⟩, first]
    dsimp only
    rw [Reader.bind_of_ok (Reader.consume_cons kind _ _),
      Reader.bind_of_ok (Reader.consume_cons kind' _ _)]
    exact ih depth count (by omega) (by omega)
  | @first tokens rest cause goes first ih =>
    intro depth count hdepth hcount
    obtain ⟨count, rfl⟩ := Nat.exists_eq_add_one_of_ne_zero (Nat.ne_zero_of_lt hcount)
    have hshort := length_past_le Token.Kind.inlineTrivia tokens
    rw [readOperands_succ, goes]
    exact Reader.bind_of_error (ih depth (by omega)) _
  | @later tokens r rest e cause goes first next ih =>
    intro depth count hdepth hcount
    obtain ⟨count, rfl⟩ := Nat.exists_eq_add_one_of_ne_zero (Nat.ne_zero_of_lt hcount)
    have hshort := length_past_le Token.Kind.inlineTrivia tokens
    have hfirst := first.operand_length_lt
    obtain ⟨e', -, hread⟩ := first.found size depth (by omega)
    rw [readOperands_succ, goes]
    dsimp only
    rw [Reader.bind_of_ok hread]
    exact Reader.bind_of_error (ih depth count (by omega) (by omega)) _
  | @branch tokens r rest mark cause first kind branch ih =>
    intro depth count hdepth hcount
    obtain ⟨count, rfl⟩ := Nat.exists_eq_add_one_of_ne_zero (Nat.ne_zero_of_lt hcount)
    have hfirst := (Token.suffix_of_past first).2
    have hshort := length_past_le Token.Kind.inlineTrivia r
    rw [readAlternatives_of_slash first kind]
    exact Reader.bind_of_error (readConcatenation_of_refusedBy ih (by omega)) _
  | @others tokens r r' rest mark es cause first kind branch next ih =>
    intro depth count hdepth hcount
    obtain ⟨count, rfl⟩ := Nat.exists_eq_add_one_of_ne_zero (Nat.ne_zero_of_lt hcount)
    have hfirst := (Token.suffix_of_past first).2
    have hshort := length_past_le Token.Kind.inlineTrivia r
    have hbranch := branch.length_le
    rw [readAlternatives_of_slash first kind,
      Reader.bind_of_ok (readConcatenation_of_found branch.found (by omega))]
    exact Reader.bind_of_error (ih depth count (by omega) (by omega)) _
  | start branch ih =>
    intro depth hdepth
    obtain ⟨depth, rfl⟩ := Nat.exists_eq_add_one_of_ne_zero (Nat.ne_zero_of_lt hdepth)
    have hbranch := readConcatenation_of_refusedBy ih (Nat.le_of_lt_succ hdepth)
    exact Reader.bind_of_error (Reader.bind_of_error hbranch _) _
  | @rest tokens r rest es cause branch next ih =>
    intro depth hdepth
    obtain ⟨depth, rfl⟩ := Nat.exists_eq_add_one_of_ne_zero (Nat.ne_zero_of_lt hdepth)
    have hbranch := branch.length_le
    refine Reader.bind_of_error ?_ _
    rw [readAlternation, Reader.bind_of_ok (readConcatenation_of_found branch.found (by omega)),
      Reader.bind_of_ok (stepsLeft_apply _ _)]
    exact Reader.bind_of_error (ih depth _ (by omega) (Nat.lt_succ_self _)) _

end Completeness

/-- Reading a right-hand side is refused exactly where the tokens are, for the same cause and with the
same rest. -/
theorem read_eq_error_iff : read ⟨tokens, size⟩ = .error cause stream ↔
    ∃ rest, stream = ⟨rest, size⟩ ∧ Refuses size .whole tokens cause rest := by
  have hread : read ⟨tokens, size⟩ = readNested (tokens.length + 1) ⟨tokens, size⟩ := rfl
  rw [hread]
  constructor
  · exact refusesBelow_readNested _ _ _ _ _ (Nat.lt_succ_self _)
  · rintro ⟨rest, rfl, h⟩
    exact h.refusedBy _ (Nat.lt_succ_self _)

end Expression

end AugmentedBnf
