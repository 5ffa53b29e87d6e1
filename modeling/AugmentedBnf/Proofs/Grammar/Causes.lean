import AugmentedBnf.Proofs.Grammar.Progress
import AugmentedBnf.Proofs.Literal.Numeric

/-! # Causes of refusal tell the truth

A cause names a kind, an offset or a text. Here is what each of them says about the tokens of the
source. Every look at a token is made behind the trivia that may stand there, so what is named is never
a blank or a comment, and a line break only where an element is missing behind its count.
-/
namespace AugmentedBnf

open Token (past headKind? past_suffix)
open Expression (Part Counts CountRefused turn)

/-- The part stands in the text of a numeric token, between the mark of the base, a point or a dash in
front and a point, a dash or the end behind. -/
def Token.Delimits (text part : Text) : Prop :=
  ∃ before after, text = before ++ (part ++ after) ∧
    ((∃ mark, before = ['%', mark]) ∨ ∃ c ∈ before.getLast?, isJoint c = true) ∧
    ∀ c ∈ after.head?, isJoint c = true

/-- A count stands in front of the tokens, perhaps with blanks in between. -/
def Expression.BehindCount (all tokens : List Token) : Prop :=
  ∃ bounds counted, counted <:+ all ∧ Counts bounds counted tokens ∧
    tokens.length < counted.length

namespace CompileError

/-- What a cause says about the tokens of a source and those that are left where it arises. -/
inductive Truthful (size : Nat) (all : List Token) : CompileError → (left : List Token) → Prop where
  /-- Another token, which is no trivia, stands in the place of a required one. -/
  | found {wanted : Token.Kind} {token : Token} {rest : List Token}
      (required : wanted ∈ [.ident, .equal, .rightParen, .rightBracket])
      (left : token :: rest <:+ all) (significant : token.kind.isTrivia = false)
      (other : token.kind ≠ wanted) :
      Truthful size all (.expected wanted (some token.kind) token.offset) (token :: rest)
  /-- No token is left in the place of a required one. -/
  | missed {wanted : Token.Kind} (required : wanted ∈ [.ident, .equal, .rightParen, .rightBracket]) :
      Truthful size all (.expected wanted none size) []
  /-- A token that starts no element, and is no trivia, stands in the place of one. -/
  | unsupported {token : Token} {rest : List Token} (left : token :: rest <:+ all)
      (significant : token.kind.isTrivia = false) (kind : token.kind.starts = false) :
      Truthful size all (.unsupportedToken token.kind token.offset) (token :: rest)
  /-- The line ends behind a count. -/
  | lineEnds {tokens rest : List Token} {line : Token}
      (behind : Expression.BehindCount all tokens)
      (next : past Token.Kind.inlineTrivia tokens = line :: rest) (kind : line.kind = .lineBreak) :
      Truthful size all (.unsupportedToken .lineBreak line.offset) (line :: rest)
  /-- The text ends behind a count. -/
  | textEnds {tokens : List Token} (behind : Expression.BehindCount all tokens)
      (nothing : past Token.Kind.inlineTrivia tokens = []) : Truthful size all .unexpectedEnd []
  /-- A numeric token spells no range. -/
  | range {token : Token} {left : List Token} (token_mem : token ∈ all)
      (numeric : token.kind.radix?.isSome = true) : Truthful size all (.invalidRange token.text) left
  /-- The number of a count is too large. -/
  | number {token : Token} {left : List Token} (token_mem : token ∈ all)
      (kind : token.kind = .number) : Truthful size all (.invalidNumber token.text) left
  /-- A value of a numeric token is too large or is no value. -/
  | value {token : Token} {part : Text} {left : List Token} (token_mem : token ∈ all)
      (numeric : token.kind.radix?.isSome = true) (delimits : Token.Delimits token.text part) :
      Truthful size all (.invalidNumber part) left

end CompileError

open CompileError (Truthful)

section Numeric

variable {radix : Nat} {text : Text} {cause : CompileError}

/-- A point stands between a segment and those in front of it and behind it. -/
theorem Text.exists_join_append (before after : List Text) (part : Text) :
    ∃ front back, join ['.'] (before ++ part :: after) = front ++ (part ++ back) ∧
      (front = [] ∨ front.getLast? = some '.') ∧ ∀ c ∈ back.head?, c = '.' := by
  induction before with
  | nil =>
    cases after with
    | nil => exact ⟨[], [], (List.append_nil part).symm, .inl rfl, nofun⟩
    | cons next after =>
      refine ⟨[], '.' :: join ['.'] (next :: after), ?_, .inl rfl, ?_⟩
      · rw [List.nil_append, List.nil_append, join_cons (List.cons_ne_nil next after),
          List.append_assoc, List.singleton_append]
      · rintro c ⟨⟩
        rfl
  | cons first before ih =>
    obtain ⟨front, back, hjoin, hfront, hback⟩ := ih
    refine ⟨first ++ '.' :: front, back, ?_, .inr ?_, hback⟩
    · have hne := List.append_ne_nil_of_right_ne_nil before (List.cons_ne_nil part after)
      rw [List.cons_append, join_cons hne, hjoin, List.append_assoc, List.append_assoc]
      rfl
    · rcases hfront with rfl | hlast
      · simp
      · rw [List.getLast?_append, List.getLast?_cons, hlast]
        rfl

/-- A value that is blamed stands between the marks that divide the segment. -/
theorem Literal.delimits_of_blames {whole front part back : Text}
    (hwhole : whole = front ++ (part ++ back))
    (hfront : (∃ mark, front = ['%', mark]) ∨ ∃ c ∈ front.getLast?, Token.isJoint c = true)
    (hback : ∀ c ∈ back.head?, Token.isJoint c = true) (h : Blames radix whole part cause) :
    cause = .invalidRange whole ∨ ∃ value, cause = .invalidNumber value ∧
      Token.Delimits whole value := by
  cases h with
  | @start start behind hstart hbehind hlarge =>
    refine .inr ⟨start, rfl, front, behind ++ back, by rw [hwhole, List.append_assoc], hfront, ?_⟩
    intro c hc
    rcases hbehind with rfl | hdash
    · exact hback c hc
    · rw [List.head?_append, hdash] at hc
      cases hc
      rfl
  | @stop start stop hstart hfits hlarge =>
    refine .inr ⟨stop, rfl, front ++ start ++ ['-'], back, ?_, .inr ⟨'-', ?_, rfl⟩, hback⟩
    · rw [hwhole]
      simp
    · rw [List.getLast?_append]
      rfl
  | range => exact .inl rfl

theorem Literal.exists_radix_of_error {kind : Token.Kind}
    (h : ofLexeme? kind text = some (.error cause)) :
    ∃ radix, kind.radix? = some radix ∧ numeric radix text = .error cause := by
  cases kind with
  | binary | decimal | hexadecimal => exact ⟨_, rfl, Option.some.inj h⟩
  | _ => cases h

/-- A terminal value is refused only if it is numeric, with its whole text or with a value in it. -/
theorem Literal.delimits_of_ofLexeme? {kind : Token.Kind} (hpattern : text ∈ kind.pattern)
    (h : ofLexeme? kind text = some (.error cause)) :
    kind.radix?.isSome = true ∧ (cause = .invalidRange text ∨
      ∃ value, cause = .invalidNumber value ∧ Token.Delimits text value) := by
  obtain ⟨radix, hradix, hnumeric⟩ := exists_radix_of_error h
  refine ⟨by rw [hradix]; rfl, ?_⟩
  obtain ⟨f, mark, body, hf, htext, hdrop, hdashed⟩ := exists_segments hradix hpattern
  rw [numeric, hdrop, Option.getD_some] at hnumeric
  rcases mapM_segment_of_dashed hf hdashed text with
    ⟨sets, hsets, -⟩ | ⟨before, bad, after, cause', herror, hparts, -, hblames⟩
  · rw [hsets] at hnumeric
    cases hnumeric
  · rw [herror] at hnumeric
    cases hnumeric
    obtain ⟨front, back, hjoin, hfront, hback⟩ := Text.exists_join_append before after bad
    rw [← hparts, Text.join_splitAt] at hjoin
    have hwhole : text = ('%' :: mark :: front) ++ (bad ++ back) := by rw [htext, hjoin]; rfl
    refine delimits_of_blames hwhole ?_ (fun c hc => by rw [hback c hc]; rfl) hblames
    rcases hfront with rfl | hlast
    · exact .inl ⟨mark, rfl⟩
    · refine .inr ⟨'.', ?_, rfl⟩
      rw [List.getLast?_cons, List.getLast?_cons, hlast]
      rfl

end Numeric

section Tokens

variable {size : Nat} {all tokens r left : List Token} {token : Token} {cause : CompileError}

theorem Token.significant_of_past (h : past Kind.trivia tokens = token :: r) :
    token.kind.isTrivia = false := by
  cases htrivia : token.kind.isTrivia with
  | false => rfl
  | true => exact absurd ((Kind.mem_trivia_iff _).mpr htrivia) (not_mem_of_past h)

/-- An element in sequence starts with no trivia: a line break folds or ends the sequence. -/
theorem Expression.exists_significant_of_turn
    (h : turn (past Token.Kind.inlineTrivia tokens) = .operand) :
    ∃ token rest, past Token.Kind.inlineTrivia tokens = token :: rest ∧
      token.kind.isTrivia = false := by
  cases hpast : past Token.Kind.inlineTrivia tokens with
  | nil =>
    rw [hpast] at h
    cases h
  | cons token rest =>
    rw [hpast] at h
    have hinline := Token.not_mem_of_past hpast
    refine ⟨token, rest, rfl, ?_⟩
    cases hkind : token.kind with
    | whitespace | comment => exact absurd (by rw [hkind]; decide) hinline
    | lineBreak =>
      rw [turn_lineBreak hkind] at h
      split at h <;> cases h
    | _ => rfl

/-- What is required and missing is named with what stands in its place. -/
theorem CompileError.Truthful.of_missing {wanted : Token.Kind}
    (hrequired : wanted ∈ [.ident, .equal, .rightParen, .rightBracket])
    (hsuffix : past Token.Kind.trivia tokens <:+ all)
    (hmissing : headKind? (past Token.Kind.trivia tokens) ≠ some wanted) :
    Truthful size all (Token.missing wanted size (past Token.Kind.trivia tokens))
      (past Token.Kind.trivia tokens) := by
  cases hpast : past Token.Kind.trivia tokens with
  | nil => exact .missed hrequired
  | cons token rest =>
    rw [hpast] at hsuffix hmissing
    exact .found hrequired hsuffix (Token.significant_of_past hpast)
      fun heq => hmissing (congrArg some heq)

theorem Token.mem_of_past {kinds : List Kind} (h : past kinds tokens = token :: r)
    (hsuffix : tokens <:+ all) : token ∈ all :=
  ((h ▸ past_suffix kinds tokens).trans hsuffix).mem List.mem_cons_self

theorem Expression.CountRefused.truthful (h : CountRefused tokens cause left)
    (hsuffix : tokens <:+ all) : Truthful size all cause left := by
  cases h with
  | least kind large => exact .number (hsuffix.mem List.mem_cons_self) kind
  | greatest least mark kind next kind' large =>
    have hr := (List.suffix_cons _ _).trans hsuffix
    have hr' := (Token.suffix_of_past mark).1.trans hr
    exact .number (Token.mem_of_past next hr') kind'
  | atMost kind next kind' large =>
    have hr := (List.suffix_cons _ _).trans hsuffix
    exact .number (Token.mem_of_past next hr) kind'

end Tokens

namespace Expression

variable {size : Nat} {all tokens r left : List Token} {cause : CompileError}

/-- How reading comes to a part: an element in sequence starts with no trivia, and behind its count
anything may stand. -/
def Reached (all : List Token) : Part → List Token → Prop
  | .element, tokens => tokens <:+ all ∧ (BehindCount all tokens ∨
      ∃ token rest, tokens = token :: rest ∧ token.kind.isTrivia = false)
  | .operand, tokens => tokens <:+ all ∧
      ∃ token rest, tokens = token :: rest ∧ token.kind.isTrivia = false
  | _, tokens => tokens <:+ all

theorem past_of_significant {kinds : List Token.Kind} {token : Token}
    (hkinds : ∀ kind ∈ kinds, kind.isTrivia = true) (h : token.kind.isTrivia = false)
    (rest : List Token) : past kinds (token :: rest) = token :: rest := by
  have hnot : token.kind ∉ kinds := fun hmem => by
    cases h.symm.trans (hkinds _ hmem)
  rw [Token.past_cons, if_neg hnot]

/-- Behind the count of an element in sequence an element is reached. -/
theorem Reached.element {bounds : Bounds} (h : Reached all .operand tokens)
    (hcount : Counts bounds (past [.whitespace] tokens) r) : Reached all .element r := by
  obtain ⟨hsuffix, token, rest, rfl, hsignificant⟩ := h
  rw [past_of_significant (by decide) hsignificant] at hcount
  refine ⟨hcount.suffix.trans hsuffix, ?_⟩
  rcases Nat.lt_or_eq_of_le hcount.suffix.length_le with hless | heq
  · exact .inl ⟨bounds, _, hsuffix, hcount, hless⟩
  · exact .inr ⟨token, rest, hcount.suffix.eq_of_length heq, hsignificant⟩

theorem Reached.operand (h : tokens <:+ all)
    (hgoes : turn (past Token.Kind.inlineTrivia tokens) = .operand) :
    Reached all .operand (past Token.Kind.inlineTrivia tokens) :=
  ⟨(past_suffix _ _).trans h, exists_significant_of_turn hgoes⟩

/-- Whatever part is refused, the cause tells the truth about the tokens. -/
theorem Refuses.truthful {part : Part} (h : Refuses size part tokens cause left)
    (hall : ∀ token ∈ all, token.text ∈ token.kind.pattern) (hreached : Reached all part tokens) :
    Truthful size all cause left := by
  have hinline : ∀ kind ∈ Token.Kind.inlineTrivia, kind.isTrivia = true := by decide
  induction h with
  | ended nothing =>
    obtain ⟨-, hbehind | ⟨token, rest, rfl, hsignificant⟩⟩ := hreached
    · exact .textEnds hbehind nothing
    · rw [past_of_significant hinline hsignificant] at nothing
      cases nothing
  | @unsupported tokens r token first kind =>
    obtain ⟨hsuffix, hbehind⟩ := hreached
    have hleft := first ▸ (past_suffix Token.Kind.inlineTrivia tokens).trans hsuffix
    by_cases hline : token.kind = .lineBreak
    · rcases hbehind with hbehind | ⟨next, rest, rfl, hsignificant⟩
      · rw [hline]
        exact .lineEnds hbehind first hline
      · rw [past_of_significant hinline hsignificant] at first
        cases first
        rw [hline] at hsignificant
        cases hsignificant
    · have hnot := Token.not_mem_of_past first
      refine .unsupported hleft ?_ kind
      cases hkind : token.kind with
      | whitespace | comment => exact absurd (by rw [hkind]; decide) hnot
      | lineBreak => exact absurd hkind hline
      | _ => rfl
  | literal first lexeme =>
    have hmem := Token.mem_of_past first hreached.1
    obtain ⟨hnumeric, rfl | ⟨value, rfl, hdelimits⟩⟩ :=
      Literal.delimits_of_ofLexeme? (hall _ hmem) lexeme
    · exact .range hmem hnumeric
    · exact .value hmem hnumeric hdelimits
  | inside first kind inner ih => exact ih ((Token.suffix_of_past first).1.trans hreached.1)
  | @unclosed tokens r r' left right e first kind inner last =>
    have hrequired : right ∈ [Token.Kind.ident, .equal, .rightParen, .rightBracket] := by
      cases hleft : left.kind <;> rw [hleft] at kind <;> cases kind <;> decide
    have hsuffix := inner.suffix.trans ((Token.suffix_of_past first).1.trans hreached.1)
    exact .of_missing hrequired ((past_suffix _ _).trans hsuffix) last
  | count count => exact count.truthful ((past_suffix _ _).trans hreached.1)
  | counted count inner ih => exact ih (hreached.element count)
  | fold first kind kind' next ih =>
    exact ih ((List.suffix_cons _ _).trans ((Token.suffix_of_past first).1.trans hreached))
  | first goes first ih => exact ih (.operand hreached goes)
  | later goes first next ih =>
    exact ih (first.suffix.trans ((past_suffix _ _).trans hreached))
  | branch first kind branch ih =>
    exact ih ((past_suffix _ _).trans ((Token.suffix_of_past first).1.trans hreached))
  | others first kind branch next ih =>
    have hafter := (Token.suffix_of_past first).1.trans hreached
    exact ih (branch.suffix.trans ((past_suffix _ _).trans hafter))
  | start branch ih => exact ih hreached
  | rest branch next ih => exact ih (branch.suffix.trans hreached)

end Expression

namespace RuleTable

variable {size : Nat} {all tokens left : List Token} {rules : RuleTable} {cause : CompileError}

theorem Refuses.truthful (h : Refuses size rules tokens cause left)
    (hall : ∀ token ∈ all, token.text ∈ token.kind.pattern) (hsuffix : tokens <:+ all)
    (hpast : past Token.Kind.trivia tokens = tokens) : Truthful size all cause left := by
  induction h with
  | @here rules tokens rest cause hopen first =>
    cases first with
    | name first =>
      rw [← hpast] at first hsuffix ⊢
      exact .of_missing (by decide) hsuffix first
    | equal ident next =>
      have hafter := (List.suffix_cons _ _).trans hsuffix
      exact .of_missing (by decide) ((past_suffix _ _).trans hafter) next
    | body begins body =>
      exact body.truthful hall
        ((Rule.passes_bodyTokens _ _).suffix.trans (begins.suffix.1.trans hsuffix))
  | later first others ih => exact ih (first.suffix.trans hsuffix) first.past_eq

end RuleTable

theorem Grammar.compile_eq_error_iff {mode : Mode} {text : Text} {cause : CompileError} :
    compile mode text = .error cause ↔ RuleTable.ofSource (mode.normalize text) = .error cause := by
  unfold compile ofSource
  cases RuleTable.ofSource (mode.normalize text) <;> simp [bind, Except.bind, pure, Except.pure]

theorem CompileError.Truthful.ne_unexpectedCharacter {size offset : Nat} {all left : List Token}
    {cause : CompileError} (h : Truthful size all cause left) :
    cause ≠ .unexpectedCharacter offset := by
  rintro rfl
  cases h

/-- A character is named exactly if the source cannot be cut into tokens. Any other cause tells the
truth about the tokens: about the place in front of those that are left, or about the text of one of
them. -/
theorem compile_error_truthful {mode : Mode} {text : Text} {cause : CompileError}
    (h : Grammar.compile mode text = .error cause) :
    ((∃ offset, cause = .unexpectedCharacter offset) ↔
      ∃ found, Token.scan (mode.normalize text) = .error found) ∧
    ∀ tokens, Token.scan (mode.normalize text) = .ok tokens →
      Token.Munches (mode.normalize text) 0 (mode.normalize text).byteSize tokens ∧
      ∃ left, RuleTable.read ⟨tokens, (mode.normalize text).byteSize⟩ =
          .error cause ⟨left, (mode.normalize text).byteSize⟩ ∧
        Truthful (mode.normalize text).byteSize tokens cause left := by
  rcases RuleTable.ofSource_eq_error_iff.mp (Grammar.compile_eq_error_iff.mp h) with
    hscan | ⟨tokens, left, hscan, hrefuses⟩
  · obtain ⟨offset, _, rfl, -⟩ := Token.stuck_of_scan hscan
    refine ⟨⟨fun _ => ⟨_, hscan⟩, fun _ => ⟨offset, rfl⟩⟩, fun tokens htokens => ?_⟩
    cases hscan.symm.trans htokens
  · have hmunches := Token.munches_of_scan hscan
    have htruthful := hrefuses.truthful (fun token htoken => (hmunches.2 token htoken).pattern)
      (past_suffix _ tokens) (Token.past_past _ tokens)
    refine ⟨⟨?_, ?_⟩, fun tokens' htokens => ?_⟩
    · rintro ⟨offset, heq⟩
      exact absurd heq htruthful.ne_unexpectedCharacter
    · rintro ⟨found, hfound⟩
      cases hscan.symm.trans hfound
    · cases hscan.symm.trans htokens
      exact ⟨hmunches, left, RuleTable.read_eq_error_iff.mpr ⟨left, rfl, hrefuses⟩, htruthful⟩

/-- A count at the end of its line is refused for the line break behind it. -/
theorem compile_error_truthful_line_end : ∃ tokens left,
    Token.scan ['a', ' ', '=', ' ', '2', '\n', ')'] = .ok tokens ∧
      Truthful 7 tokens (.unsupportedToken .lineBreak 5) left := by
  have hrefused : Grammar.compile .strict ['a', ' ', '=', ' ', '2', '\n', ')'] =
      .error (.unsupportedToken .lineBreak 5) := by decide
  obtain ⟨-, htruthful⟩ := compile_error_truthful hrefused
  cases hscan : Token.scan ['a', ' ', '=', ' ', '2', '\n', ')'] with
  | error cause => cases hscan
  | ok tokens =>
    obtain ⟨-, left, -, hleft⟩ := htruthful tokens hscan
    exact ⟨tokens, left, rfl, hleft⟩

/-- So the token that is named need not be significant. -/
theorem not_significant_of_unsupported : ¬ ∀ (mode : Mode) (text : Text) (kind : Token.Kind) offset,
    Grammar.compile mode text = .error (.unsupportedToken kind offset) →
      kind.isTrivia = false ∧ kind.starts = false := by
  intro h
  have hrefused : Grammar.compile .strict ['a', ' ', '=', ' ', '2', '\n', ')'] =
      .error (.unsupportedToken .lineBreak 5) := by decide
  cases (h _ _ _ _ hrefused).1

end AugmentedBnf
