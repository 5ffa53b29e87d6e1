import AugmentedBnf.Proofs.Expression.Folds
import AugmentedBnf.Proofs.Grammar.Definitions

/-! # Which text a definition takes

The right-hand side of a new name is read from where it starts, and that of a known name from behind
all trivia. Both ways lead to the same place, because continued lines are trivia too, with one
exception: a right-hand side with nothing on its line. A new name gets an empty right-hand side then,
while a known name goes on to the next line that holds something.
-/
namespace AugmentedBnf

open Token (past headKind? past_past length_past_le pastFolds past_trivia_pastFolds
  pastFolds_eq_past_trivia)
open Expression (Spells)

namespace Rule

/-- The front of the tokens is a name and its assignment, and the right-hand side is behind them. -/
inductive Begins : List Token → Text → List Token → Prop where
  | intro {name equal : Token} {r r' : List Token} (ident : name.kind = .ident)
      (next : past Token.Kind.trivia r = equal :: r') (sign : equal.kind = .equal) :
      Begins (name :: r) name.text.upper (Token.afterIncrement r')

/-- Nothing stands on the line of a right-hand side, and a later line starts with something that a
right-hand side can start with. -/
def OnLaterLine (tokens : List Token) : Prop :=
  headKind? (pastFolds tokens) = some .lineBreak ∧
    headKind? (past Token.Kind.trivia tokens) ∉ [none, some .rightParen, some .rightBracket]

instance (tokens : List Token) : Decidable (OnLaterLine tokens) :=
  inferInstanceAs (Decidable (_ ∧ _))

/-- With either table the definition is refused for the same cause, or it is read as the same name
with the same right-hand side and leaves the same rest, and the branches of that right-hand side are
the last branches of both results. -/
inductive TakesSameText (rules rules' : RuleTable) (stream : TokenStream) : Prop where
  | refused {cause : CompileError} {rest rest' : TokenStream}
      (first : read rules stream = .error cause rest)
      (second : read rules' stream = .error cause rest')
  | taken {name : Text} {e : Expression} {rest : TokenStream}
      (first : read rules stream = .ok ⟨name, rules.bodyWith name e⟩ rest)
      (second : read rules' stream = .ok ⟨name, rules'.bodyWith name e⟩ rest)
      (defines : Defines (rules.find? name).isSome stream.tokens name e rest.tokens)
      (defines' : Defines (rules'.find? name).isSome stream.tokens name e rest.tokens)
      (ends : e.branches <:+ (rules.bodyWith name e).branches)
      (ends' : e.branches <:+ (rules'.bodyWith name e).branches)

variable {tokens b rest : List Token} {name : Text} {e : Expression} {size : Nat} {known : Bool}
  {rules rules' : RuleTable}

theorem Begins.unique {name' : Text} {b' : List Token} (h : Begins tokens name b)
    (h' : Begins tokens name' b') : name = name' ∧ b = b' := by
  cases h with
  | intro ident next sign =>
    cases h' with
    | intro ident' next' sign' =>
      obtain ⟨-, rfl⟩ := List.cons_eq_cons.mp (next.symm.trans next')
      exact ⟨rfl, rfl⟩

theorem Begins.suffix (h : Begins tokens name b) : b <:+ tokens ∧ b.length < tokens.length := by
  cases h with
  | @intro name equal r r' ident next sign =>
    have hafter := (Token.passes_afterIncrement r').suffix.trans (Token.suffix_of_past next).1
    exact ⟨hafter.trans (List.suffix_cons name r), Nat.lt_succ_of_le hafter.length_le⟩

theorem Begins.defines (h : Begins tokens name b)
    (hspells : Spells (.whole e) (bodyTokens known b) rest) :
    Defines known tokens name e (past Token.Kind.trivia rest) := by
  cases h with
  | intro ident next sign => exact .intro ident next sign hspells

theorem Defines.exists_spells (h : Defines known tokens name e rest) :
    ∃ b r, Begins tokens name b ∧ Spells (.whole e) (bodyTokens known b) r ∧
      rest = past Token.Kind.trivia r := by
  cases h with
  | intro ident next sign body => exact ⟨_, _, .intro ident next sign, body, rfl⟩

theorem read_of_begins (h : Begins tokens name b) (rules : RuleTable) (size : Nat) :
    read rules ⟨tokens, size⟩ = (do
      let body ← readBody (rules.find? name)
      Reader.skip Token.Kind.trivia
      return ⟨name, body⟩ : Reader Rule) ⟨b, size⟩ := by
  cases h with
  | intro ident next sign =>
    rw [read, Reader.bind_of_ok (Reader.consume_cons ident _ _),
      Reader.bind_of_ok (Reader.skip_apply _ _ _), next,
      Reader.bind_of_ok (Reader.consume_cons sign _ _),
      Reader.bind_of_ok (skipIncrement_apply _ _)]

/-- What is no definition up to its right-hand side is refused without a look at the table. -/
theorem exists_error_of_not_begins (h : ∀ name b, ¬ Begins tokens name b) (size : Nat) :
    ∃ cause rest, ∀ rules, read rules ⟨tokens, size⟩ = .error cause rest := by
  cases hname : Reader.consume .ident ⟨tokens, size⟩ with
  | error cause rest => exact ⟨cause, rest, fun rules => Reader.bind_of_error hname _⟩
  | ok text stream =>
    obtain ⟨ident, r, rfl, hident, rfl, rfl⟩ := Reader.consume_eq_ok_iff.mp hname
    cases hsign : Reader.consume .equal ⟨past Token.Kind.trivia r, size⟩ with
    | error cause rest =>
      refine ⟨cause, rest, fun rules => ?_⟩
      rw [read, Reader.bind_of_ok hname, Reader.bind_of_ok (Reader.skip_apply _ _ _),
        Reader.bind_of_error hsign]
    | ok sign stream =>
      obtain ⟨equal, r', hnext, hequal, -, -⟩ := Reader.consume_eq_ok_iff.mp hsign
      exact absurd (.intro hident hnext hequal) (h _ _)

theorem read_eq_error (h : Begins tokens name b) {cause : CompileError} {stream : TokenStream}
    (hread : Expression.read ⟨bodyTokens (rules.find? name).isSome b, size⟩ = .error cause stream) :
    read rules ⟨tokens, size⟩ = .error cause stream := by
  rw [read_of_begins h]
  refine Reader.bind_of_error ?_ _
  cases hfind : rules.find? name with
  | none =>
    rw [hfind] at hread
    exact hread
  | some existing =>
    rw [hfind] at hread
    rw [readBody, Expression.readMore, Reader.bind_of_ok (Reader.skip_apply _ _ _)]
    exact Reader.bind_of_error hread _

theorem branches_suffix_bodyWith (rules : RuleTable) (name : Text) (e : Expression) :
    e.branches <:+ (rules.bodyWith name e).branches := by
  unfold RuleTable.bodyWith
  cases rules.find? name with
  | none => exact List.suffix_rfl
  | some existing => exact List.suffix_append _ _

theorem takesSameText_of_spells {r r' : List Token} (h : Begins tokens name b)
    (hspells : Spells (.whole e) (bodyTokens (rules.find? name).isSome b) r)
    (hspells' : Spells (.whole e) (bodyTokens (rules'.find? name).isSome b) r')
    (hpast : past Token.Kind.trivia r = past Token.Kind.trivia r') :
    TakesSameText rules rules' ⟨tokens, size⟩ := by
  have hdefines := h.defines hspells
  have hdefines' := h.defines hspells'
  rw [← hpast] at hdefines'
  have hread : read rules ⟨tokens, size⟩ = .ok _ ⟨past Token.Kind.trivia r, size⟩ :=
    read_eq_ok_iff.mpr ⟨name, e, _, hdefines, rfl, rfl⟩
  have hread' : read rules' ⟨tokens, size⟩ = .ok _ ⟨past Token.Kind.trivia r, size⟩ :=
    read_eq_ok_iff.mpr ⟨name, e, _, hdefines', rfl, rfl⟩
  exact .taken hread hread' hdefines hdefines' (branches_suffix_bodyWith _ _ _)
    (branches_suffix_bodyWith _ _ _)

theorem takesSameText_of_read_eq (h : Begins tokens name b)
    (hsame : Expression.read ⟨bodyTokens (rules.find? name).isSome b, size⟩ =
      Expression.read ⟨bodyTokens (rules'.find? name).isSome b, size⟩) :
    TakesSameText rules rules' ⟨tokens, size⟩ := by
  cases hread : Expression.read ⟨bodyTokens (rules.find? name).isSome b, size⟩ with
  | error cause rest => exact .refused (read_eq_error h hread) (read_eq_error h (hsame ▸ hread))
  | ok e stream =>
    obtain ⟨r, rfl, hspells⟩ := Expression.read_eq_ok_iff.mp hread
    rw [hsame] at hread
    obtain ⟨r', hstream, hspells'⟩ := Expression.read_eq_ok_iff.mp hread
    cases hstream
    exact takesSameText_of_spells h hspells hspells' rfl

theorem read_bodyTokens (h : headKind? (pastFolds b) ≠ some .lineBreak) (known : Bool) :
    Expression.read ⟨bodyTokens known b, size⟩ = Expression.read ⟨b, size⟩ := by
  cases known with
  | false => rfl
  | true =>
    have hpast : bodyTokens true b = pastFolds b := (pastFolds_eq_past_trivia h).symm
    rw [hpast, Expression.read_pastFolds]

theorem spells_new (h : headKind? (pastFolds b) = some .lineBreak) :
    Spells (.whole (.concatenation [])) b (pastFolds b) := by
  have hslash : headKind? (pastFolds b) ≠ some .slash := by
    rw [h]
    nofun
  have hinline : past Token.Kind.inlineTrivia (pastFolds b) = pastFolds b := by
    apply Token.past_of_headKind?
    intro kind hkind
    rw [h]
    rintro ⟨⟩
    exact absurd hkind (by decide)
  exact Expression.spells_pastFolds_iff.mp
    (Expression.spells_nothing (Token.turn_pastFolds h) hslash hinline)

/-- A known name gets an empty right-hand side if nothing that could be in one comes next. -/
theorem spells_known
    (h : headKind? (past Token.Kind.trivia b) ∈ [none, some .rightParen, some .rightBracket]) :
    Spells (.whole (.concatenation [])) (past Token.Kind.trivia b) (past Token.Kind.trivia b) := by
  cases hpast : past Token.Kind.trivia b with
  | nil => exact Expression.spells_nothing rfl nofun rfl
  | cons token r =>
    have hkind : token.kind = .rightParen ∨ token.kind = .rightBracket := by
      rw [hpast] at h
      simpa [headKind?] using h
    have hcloses : Expression.closes token.kind = true := by
      rcases hkind with hkind | hkind <;> rw [hkind] <;> rfl
    have hslash : headKind? (token :: r) ≠ some .slash := by
      rcases hkind with hkind | hkind <;> simp [headKind?, hkind]
    have hinline : token.kind ∉ Token.Kind.inlineTrivia := by
      rcases hkind with hkind | hkind <;> rw [hkind] <;> decide
    refine Expression.spells_nothing (Expression.turn_eq_stop_of_closes hcloses) hslash ?_
    rw [Token.past_cons, if_neg hinline]

/-- Then a new name leaves that later line alone, and a known name takes from it. -/
theorem OnLaterLine.length_lt {e' : Expression} {r r' : List Token} (h : OnLaterLine b)
    (hnew : Spells (.whole e) b r) (hknown : Spells (.whole e') (past Token.Kind.trivia b) r') :
    (past Token.Kind.trivia r').length < (past Token.Kind.trivia r).length := by
  have hleft : past Token.Kind.trivia r = past Token.Kind.trivia b := by
    rw [(hnew.whole_unique (spells_new h.1)).2, past_trivia_pastFolds]
  cases hpast : past Token.Kind.trivia b with
  | nil => exact absurd (by rw [hpast]; decide) h.2
  | cons token rest =>
    have hkind : ¬ (token.kind = .rightParen ∨ token.kind = .rightBracket) := by
      simpa [hpast, headKind?] using h.2
    rw [not_or] at hkind
    rw [hpast] at hknown
    have hshort := hknown.whole_length_lt (Token.not_mem_of_past hpast) hkind.1 hkind.2
    have hrest := length_past_le Token.Kind.trivia r'
    rw [hleft, hpast]
    omega

theorem TakesSameText.symm {stream : TokenStream} (h : TakesSameText rules rules' stream) :
    TakesSameText rules' rules stream := by
  cases h with
  | refused first second => exact .refused second first
  | taken first second defines defines' ends ends' =>
    exact .taken second first defines' defines ends' ends

theorem OnLaterLine.not_takesSameText (h : OnLaterLine b) (hbegins : Begins tokens name b)
    (hnew : (rules.find? name).isSome = false) (hknown : (rules'.find? name).isSome = true) :
    ¬ TakesSameText rules rules' ⟨tokens, size⟩ := by
  have hread : ∃ rule rest, read rules ⟨tokens, size⟩ = .ok rule rest := by
    have hdefines : Defines (rules.find? name).isSome tokens name _ _ :=
      hbegins.defines (by rw [hnew]; exact spells_new h.1)
    exact ⟨_, _, read_eq_ok_iff.mpr ⟨name, _, _, hdefines, rfl, rfl⟩⟩
  rintro (⟨first, -⟩ | ⟨-, -, defines, defines', -, -⟩)
  · obtain ⟨rule, rest, hread⟩ := hread
    cases first.symm.trans hread
  · obtain ⟨b₁, r, hbegins₁, hspells, hrest⟩ := defines.exists_spells
    obtain ⟨b₂, r', hbegins₂, hspells', hrest'⟩ := defines'.exists_spells
    obtain ⟨rfl, rfl⟩ := hbegins.unique hbegins₁
    obtain ⟨-, rfl⟩ := hbegins.unique hbegins₂
    rw [hnew] at hspells
    rw [hknown] at hspells'
    have hless := h.length_lt hspells hspells'
    rw [← hrest, ← hrest'] at hless
    exact Nat.lt_irrefl _ hless

/-- Whether a name is known matters for one kind of definition only, that whose right-hand side has
nothing on its line while a later line starts with something that can be read: a new name gets an
empty right-hand side, a known name takes what stands on the later line. For every other definition
any two tables take the same text. -/
theorem takesSameText_iff (rules rules' : RuleTable) (stream : TokenStream) :
    TakesSameText rules rules' stream ↔
      ∀ name b, Begins stream.tokens name b → OnLaterLine b →
        (rules.find? name).isSome = (rules'.find? name).isSome := by
  obtain ⟨tokens, size⟩ := stream
  constructor
  · intro hsame name b hbegins hlater
    cases hfirst : (rules.find? name).isSome <;> cases hsecond : (rules'.find? name).isSome
    · rfl
    · exact absurd hsame (hlater.not_takesSameText hbegins hfirst hsecond)
    · exact absurd hsame.symm (hlater.not_takesSameText hbegins hsecond hfirst)
    · rfl
  · intro h
    by_cases hbegins : ∃ name b, Begins tokens name b
    · obtain ⟨name, b, hbegins⟩ := hbegins
      by_cases hline : headKind? (pastFolds b) = some .lineBreak
      · by_cases hlater : OnLaterLine b
        · refine takesSameText_of_read_eq hbegins ?_
          rw [h name b hbegins hlater]
        · have hends := not_not.mp fun hkind => hlater ⟨hline, hkind⟩
          have hempty : ∀ known, ∃ r, Spells (.whole (.concatenation [])) (bodyTokens known b) r ∧
              past Token.Kind.trivia r = past Token.Kind.trivia b := by
            intro known
            cases known with
            | false => exact ⟨_, spells_new hline, past_trivia_pastFolds b⟩
            | true => exact ⟨_, spells_known hends, past_past _ _⟩
          obtain ⟨r, hspells, hr⟩ := hempty (rules.find? name).isSome
          obtain ⟨r', hspells', hr'⟩ := hempty (rules'.find? name).isSome
          exact takesSameText_of_spells hbegins hspells hspells' (hr.trans hr'.symm)
      · refine takesSameText_of_read_eq hbegins ?_
        rw [read_bodyTokens hline, read_bodyTokens hline]
    · obtain ⟨cause, rest, herror⟩ :=
        exists_error_of_not_begins (fun name b hb => hbegins ⟨name, b, hb⟩) size
      exact .refused (herror rules) (herror rules')

/-- An assignment at the end of its line with a definition on the next line: a new name leaves that
line alone, a name that is there already takes `%x79` as its own further alternative. -/
theorem read_takes_next_line :
    let rules : RuleTable := ⟨[(['A'], ⟨['A'], .literal (.sensitive ['x'])⟩)]⟩
    ∃ stream, TokenStream.ofSource ['a', ' ', '=', '\n', '%', 'x', '7', '9', '\n'] = .ok stream ∧
      ¬ TakesSameText .empty rules stream := by
  intro rules
  refine ⟨_, rfl, ?_⟩
  rintro (⟨first, -⟩ | ⟨first, second, -, -, -, -⟩)
  · cases first
  · have hrest := (EStateM.Result.ok.inj first).2
    have hrest' := (EStateM.Result.ok.inj second).2
    cases hrest.trans hrest'.symm

end Rule

end AugmentedBnf
