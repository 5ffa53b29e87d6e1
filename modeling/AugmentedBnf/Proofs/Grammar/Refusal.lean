import AugmentedBnf.Grammar.Basic
import AugmentedBnf.Proofs.Expression.Refusal
import AugmentedBnf.Proofs.Grammar.Redefinition

/-! # Why a grammar text is refused

A definition is refused for its name, its equal sign or its right-hand side, and a table of rules for
the first definition that is. So what reading makes of any tokens is one of two derivations, that of a
table or that of a refusal, and it depends on no count of steps.
-/
namespace AugmentedBnf

open Token (past headKind?)

variable {tokens : List Token} {size : Nat} {stream : TokenStream} {cause : CompileError}

namespace Rule

/-- The definition at the front of the tokens is refused, given the rules before it. -/
inductive Refuses (size : Nat) (rules : RuleTable) :
    List Token → CompileError → List Token → Prop where
  | name {tokens : List Token} (first : headKind? tokens ≠ some .ident) :
      Refuses size rules tokens (Token.missing .ident size tokens) tokens
  | equal {name : Token} {r : List Token} (ident : name.kind = .ident)
      (next : headKind? (past Token.Kind.trivia r) ≠ some .equal) :
      Refuses size rules (name :: r) (Token.missing .equal size (past Token.Kind.trivia r))
        (past Token.Kind.trivia r)
  | body {tokens b rest : List Token} {name : Text} {cause : CompileError}
      (begins : Begins tokens name b)
      (body : Expression.Refuses size .whole (bodyTokens (rules.find? name).isSome b) cause rest) :
      Refuses size rules tokens cause rest

theorem readBody_eq_error_iff {rules : RuleTable} {name : Text} :
    readBody (rules.find? name) ⟨tokens, size⟩ = .error cause stream ↔
      ∃ rest, stream = ⟨rest, size⟩ ∧
        Expression.Refuses size .whole (bodyTokens (rules.find? name).isSome tokens) cause rest := by
  cases rules.find? name with
  | none => exact Expression.read_eq_error_iff
  | some existing =>
    rw [readBody, Expression.readMore, Reader.bind_of_ok (Reader.skip_apply _ _ _)]
    constructor
    · intro h
      rcases Reader.bind_eq_error h with h | ⟨_, _, -, h⟩
      · exact Expression.read_eq_error_iff.mp h
      · cases h
    · exact fun h => Reader.bind_of_error (Expression.read_eq_error_iff.mpr h) _

theorem read_eq_error_iff {rules : RuleTable} : read rules ⟨tokens, size⟩ = .error cause stream ↔
    ∃ rest, stream = ⟨rest, size⟩ ∧ Refuses size rules tokens cause rest := by
  constructor
  · intro h
    rcases Reader.bind_eq_error h with hname | ⟨_, _, hname, hrest⟩
    · obtain ⟨hfirst, rfl, rfl⟩ := Reader.consume_eq_error hname
      exact ⟨tokens, rfl, .name hfirst⟩
    · obtain ⟨name, r, rfl, hident, rfl, rfl⟩ := Reader.consume_eq_ok_iff.mp hname
      rw [Reader.bind_of_ok (Reader.skip_apply _ _ _)] at hrest
      rcases Reader.bind_eq_error hrest with hequal | ⟨_, _, hequal, hbody⟩
      · obtain ⟨hnext, rfl, rfl⟩ := Reader.consume_eq_error hequal
        exact ⟨_, rfl, .equal hident hnext⟩
      · obtain ⟨equal, r', hnext, hsign, -, rfl⟩ := Reader.consume_eq_ok_iff.mp hequal
        rw [Reader.bind_of_ok (skipIncrement_apply _ _)] at hbody
        rcases Reader.bind_eq_error hbody with hbody | ⟨_, _, -, hbody⟩
        · obtain ⟨rest, rfl, hrefuses⟩ := readBody_eq_error_iff.mp hbody
          exact ⟨rest, rfl, .body (.intro hident hnext hsign) hrefuses⟩
        · cases hbody
  · rintro ⟨rest, rfl, h⟩
    cases h with
    | name first => exact Reader.bind_of_error (Reader.consume_of_ne first size) _
    | equal ident next =>
      rw [read, Reader.bind_of_ok (Reader.consume_cons ident _ _),
        Reader.bind_of_ok (Reader.skip_apply _ _ _)]
      exact Reader.bind_of_error (Reader.consume_of_ne next size) _
    | body begins body =>
      rw [read_of_begins begins]
      exact Reader.bind_of_error (readBody_eq_error_iff.mpr ⟨rest, rfl, body⟩) _

end Rule

namespace RuleTable

variable {rules : RuleTable}

/-- After some definitions, which turn the first table into another one, the next definition is
refused. -/
inductive Refuses (size : Nat) : RuleTable → List Token → CompileError → List Token → Prop where
  | here {rules : RuleTable} {tokens rest : List Token} {cause : CompileError} (left : tokens ≠ [])
      (first : Rule.Refuses size rules tokens cause rest) : Refuses size rules tokens cause rest
  | later {rules : RuleTable} {tokens r rest : List Token} {name : Text} {e : Expression}
      {cause : CompileError} (first : Rule.Defines (rules.find? name).isSome tokens name e r)
      (others : Refuses size (rules.define name e) r cause rest) :
      Refuses size rules tokens cause rest

theorem not_refuses_nil {rest : List Token} : ¬ Refuses size rules [] cause rest := by
  rintro (⟨hopen, -⟩ | ⟨hfirst, -⟩)
  · exact hopen rfl
  · cases hfirst

theorem readAll_nil_eq_error_iff {count : Nat} :
    readAll count rules ⟨[], size⟩ = .error cause stream ↔
      ∃ rest, stream = ⟨rest, size⟩ ∧ Refuses size rules [] cause rest := by
  rw [readAll_nil]
  constructor
  · nofun
  · rintro ⟨rest, -, h⟩
    exact absurd h not_refuses_nil

theorem readAll_eq_error_iff {count : Nat} (hcount : tokens.length ≤ count) :
    readAll count rules ⟨tokens, size⟩ = .error cause stream ↔
      ∃ rest, stream = ⟨rest, size⟩ ∧ Refuses size rules tokens cause rest := by
  induction count generalizing tokens rules with
  | zero =>
    obtain rfl := List.eq_nil_of_length_eq_zero (Nat.le_zero.mp hcount)
    exact readAll_nil_eq_error_iff
  | succ count ih =>
    cases tokens with
    | nil => exact readAll_nil_eq_error_iff
    | cons token tokens =>
      rw [readAll_cons]
      constructor
      · intro h
        rcases Reader.bind_eq_error h with h | ⟨rule, _, hrule, h⟩
        · obtain ⟨rest, rfl, hrefuses⟩ := Rule.read_eq_error_iff.mp h
          exact ⟨rest, rfl, .here (List.cons_ne_nil _ _) hrefuses⟩
        · obtain ⟨name, e, r, hdefines, rfl, rfl⟩ := Rule.read_eq_ok_iff.mp hrule
          have hshort := hdefines.length_lt
          rw [Reader.bind_of_ok (Reader.skip_apply _ _ _), hdefines.past_eq] at h
          obtain ⟨rest, rfl, hrefuses⟩ := (ih (by omega)).mp h
          exact ⟨rest, rfl, .later hdefines hrefuses⟩
      · rintro ⟨rest, rfl, h⟩
        cases h with
        | here _ first => exact Reader.bind_of_error (Rule.read_eq_error_iff.mpr ⟨_, rfl, first⟩) _
        | @later _ _ r _ name e _ first others =>
          have hshort := first.length_lt
          have hrule : Rule.read rules ⟨token :: tokens, size⟩ =
              .ok ⟨name, rules.bodyWith name e⟩ ⟨r, size⟩ :=
            Rule.read_eq_ok_iff.mpr ⟨name, e, r, first, rfl, rfl⟩
          rw [Reader.bind_of_ok hrule, Reader.bind_of_ok (Reader.skip_apply _ _ _), first.past_eq]
          exact (ih (by omega)).mpr ⟨rest, rfl, others⟩

theorem read_eq_error_iff : read ⟨tokens, size⟩ = .error cause stream ↔
    ∃ rest, stream = ⟨rest, size⟩ ∧
      Refuses size empty (past Token.Kind.trivia tokens) cause rest := by
  rw [read, Reader.bind_of_ok (Reader.skip_apply _ _ _), Reader.bind_of_ok (Reader.get_apply _)]
  exact readAll_eq_error_iff (Nat.le_refl _)

/-- A grammar text is refused exactly if no token starts somewhere in it, for that place, or if its
tokens are refused. -/
theorem ofSource_eq_error_iff {source : Text} : ofSource source = .error cause ↔
    Token.scan source = .error cause ∨ ∃ tokens rest, Token.scan source = .ok tokens ∧
      Refuses source.byteSize empty (past Token.Kind.trivia tokens) cause rest := by
  unfold ofSource TokenStream.ofSource
  cases hscan : Token.scan source with
  | error found =>
    simp [bind, Except.bind]
  | ok tokens =>
    have hread : ∀ stream, read ⟨tokens, source.byteSize⟩ = .error cause stream ↔ _ :=
      fun _ => read_eq_error_iff
    simp only [bind, Except.bind, pure, Except.pure, reduceCtorEq, Except.ok.injEq, false_or]
    constructor
    · intro h
      split at h
      · cases h
      · rename_i found stream heq
        cases h
        obtain ⟨rest, -, hrefuses⟩ := (hread _).mp heq
        exact ⟨tokens, rest, rfl, hrefuses⟩
    · rintro ⟨_, rest, rfl, hrefuses⟩
      rw [(hread _).mpr ⟨rest, rfl, hrefuses⟩]
      rfl

end RuleTable

end AugmentedBnf
