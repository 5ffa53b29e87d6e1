import AugmentedBnf.Proofs.Expression.Reading

/-! # Definitions one after the other

A grammar text is read definition by definition. A definition is a name, an equal sign, a slash or
none, and a right-hand side; a name that is known already may have its right-hand side on any later
line. A table is read exactly where its definitions follow one another up to the end of the tokens.
-/
namespace AugmentedBnf

open Token (past headKind? past_suffix past_past Passes)
open Expression (Spells)

/-- The tokens behind the slash of an assignment that adds alternatives, if there is one. -/
def Token.afterIncrement (tokens : List Token) : List Token :=
  match past Kind.inlineTrivia tokens with
  | [] => []
  | token :: rest => if token.kind = .slash then rest else token :: rest

namespace Rule

/-- The tokens in front of the right-hand side of a name that is known or not. -/
def bodyTokens (known : Bool) (tokens : List Token) : List Token :=
  if known then past Token.Kind.trivia tokens else tokens

/-- The front of the tokens defines a name, and the rest is left behind the trivia. -/
inductive Defines (known : Bool) : List Token → Text → Expression → List Token → Prop where
  | intro {name equal : Token} {r r' rest : List Token} {e : Expression}
      (ident : name.kind = .ident) (next : past Token.Kind.trivia r = equal :: r')
      (sign : equal.kind = .equal)
      (body : Spells (.whole e) (bodyTokens known (Token.afterIncrement r')) rest) :
      Defines known (name :: r) name.text.upper e (past Token.Kind.trivia rest)

end Rule

namespace RuleTable

/-- The right-hand side that a name has once a definition has been added. -/
def bodyWith (rules : RuleTable) (name : Text) (e : Expression) : Expression :=
  match rules.find? name with
  | some existing => existing.body.merge e
  | none => e

/-- The table with one more definition. -/
def define (rules : RuleTable) (name : Text) (e : Expression) : RuleTable :=
  rules.insert name ⟨name, rules.bodyWith name e⟩

/-- The names of the rules in order. -/
def keys (rules : RuleTable) : List Text := rules.entries.map (·.1)

/-- The tokens are definitions one after the other, which turn the first table into the second. -/
inductive Reads : RuleTable → List Token → RuleTable → Prop where
  | done {rules : RuleTable} : Reads rules [] rules
  | next {rules result : RuleTable} {tokens rest : List Token} {name : Text} {e : Expression}
      (first : Rule.Defines (rules.find? name).isSome tokens name e rest)
      (others : Reads (rules.define name e) rest result) : Reads rules tokens result

end RuleTable

section Reading

variable {tokens : List Token} {size : Nat} {stream : TokenStream}

theorem Rule.skipIncrement_apply (tokens : List Token) (size : Nat) :
    skipIncrement ⟨tokens, size⟩ = .ok () ⟨Token.afterIncrement tokens, size⟩ := by
  rw [skipIncrement, Reader.bind_of_ok (Reader.skip_apply _ _ _),
    Reader.bind_of_ok (Reader.isAt_apply _ _ _), Token.afterIncrement]
  cases past Token.Kind.inlineTrivia tokens with
  | nil => rfl
  | cons token rest =>
    by_cases hkind : token.kind = .slash
    · have hslash : headKind? (token :: rest) = some .slash := congrArg some hkind
      rw [if_pos (decide_eq_true hslash), Reader.bind_of_ok (Reader.consume_cons hkind _ _)]
      simp only [if_pos hkind]
      rfl
    · have hslash : headKind? (token :: rest) ≠ some .slash :=
        fun heq => hkind (Option.some.inj heq)
      rw [if_neg (by simpa using hslash)]
      simp only [if_neg hkind]
      rfl

theorem Rule.readBody_eq_ok_iff {rules : RuleTable} {name : Text} {body : Expression} :
    readBody (rules.find? name) ⟨tokens, size⟩ = .ok body stream ↔
      ∃ e rest, Spells (.whole e) (bodyTokens (rules.find? name).isSome tokens) rest ∧
        body = rules.bodyWith name e ∧ stream = ⟨rest, size⟩ := by
  unfold RuleTable.bodyWith
  cases rules.find? name with
  | none =>
    rw [readBody, Expression.read_eq_ok_iff]
    constructor
    · rintro ⟨rest, rfl, hspells⟩
      exact ⟨body, rest, hspells, rfl, rfl⟩
    · rintro ⟨e, rest, hspells, rfl, rfl⟩
      exact ⟨rest, rfl, hspells⟩
  | some existing =>
    rw [readBody, Expression.readMore, Reader.bind_of_ok (Reader.skip_apply _ _ _),
      Reader.bind_eq_ok_iff]
    constructor
    · rintro ⟨e, _, hread, hbody⟩
      obtain ⟨rest, rfl, hspells⟩ := Expression.read_eq_ok_iff.mp hread
      cases hbody
      exact ⟨e, rest, hspells, rfl, rfl⟩
    · rintro ⟨e, rest, hspells, rfl, rfl⟩
      exact ⟨e, ⟨rest, size⟩, Expression.read_eq_ok_iff.mpr ⟨rest, rfl, hspells⟩, rfl⟩

theorem Rule.read_eq_ok_iff {rules : RuleTable} {rule : Rule} :
    read rules ⟨tokens, size⟩ = .ok rule stream ↔
      ∃ name e rest, Defines (rules.find? name).isSome tokens name e rest ∧
        rule = ⟨name, rules.bodyWith name e⟩ ∧ stream = ⟨rest, size⟩ := by
  constructor
  · intro h
    obtain ⟨_, _, hname, h⟩ := Reader.bind_eq_ok h
    obtain ⟨name, r, rfl, hident, rfl, rfl⟩ := Reader.consume_eq_ok_iff.mp hname
    obtain ⟨_, _, hskip, h⟩ := Reader.bind_eq_ok h
    rw [Reader.skip_apply] at hskip
    cases hskip
    obtain ⟨_, _, hequal, h⟩ := Reader.bind_eq_ok h
    obtain ⟨equal, r', hnext, hsign, -, rfl⟩ := Reader.consume_eq_ok_iff.mp hequal
    rw [Reader.bind_of_ok (skipIncrement_apply _ _)] at h
    obtain ⟨_, _, hbody, h⟩ := Reader.bind_eq_ok h
    obtain ⟨e, rest, hspells, rfl, rfl⟩ := readBody_eq_ok_iff.mp hbody
    cases h
    exact ⟨_, e, _, .intro hident hnext hsign hspells, rfl, rfl⟩
  · rintro ⟨_, e, _, hdefines, rfl, rfl⟩
    cases hdefines with
    | intro ident next sign body =>
      rw [read, Reader.bind_of_ok (Reader.consume_cons ident _ _),
        Reader.bind_of_ok (Reader.skip_apply _ _ _), next,
        Reader.bind_of_ok (Reader.consume_cons sign _ _),
        Reader.bind_of_ok (skipIncrement_apply _ _),
        Reader.bind_of_ok (readBody_eq_ok_iff.mpr ⟨e, _, body, rfl, rfl⟩)]
      rfl

theorem Token.passes_afterIncrement (tokens : List Token) : Passes tokens (afterIncrement tokens) := by
  have hpast : Passes tokens (past Kind.inlineTrivia tokens) := .past (by decide) tokens
  unfold afterIncrement
  cases h : past Kind.inlineTrivia tokens with
  | nil =>
    rw [h] at hpast
    exact hpast
  | cons token rest =>
    rw [h] at hpast
    dsimp only
    split
    · rename_i hslash
      exact hpast.trans (.cons (by rw [hslash]; decide) .refl)
    · exact hpast

theorem Rule.passes_bodyTokens (known : Bool) (tokens : List Token) :
    Passes tokens (bodyTokens known tokens) := by
  unfold bodyTokens
  split
  · exact .past (by decide) tokens
  · exact .refl

/-- What a definition leaves is left behind its name at least. -/
theorem Rule.Defines.suffix_and_length_lt {known : Bool} {name : Text} {e : Expression}
    {rest : List Token} (h : Defines known tokens name e rest) :
    rest <:+ tokens ∧ rest.length < tokens.length := by
  cases h with
  | @intro name equal r r' rest e ident next sign body =>
    have hsign : r' <:+ r := (Token.suffix_of_past next).1
    have hbody : rest <:+ r' := body.suffix.trans
      ((passes_bodyTokens known _).suffix.trans (Token.passes_afterIncrement r').suffix)
    have hrest := (past_suffix Token.Kind.trivia rest).trans (hbody.trans hsign)
    exact ⟨hrest.trans (List.suffix_cons name r), Nat.lt_succ_of_le hrest.length_le⟩

theorem Rule.Defines.suffix {known : Bool} {name : Text} {e : Expression} {rest : List Token}
    (h : Defines known tokens name e rest) : rest <:+ tokens := h.suffix_and_length_lt.1

theorem Rule.Defines.length_lt {known : Bool} {name : Text} {e : Expression} {rest : List Token}
    (h : Defines known tokens name e rest) : rest.length < tokens.length :=
  h.suffix_and_length_lt.2

theorem Rule.Defines.past_eq {known : Bool} {name : Text} {e : Expression} {rest : List Token}
    (h : Defines known tokens name e rest) : past Token.Kind.trivia rest = rest := by
  cases h with
  | intro ident next sign body => exact past_past _ _

end Reading

namespace RuleTable

variable {tokens : List Token} {size : Nat} {stream : TokenStream} {rules result : RuleTable}

theorem reads_nil_iff : Reads rules [] result ↔ rules = result := by
  constructor
  · intro h
    cases h with
    | done => rfl
    | next first => cases first
  · rintro rfl
    exact .done

theorem readAll_nil (count : Nat) (rules : RuleTable) :
    readAll count rules ⟨[], size⟩ = .ok rules ⟨[], size⟩ := by
  cases count <;> rfl

theorem readAll_cons (count : Nat) (rules : RuleTable) (token : Token) :
    readAll (count + 1) rules ⟨token :: tokens, size⟩ = (do
      let rule ← Rule.read rules
      Reader.skip Token.Kind.trivia
      readAll count (rules.insert rule.name rule) : Reader RuleTable)
      ⟨token :: tokens, size⟩ := rfl

theorem readAll_nil_eq_ok_iff {count : Nat} :
    readAll count rules ⟨[], size⟩ = .ok result stream ↔
      Reads rules [] result ∧ stream = ⟨[], size⟩ := by
  rw [readAll_nil, reads_nil_iff, EStateM.Result.ok.injEq]
  exact and_congr_right fun _ => eq_comm

theorem readAll_eq_ok_iff {count : Nat} (hcount : tokens.length ≤ count) :
    readAll count rules ⟨tokens, size⟩ = .ok result stream ↔
      Reads rules tokens result ∧ stream = ⟨[], size⟩ := by
  induction count generalizing tokens rules with
  | zero =>
    obtain rfl := List.eq_nil_of_length_eq_zero (Nat.le_zero.mp hcount)
    exact readAll_nil_eq_ok_iff
  | succ count ih =>
    cases tokens with
    | nil => exact readAll_nil_eq_ok_iff
    | cons token tokens =>
      rw [readAll_cons, Reader.bind_eq_ok_iff]
      constructor
      · rintro ⟨rule, _, hrule, h⟩
        obtain ⟨name, e, rest, hdefines, rfl, rfl⟩ := Rule.read_eq_ok_iff.mp hrule
        rw [Reader.bind_of_ok (Reader.skip_apply _ _ _), hdefines.past_eq] at h
        have hshort := hdefines.length_lt
        obtain ⟨hreads, rfl⟩ := (ih (by omega)).mp h
        exact ⟨.next hdefines hreads, rfl⟩
      · rintro ⟨hreads, rfl⟩
        cases hreads with
        | @next _ _ _ rest name e first others =>
          have hshort := first.length_lt
          refine ⟨_, _, Rule.read_eq_ok_iff.mpr ⟨name, e, rest, first, rfl, rfl⟩, ?_⟩
          rw [Reader.bind_of_ok (Reader.skip_apply _ _ _), first.past_eq]
          exact (ih (by omega)).mpr ⟨others, rfl⟩

theorem read_eq_ok_iff : read ⟨tokens, size⟩ = .ok result stream ↔
    Reads empty (past Token.Kind.trivia tokens) result ∧ stream = ⟨[], size⟩ := by
  rw [read, Reader.bind_of_ok (Reader.skip_apply _ _ _), Reader.bind_of_ok (Reader.get_apply _)]
  exact readAll_eq_ok_iff (Nat.le_refl _)

/-- A grammar text has rules exactly if it can be cut into tokens that are definitions. -/
theorem ofSource_eq_ok_iff {source : Text} : ofSource source = .ok rules ↔
    ∃ tokens, Token.scan source = .ok tokens ∧
      Reads empty (past Token.Kind.trivia tokens) rules := by
  unfold ofSource TokenStream.ofSource
  cases hscan : Token.scan source with
  | error cause =>
    constructor
    · intro h
      cases h
    · rintro ⟨_, h, -⟩
      cases h
  | ok tokens =>
    have hread : ∀ stream, read ⟨tokens, source.byteSize⟩ = .ok rules stream ↔ _ :=
      fun _ => read_eq_ok_iff
    constructor
    · intro h
      simp only [bind, Except.bind, pure, Except.pure] at h
      split at h
      · rename_i found rest heq
        cases h
        exact ⟨tokens, rfl, ((hread _).mp heq).1⟩
      · cases h
    · rintro ⟨_, htokens, hreads⟩
      cases htokens
      simp only [bind, Except.bind, pure, Except.pure]
      rw [(hread _).mpr ⟨hreads, rfl⟩]

section Define

variable {key name : Text} {rule : Rule} {e : Expression}

theorem mem_of_find? (h : rules.find? key = some rule) : (key, rule) ∈ rules.entries := by
  obtain ⟨before, after, heq, -⟩ := List.lookup_eq_some_iff.mp h
  rw [heq]
  exact List.mem_append_right before List.mem_cons_self

theorem find?_isSome_iff : (rules.find? key).isSome = true ↔ key ∈ rules.keys := by
  obtain ⟨entries⟩ := rules
  unfold find? keys
  induction entries with
  | nil => simp
  | cons entry rest ih =>
    obtain ⟨other, old⟩ := entry
    dsimp only at ih ⊢
    rw [lookup_cons_eq, List.map_cons, List.mem_cons]
    by_cases h : key = other
    · simp [h]
    · simp [h, ih]

theorem map_fst_place (key : Text) (rule : Rule) (entries : List (Text × Rule)) :
    (place key rule entries).map (·.1) =
      if key ∈ entries.map (·.1) then entries.map (·.1) else entries.map (·.1) ++ [key] := by
  induction entries with
  | nil => rfl
  | cons entry rest ih =>
    obtain ⟨other, old⟩ := entry
    rw [place]
    by_cases h : other = key
    · simp [h]
    · have hne : key ≠ other := fun heq => h heq.symm
      by_cases hmem : key ∈ rest.map (·.1)
      · simp only [if_neg h, List.map_cons, ih, if_pos hmem, if_pos (List.mem_cons_of_mem _ hmem)]
      · have hmem' : key ∉ other :: rest.map (·.1) := by
          simpa only [List.mem_cons, not_or] using ⟨hne, hmem⟩
        simp only [if_neg h, List.map_cons, ih, if_neg hmem, if_neg hmem', List.cons_append]

/-- A definition adds its name at the end, unless the name is there already. -/
theorem keys_define (rules : RuleTable) (name : Text) (e : Expression) :
    (rules.define name e).keys =
      if name ∈ rules.keys then rules.keys else rules.keys ++ [name] :=
  map_fst_place name _ rules.entries

theorem eq_or_mem_of_mem_place {entry : Text × Rule} {entries : List (Text × Rule)}
    (h : entry ∈ place key rule entries) : entry = (key, rule) ∨ entry ∈ entries := by
  induction entries with
  | nil => exact .inl (List.mem_singleton.mp h)
  | cons first rest ih =>
    obtain ⟨other, old⟩ := first
    rw [place] at h
    split at h
    · rcases List.mem_cons.mp h with h | h
      · exact .inl h
      · exact .inr (List.mem_cons_of_mem _ h)
    · rcases List.mem_cons.mp h with h | h
      · exact .inr (h ▸ List.mem_cons_self)
      · rcases ih h with h | h
        · exact .inl h
        · exact .inr (List.mem_cons_of_mem _ h)

end Define

end RuleTable

end AugmentedBnf
