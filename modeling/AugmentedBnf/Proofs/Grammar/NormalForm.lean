import AugmentedBnf.Proofs.Expression.Normal
import AugmentedBnf.Proofs.Grammar.Definitions

/-! # The normal form of compiled grammars

However a grammar came about, by compiling a text or by extending a grammar time and again, its table
lists each defined name once, in the order in which the text first defines them, under the rule's own
name; and every expression in it is in normal form at every depth. One definition keeps all of this,
so reading definitions one after the other does.
-/
namespace AugmentedBnf

open Token (past headKind? past_cons past_suffix Passes)

namespace Grammar

/-- The grammars that compilations and extensions give. -/
inductive Compiled : Grammar → Prop where
  | compile {mode : Mode} {source : Text} {grammar : Grammar}
      (result : Grammar.compile mode source = .ok grammar) : Compiled grammar
  | extend {base grammar : Grammar} {mode : Mode} {extension : Text} (compiled : Compiled base)
      (result : base.extend mode extension = .ok grammar) : Compiled grammar

theorem ofSource_eq_ok_iff {source : Text} {grammar : Grammar} :
    ofSource source = .ok grammar ↔
      grammar.source = source ∧ RuleTable.ofSource source = .ok grammar.rules := by
  obtain ⟨stored, rules⟩ := grammar
  unfold ofSource
  cases RuleTable.ofSource source with
  | error cause =>
    constructor
    · intro h
      cases h
    · rintro ⟨-, h⟩
      cases h
  | ok found =>
    constructor
    · intro h
      cases h
      exact ⟨rfl, rfl⟩
    · rintro ⟨rfl, h⟩
      cases h
      rfl

/-- A compiled grammar has the rules of the text that it keeps. -/
theorem Compiled.ofSource_source {grammar : Grammar} (h : Compiled grammar) :
    RuleTable.ofSource grammar.source = .ok grammar.rules := by
  have hsource : ∃ source, ofSource source = .ok grammar := by
    cases h with
    | compile result => exact ⟨_, result⟩
    | extend _ result => exact ⟨_, result⟩
  obtain ⟨source, hgrammar⟩ := hsource
  obtain ⟨rfl, hrules⟩ := ofSource_eq_ok_iff.mp hgrammar
  exact hrules

end Grammar

namespace Token

/-- The names that tokens define, in order: identifiers with an equal sign behind them. -/
def definedNames : List Token → List Text
  | [] => []
  | token :: rest =>
    if token.kind = .ident ∧ headKind? (past Kind.trivia rest) = some .equal then
      token.text.upper :: definedNames rest
    else definedNames rest

theorem definedNames_past_trivia (tokens : List Token) :
    definedNames (past Kind.trivia tokens) = definedNames tokens := by
  induction tokens with
  | nil => rfl
  | cons token rest ih =>
    rw [past_cons]
    split
    · rename_i htrivia
      have hident : token.kind ≠ .ident := by
        intro heq
        rw [heq] at htrivia
        exact absurd htrivia (by decide)
      rw [ih, definedNames, if_neg fun h => hident h.1]
    · rfl

/-- Without an equal sign in front of the rest nothing is defined there. -/
theorem Passes.definedNames_eq {tokens rest : List Token} (h : Passes tokens rest)
    (hrest : headKind? (Token.past Kind.trivia rest) ≠ some .equal) :
    definedNames tokens = definedNames rest ∧
      headKind? (Token.past Kind.trivia tokens) ≠ some .equal := by
  induction h with
  | refl => exact ⟨rfl, hrest⟩
  | @cons token tokens rest kind _ ih =>
    obtain ⟨hnames, hhead⟩ := ih hrest
    constructor
    · rw [definedNames, if_neg fun h => hhead h.2, hnames]
    · rw [past_cons]
      split
      · exact hhead
      · exact fun heq => kind (Option.some.inj heq)

end Token

theorem Rule.Defines.definedNames_eq {known : Bool} {tokens rest : List Token} {name : Text}
    {e : Expression} (h : Defines known tokens name e rest) (hrest : headKind? rest ≠ some .equal) :
    Token.definedNames tokens = name :: Token.definedNames rest := by
  cases h with
  | @intro token equal r r' rest _ ident next sign body =>
    have hpasses : Passes r' rest :=
      (Token.passes_afterIncrement r').trans ((passes_bodyTokens known _).trans body.passes)
    have hequal : headKind? (past Token.Kind.trivia r) = some .equal := by
      rw [next]
      exact congrArg some sign
    have hsign : ¬ (equal.kind = .ident ∧ headKind? (past Token.Kind.trivia r') = some .equal) := by
      rw [sign]
      exact fun h => absurd h.1 (by decide)
    rw [Token.definedNames, if_pos ⟨ident, hequal⟩, ← Token.definedNames_past_trivia r, next,
      Token.definedNames, if_neg hsign, (hpasses.definedNames_eq hrest).1,
      Token.definedNames_past_trivia]

namespace RuleTable

variable {rules result : RuleTable} {tokens : List Token}

theorem Reads.headKind?_ne (h : Reads rules tokens result) : headKind? tokens ≠ some .equal := by
  cases h with
  | done => nofun
  | next first =>
    cases first with
    | intro ident =>
      intro heq
      have hequal : Token.Kind.ident = .equal := ident.symm.trans (Option.some.inj heq)
      cases hequal

/-- Definitions add the names that are new, each where it is defined first. -/
theorem Reads.keys_eq (h : Reads rules tokens result) :
    result.keys = rules.keys ++
      ((Token.definedNames tokens).filter fun name => !rules.keys.contains name).eraseDups := by
  induction h with
  | done => simp [Token.definedNames]
  | @next rules result tokens rest name e first others ih =>
    rw [ih, first.definedNames_eq others.headKind?_ne, keys_define]
    by_cases hmem : name ∈ rules.keys
    · rw [if_pos hmem, List.filter_cons_of_neg (by simpa using hmem)]
    · rw [if_neg hmem, List.filter_cons_of_pos (by simpa using hmem), List.eraseDups_cons,
        List.append_assoc, List.singleton_append, List.filter_filter]
      congr 4
      funext other
      by_cases hother : other = name
      · simp [hother]
      · simp [hother]

theorem nodup_keys_define (h : rules.keys.Nodup) (name : Text) (e : Expression) :
    (rules.define name e).keys.Nodup := by
  rw [keys_define]
  split
  · exact h
  · rename_i hmem
    refine List.nodup_append.mpr ⟨h, by simp, ?_⟩
    intro key hkey other hother heq
    rw [List.mem_singleton.mp hother] at heq
    exact hmem (heq ▸ hkey)

theorem Reads.nodup_keys (h : Reads rules tokens result) (hrules : rules.keys.Nodup) :
    result.keys.Nodup := by
  induction h with
  | done => exact hrules
  | next first others ih => exact ih (nodup_keys_define hrules _ _)

/-- Every rule stands under its own name, and its right-hand side is regular throughout. -/
def Regular (rules : RuleTable) : Prop :=
  ∀ key rule, (key, rule) ∈ rules.entries →
    rule.name = key ∧ key.isName = true ∧ Expression.Everywhere Expression.Regular rule.body

theorem Regular.define (h : rules.Regular) {name : Text} {e : Expression}
    (hname : name.isName = true) (he : Expression.Everywhere Expression.Regular e) :
    (rules.define name e).Regular := by
  have hbody : Expression.Everywhere Expression.Regular (rules.bodyWith name e) := by
    unfold bodyWith
    cases hfind : rules.find? name with
    | none => exact he
    | some existing =>
      obtain ⟨-, -, hexisting⟩ := h name existing (mem_of_find? hfind)
      exact Expression.everywhere_merge hexisting he
  intro key rule hmem
  rcases eq_or_mem_of_mem_place hmem with heq | hmem
  · cases heq
    exact ⟨rfl, hname, hbody⟩
  · exact h key rule hmem

theorem Reads.regular (h : Reads rules tokens result) (hrules : rules.Regular)
    (htokens : ∀ token ∈ tokens, token.Genuine) : result.Regular := by
  induction h with
  | done => exact hrules
  | @next rules result tokens rest name e first others ih =>
    cases first with
    | @intro token equal r r' rest _ ident next sign body =>
      obtain ⟨htoken, hr⟩ := List.forall_mem_cons.mp htokens
      have hr' : ∀ t ∈ r', t.Genuine := by
        intro t ht
        apply hr
        apply (past_suffix Token.Kind.trivia r).subset
        rw [next]
        exact List.mem_cons_of_mem _ ht
      have hbody : ∀ t ∈ Rule.bodyTokens (rules.find? token.text.upper).isSome
          (Token.afterIncrement r'), t.Genuine := by
        intro t ht
        apply hr'
        apply (Token.passes_afterIncrement r').suffix.subset
        exact (Rule.passes_bodyTokens _ _).suffix.subset ht
      refine ih (hrules.define (htoken.isName ident) (body.regular hbody)) ?_
      intro t ht
      exact hbody t (body.suffix.subset ((past_suffix _ _).subset ht))

end RuleTable

namespace Grammar

theorem Compiled.regular {grammar : Grammar} (h : Compiled grammar) : grammar.rules.Regular := by
  obtain ⟨tokens, hscan, hreads⟩ := RuleTable.ofSource_eq_ok_iff.mp h.ofSource_source
  refine hreads.regular nofun ?_
  intro token htoken
  exact Token.genuine_of_scan hscan token ((past_suffix _ _).subset htoken)

theorem Compiled.nodup_keys {grammar : Grammar} (h : Compiled grammar) :
    grammar.rules.keys.Nodup := by
  obtain ⟨tokens, -, hreads⟩ := RuleTable.ofSource_eq_ok_iff.mp h.ofSource_source
  exact hreads.nodup_keys List.nodup_nil

/-- The rules of a compiled grammar are the names that its text defines, in the order of their first
definition, each under its own name; and nothing in them can be simplified. -/
theorem Compiled.normal_form {grammar : Grammar} (h : Compiled grammar) :
    (∃ tokens, Token.scan grammar.source = .ok tokens ∧
      grammar.rules.keys = (Token.definedNames tokens).eraseDups) ∧
    grammar.rules.keys.Nodup ∧
    ∀ key rule, (key, rule) ∈ grammar.rules.entries →
      rule.name = key ∧ key.isName = true ∧
      ∀ sub, Expression.Within sub rule.body → sub.Normal ∧ sub.simplify = sub := by
  obtain ⟨tokens, hscan, hreads⟩ := RuleTable.ofSource_eq_ok_iff.mp h.ofSource_source
  have hkeys := hreads.keys_eq
  refine ⟨⟨tokens, hscan, ?_⟩, h.nodup_keys, ?_⟩
  · have hall : ((Token.definedNames tokens).filter fun name =>
        !RuleTable.empty.keys.contains name) = Token.definedNames tokens :=
      List.filter_eq_self.mpr fun _ _ => rfl
    rw [hkeys, Token.definedNames_past_trivia, hall]
    rfl
  · intro key rule hmem
    obtain ⟨hname, hkey, hbody⟩ := h.regular key rule hmem
    refine ⟨hname, hkey, ?_⟩
    intro sub hsub
    have hnormal := (hbody sub hsub).1
    exact ⟨hnormal, hnormal.simplify_eq⟩

-- Two definitions of one name, the second in an extension, with a name in between that is defined
-- once: the first name keeps its place and gets a second alternative.
theorem Compiled.normal_form_extended :
    let body : Expression :=
      .alternation [.reference ['B'], .repetition ⟨2, some 2⟩ (.reference ['C'])]
    let base : Grammar := ⟨['a', '=', 'b', '\n', 'c', '=', '(', 'a', ')', '\n'],
      ⟨[(['A'], ⟨['A'], .reference ['B']⟩), (['C'], ⟨['C'], .group (.reference ['A'])⟩)]⟩⟩
    let grammar : Grammar := ⟨base.source ++ ['A', '=', '/', '2', 'c'],
      ⟨[(['A'], ⟨['A'], body⟩), (['C'], ⟨['C'], .group (.reference ['A'])⟩)]⟩⟩
    Grammar.compile .strict base.source = .ok base ∧
    base.extend .lenient ['A', '=', '/', '2', 'c'] = .ok grammar ∧
    (∃ tokens, Token.scan grammar.source = .ok tokens ∧
      grammar.rules.keys = (Token.definedNames tokens).eraseDups) ∧
    grammar.rules.keys.Nodup ∧
    ∀ sub, Expression.Within sub body → sub.Normal ∧ sub.simplify = sub := by
  intro body base grammar
  have hbase : Grammar.compile .strict base.source = .ok base := rfl
  have hgrammar : base.extend .lenient ['A', '=', '/', '2', 'c'] = .ok grammar := rfl
  obtain ⟨hnames, hnodup, hrules⟩ := Compiled.normal_form (.extend (.compile hbase) hgrammar)
  refine ⟨hbase, hgrammar, hnames, hnodup, ?_⟩
  exact (hrules ['A'] ⟨['A'], body⟩ List.mem_cons_self).2.2

end Grammar

end AugmentedBnf
