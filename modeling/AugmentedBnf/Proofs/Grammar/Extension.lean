import AugmentedBnf.Proofs.Expression.Seam
import AugmentedBnf.Proofs.Grammar.Merge
import AugmentedBnf.Proofs.Grammar.NormalForm
import AugmentedBnf.Proofs.Token.Seam

/-! # Extending a grammar merges its rules

A base text that ends its last line, followed by a text that does not start with an indentation, has
the rules of the two texts merged, provided that no definition has an empty right-hand side. An empty
one would take in what follows, because the right-hand side of a known name may stand on a later line.
-/
namespace AugmentedBnf

open Token (past headKind? past_cons past_suffix not_mem_of_past afterIncrement)
open Expression (Unindented)

namespace Token

/-- Nothing is left, or a definition starts here. -/
def atDefinition : List Token → Bool
  | [] => true
  | token :: rest => token.kind == .ident && headKind? (past Kind.trivia rest) == some .equal

/-- Some definition has nothing on its right-hand side but trivia, up to the next definition or the
end. -/
def hasEmptyBody : List Token → Bool
  | [] => false
  | token :: rest =>
    (token.kind == .equal && atDefinition (past Kind.trivia (afterIncrement rest))) ||
      hasEmptyBody rest

theorem hasEmptyBody_of_suffix {tokens rest : List Token} (h : rest <:+ tokens)
    (htokens : hasEmptyBody tokens = false) : hasEmptyBody rest = false := by
  induction tokens with
  | nil => rwa [List.suffix_nil.mp h]
  | cons token tokens ih =>
    rcases List.suffix_cons_iff.mp h with rfl | h
    · exact htokens
    · exact ih h (Bool.or_eq_false_iff.mp htokens).2

/-- Behind the equal sign of a definition something stands that starts no other definition. -/
theorem atDefinition_of_hasEmptyBody {equal : Token} {rest : List Token} (hsign : equal.kind = .equal)
    (h : hasEmptyBody (equal :: rest) = false) :
    atDefinition (past Kind.trivia (afterIncrement rest)) = false := by
  have hfirst := (Bool.or_eq_false_iff.mp h).1
  rwa [hsign, beq_self_eq_true, Bool.true_and] at hfirst

section Alike

variable {as bs : List Token}

theorem past_alike (h : List.Forall₂ Token.Alike as bs) (kinds : List Kind) :
    List.Forall₂ Token.Alike (past kinds as) (past kinds bs) := by
  induction h with
  | nil => exact .nil
  | cons htoken hrest ih =>
    rw [past_cons, past_cons, ← htoken.kind]
    split
    · exact ih
    · exact .cons htoken hrest

theorem headKind?_alike (h : List.Forall₂ Token.Alike as bs) : headKind? as = headKind? bs := by
  cases h with
  | nil => rfl
  | cons htoken => exact congrArg some htoken.kind

theorem afterIncrement_alike (h : List.Forall₂ Token.Alike as bs) :
    List.Forall₂ Token.Alike (afterIncrement as) (afterIncrement bs) := by
  have hpast := past_alike h Kind.inlineTrivia
  unfold afterIncrement
  generalize past Kind.inlineTrivia as = as, past Kind.inlineTrivia bs = bs at hpast
  cases hpast with
  | nil => exact .nil
  | cons htoken hrest =>
    dsimp only
    rw [htoken.kind]
    split
    · exact hrest
    · exact .cons htoken hrest

theorem atDefinition_alike (h : List.Forall₂ Token.Alike as bs) :
    atDefinition as = atDefinition bs := by
  cases h with
  | nil => rfl
  | cons htoken hrest =>
    rw [atDefinition, atDefinition, htoken.kind, headKind?_alike (past_alike hrest _)]

theorem hasEmptyBody_alike (h : List.Forall₂ Token.Alike as bs) :
    hasEmptyBody as = hasEmptyBody bs := by
  induction h with
  | nil => rfl
  | cons htoken hrest ih =>
    rw [hasEmptyBody, hasEmptyBody, htoken.kind, ih,
      atDefinition_alike (past_alike (afterIncrement_alike hrest) _)]

end Alike

section Seam

variable {line : Token} {front : List Token}

theorem afterIncrement_append_line (hline : line.kind = .lineBreak) (front : List Token) :
    ∃ front', ∀ more, afterIncrement (front ++ line :: more) = front' ++ line :: more := by
  have hinline : Kind.lineBreak ∉ Kind.inlineTrivia := by decide
  cases h : past Kind.inlineTrivia front with
  | nil =>
    refine ⟨[], ?_⟩
    intro more
    have hslash : line.kind ≠ .slash := by
      rw [hline]
      decide
    rw [afterIncrement, past_append_line hline hinline, h]
    simp only [List.nil_append, if_neg hslash]
  | cons token rest =>
    by_cases hslash : token.kind = .slash
    · refine ⟨rest, ?_⟩
      intro more
      rw [afterIncrement, past_append_line hline hinline, h]
      simp only [List.cons_append, if_pos hslash]
    · refine ⟨token :: rest, ?_⟩
      intro more
      rw [afterIncrement, past_append_line hline hinline, h]
      simp only [List.cons_append, if_neg hslash]

/-- All trivia up to the line break leave what follows it. -/
theorem past_trivia_append_line (hline : line.kind = .lineBreak)
    (h : past Kind.trivia (front ++ [line]) = []) (more : List Token) :
    past Kind.trivia (front ++ line :: more) = past Kind.trivia more := by
  have htrivia : line.kind ∈ Kind.trivia := by
    rw [hline]
    decide
  induction front with
  | nil => rw [List.nil_append, past_cons, if_pos htrivia]
  | cons token front ih =>
    rw [List.cons_append, past_cons] at h ⊢
    split at h
    · rename_i hmem
      rw [if_pos hmem, ih h]
    · cases h

theorem ne_line_of_past {kinds : List Kind} {tokens rest : List Token} {token : Token}
    (hkinds : .lineBreak ∈ kinds) (hline : line.kind = .lineBreak)
    (h : past kinds tokens = token :: rest) : token ≠ line := by
  rintro rfl
  exact not_mem_of_past h (hline ▸ hkinds)

end Seam

end Token

open Token (atDefinition hasEmptyBody hasEmptyBody_of_suffix atDefinition_of_hasEmptyBody
  exists_of_past_append ne_of_kind ne_line_of_past past_trivia_append_line)

namespace Rule.Defines

variable {known : Bool} {tokens rest : List Token} {name : Text} {e : Expression}

/-- A right-hand side that is there is found whether the name is known or not. -/
theorem of_unknown (h : Defines false tokens name e rest) (htokens : hasEmptyBody tokens = false)
    (hrest : atDefinition rest = true) : Defines known tokens name e rest := by
  cases known with
  | false => exact h
  | true =>
    cases h with
    | @intro token equal r r' rest _ ident next sign body =>
      refine .intro ident next sign ?_
      rcases body.blank_or_whole with ⟨-, hpast⟩ | hbody
      · have hr' : equal :: r' <:+ token :: r :=
          (next ▸ past_suffix _ r).trans (List.suffix_cons token r)
        have hbody := atDefinition_of_hasEmptyBody sign (hasEmptyBody_of_suffix hr' htokens)
        have hpast' : past Token.Kind.trivia (afterIncrement r') = past Token.Kind.trivia rest :=
          hpast
        rw [hpast', hrest] at hbody
        cases hbody
      · exact hbody

/-- A definition in front of the last line break is the same whatever follows, unless that continues
the line. -/
theorem append_line {line : Token} {front : List Token} (hline : line.kind = .lineBreak)
    (h : Defines known (front ++ [line]) name e rest)
    (htokens : hasEmptyBody (front ++ [line]) = false) :
    ∃ front', rest = past Token.Kind.trivia (front' ++ [line]) ∧ ∀ more, Unindented more →
      Defines known (front ++ line :: more) name e
        (past Token.Kind.trivia (front' ++ line :: more)) := by
  generalize heq : front ++ [line] = tokens at h
  cases h with
  | @intro token equal r r' rest _ ident next sign body =>
    -- the name, the equal sign and the right-hand side lie in front of the line break
    obtain ⟨front₁, rfl⟩ : ∃ front₁, front = token :: front₁ := by
      cases front with
      | nil =>
        cases heq
        exact absurd (ident.symm.trans hline) (by decide)
      | cons first front₁ =>
        cases heq
        exact ⟨front₁, rfl⟩
    obtain rfl := (List.cons.inj heq).2
    obtain ⟨front₂, rfl, hnext⟩ := exists_of_past_append next (ne_of_kind hline sign (by decide))
    obtain ⟨front₃, hincrement⟩ := Token.afterIncrement_append_line hline front₂
    have hsuffix : equal :: (front₂ ++ [line]) <:+ token :: front₁ ++ [line] :=
      (next ▸ past_suffix _ _).trans (List.suffix_cons token _)
    have hthere := atDefinition_of_hasEmptyBody sign (hasEmptyBody_of_suffix hsuffix htokens)
    have hbody : ∃ front₄, ∀ more, bodyTokens known (afterIncrement (front₂ ++ line :: more)) =
        front₄ ++ line :: more := by
      cases known with
      | false => exact ⟨front₃, hincrement⟩
      | true =>
        cases hpast : past Token.Kind.trivia (front₃ ++ [line]) with
        | nil =>
          rw [hincrement [], hpast] at hthere
          cases hthere
        | cons first after =>
          have hne := ne_line_of_past (by decide) hline hpast
          obtain ⟨front₄, -, hmore⟩ := exists_of_past_append hpast hne
          refine ⟨first :: front₄, ?_⟩
          intro more
          rw [hincrement more]
          exact hmore more
    obtain ⟨front₄, hbody⟩ := hbody
    rw [hbody []] at body
    obtain ⟨front₅, rfl, hspells⟩ := body.append_line hline
    refine ⟨front₅, rfl, ?_⟩
    intro more hmore
    refine .intro ident (hnext more) sign ?_
    rw [hbody more]
    exact hspells more hmore

end Rule.Defines

namespace RuleTable

variable {rules result base added : RuleTable} {tokens : List Token}

theorem Reads.atDefinition (h : Reads rules tokens result) : atDefinition tokens = true := by
  cases h with
  | done => rfl
  | next first =>
    cases first with
    | intro ident next sign =>
      rw [Token.atDefinition, ident, next]
      simp only [headKind?, List.head?_cons, Option.map_some, sign, beq_self_eq_true, Bool.and_self]

/-- Definitions that are read into an empty table can be read into any other, and merge with it. -/
theorem Reads.merge (hbase : base.keys.Nodup) (h : Reads added tokens result)
    (htokens : hasEmptyBody tokens = false) :
    Reads (base.merge added) tokens (base.merge result) := by
  induction h with
  | done => exact .done
  | @next added result tokens rest name e first others ih =>
    have hnext := ih (hasEmptyBody_of_suffix first.suffix htokens)
    rw [merge_define hbase] at hnext
    refine .next ?_ hnext
    cases hfind : added.find? name with
    | none =>
      rw [hfind] at first
      exact first.of_unknown htokens others.atDefinition
    | some rule =>
      have hknown : ((base.merge added).find? name).isSome = true := by
        rw [find?_merge, hfind]
        cases base.find? name <;> rfl
      rw [hknown]
      rw [hfind] at first
      exact first

/-- Definitions up to a line break, and behind it definitions that go on from their table. -/
theorem Reads.append_line {line : Token} (hline : line.kind = .lineBreak) {front : List Token}
    (h : Reads rules (past Token.Kind.trivia (front ++ [line])) base)
    (htokens : hasEmptyBody (past Token.Kind.trivia (front ++ [line])) = false)
    {more : List Token} (hmore : Unindented more)
    (hnext : Reads base (past Token.Kind.trivia more) result) :
    Reads rules (past Token.Kind.trivia (front ++ line :: more)) result := by
  generalize heq : past Token.Kind.trivia (front ++ [line]) = tokens at h htokens
  induction h generalizing front with
  | done =>
    rw [past_trivia_append_line hline heq]
    exact hnext
  | @next rules base tokens rest name e first others ih =>
    cases tokens with
    | nil => cases first
    | cons token tokens =>
      have hne := ne_line_of_past (by decide) hline heq
      obtain ⟨front₁, rfl, hpast⟩ := exists_of_past_append heq hne
      have hrest := hasEmptyBody_of_suffix first.suffix htokens
      rw [← List.cons_append] at first htokens
      obtain ⟨front₂, rfl, hdefines⟩ := first.append_line hline htokens
      rw [hpast more]
      exact .next (hdefines more hmore) (ih hnext rfl hrest)

end RuleTable

namespace Grammar

/-- Every definition of the text has a right-hand side. -/
def BodiesPresent (source : Text) : Prop :=
  ∀ tokens, Token.scan source = .ok tokens → hasEmptyBody tokens = false

/-- Reading a text behind another takes its definitions at other offsets, and these are the same. -/
theorem reads_of_scanAt {t : Text} {rules : RuleTable} (h : RuleTable.ofSource t = .ok rules)
    (ht : BodiesPresent t) (offset : Nat) :
    ∃ tokens, Token.scanAt offset t = .ok tokens ∧ hasEmptyBody tokens = false ∧
      RuleTable.Reads .empty (past Token.Kind.trivia tokens) rules := by
  obtain ⟨tokens, hscan, hreads⟩ := RuleTable.ofSource_eq_ok_iff.mp h
  have hshift := Token.scanAt_shift t 0 offset
  rw [show Token.scanAt 0 t = .ok tokens from hscan] at hshift
  cases hshifted : Token.scanAt offset t with
  | error cause =>
    rw [hshifted] at hshift
    exact hshift.elim
  | ok shifted =>
    rw [hshifted] at hshift
    refine ⟨shifted, rfl, ?_, ?_⟩
    · rw [← Token.hasEmptyBody_alike hshift, ht tokens hscan]
    · have hread := RuleTable.related_read ⟨tokens, 0⟩ ⟨shifted, 0⟩ (.of_alike hshift)
      rw [RuleTable.read_eq_ok_iff.mpr ⟨hreads, rfl⟩] at hread
      generalize hother : RuleTable.read ⟨shifted, 0⟩ = other at hread
      cases hread with
      | ok value =>
        subst value
        exact (RuleTable.read_eq_ok_iff.mp hother).1

theorem ofSource_append {s t : Text} {base added : RuleTable}
    (hbase : RuleTable.ofSource s = .ok base) (hadded : RuleTable.ofSource t = .ok added)
    (hs : Token.EndsLine s) (ht : ∀ c ∈ t.head?, Token.isBlank c = false) (hs' : BodiesPresent s)
    (ht' : BodiesPresent t) : RuleTable.ofSource (s ++ t) = .ok (base.merge added) := by
  obtain ⟨tokens, hscan, hreads⟩ := RuleTable.ofSource_eq_ok_iff.mp hbase
  obtain ⟨more, hscan', hbodies, hreads'⟩ := reads_of_scanAt hadded ht' (0 + s.byteSize)
  have hmore : Unindented more := Token.headKind?_ne_of_scanAt ht hscan'
  have hnodup : base.keys.Nodup := hreads.nodup_keys List.nodup_nil
  have hnext := hreads'.merge hnodup (hasEmptyBody_of_suffix (past_suffix _ _) hbodies)
  rw [RuleTable.merge_empty] at hnext
  refine RuleTable.ofSource_eq_ok_iff.mpr ⟨tokens ++ more, ?_, ?_⟩
  · have hall := Token.scanAt_append hs hscan t
    rw [hscan'] at hall
    exact hall
  · rcases hs with rfl | hlast
    · cases hscan
      rw [RuleTable.reads_nil_iff.mp hreads]
      exact hnext
    · obtain ⟨front, line, rfl, hline⟩ := Token.exists_lineBreak_of_scanAt hlast hscan
      rw [List.append_assoc, List.singleton_append]
      refine hreads.append_line hline ?_ hmore hnext
      exact hasEmptyBody_of_suffix (past_suffix _ _) (hs' _ hscan)

/-- Extending a grammar merges its rules with those that the extension has on its own. First come the
names of the base in their order, then those of the extension that are new; a name of both has the
alternatives of the base and then those of the extension. -/
theorem extend_eq_merge {s t : Text} {base added : Grammar} (hbase : ofSource s = .ok base)
    (hadded : ofSource t = .ok added) (hs : s = [] ∨ s.getLast? = some '\n')
    (ht : t.head? ≠ some ' ' ∧ t.head? ≠ some '\t') (hs' : BodiesPresent s)
    (ht' : BodiesPresent t) :
    ∃ rules, ofSource (s ++ t) = .ok ⟨s ++ t, rules⟩ ∧
      (∀ mode extension, mode.normalize extension = t →
        base.extend mode extension = .ok ⟨s ++ t, rules⟩) ∧
      rules = base.rules.merge added.rules ∧
      rules.keys = base.rules.keys ++ added.rules.keys.filter (fun key => key ∉ base.rules.keys) ∧
      ∀ name, rules.find? name =
        match base.rules.find? name, added.rules.find? name with
        | some rule, some more => some ⟨name, .alternation (rule.body.branches ++ more.body.branches)⟩
        | some rule, none => some rule
        | none, other => other := by
  obtain ⟨hsource, hbase⟩ := ofSource_eq_ok_iff.mp hbase
  obtain ⟨-, hadded⟩ := ofSource_eq_ok_iff.mp hadded
  have hblank : ∀ c ∈ t.head?, Token.isBlank c = false := by
    intro c hc
    simp only [Token.isBlank, Bool.or_eq_false_iff, beq_eq_false_iff_ne]
    constructor
    · rintro rfl
      exact ht.1 hc
    · rintro rfl
      exact ht.2 hc
  have hrules := ofSource_append hbase hadded hs hblank hs' ht'
  have hgrammar : ofSource (s ++ t) = .ok ⟨s ++ t, base.rules.merge added.rules⟩ :=
    ofSource_eq_ok_iff.mpr ⟨rfl, hrules⟩
  refine ⟨_, hgrammar, ?_, rfl, RuleTable.keys_merge _ _, ?_⟩
  · intro mode extension hextension
    rw [extend, hsource, hextension]
    exact hgrammar
  · intro name
    rw [RuleTable.find?_merge]
    cases base.rules.find? name with
    | none => rfl
    | some rule => cases added.rules.find? name <;> rfl

theorem bodiesPresent_of_scan {source : Text}
    (h : (Token.scan source).map hasEmptyBody = .ok false) : BodiesPresent source := by
  intro tokens hscan
  rw [hscan] at h
  exact Except.ok.inj h

-- The extension defines a new name first and then adds to the name of the base, on a second line;
-- read on its own it defines both.
theorem extend_eq_merge_second_line :
    let s : Text := ['a', '=', 'b', '\n']
    let t : Text := ['c', '=', 'a', '\n', 'A', '=', '/', '\n', ' ', 'c', '/', 'd', '\n']
    let base : Grammar := ⟨s, ⟨[(['A'], ⟨['A'], .reference ['B']⟩)]⟩⟩
    let added : Grammar := ⟨t, ⟨[(['C'], ⟨['C'], .reference ['A']⟩),
      (['A'], ⟨['A'], .alternation [.reference ['C'], .reference ['D']]⟩)]⟩⟩
    ofSource s = .ok base ∧ ofSource t = .ok added ∧ s.getLast? = some '\n' ∧
    t.head? ≠ some ' ' ∧ t.head? ≠ some '\t' ∧ BodiesPresent s ∧ BodiesPresent t ∧
    ∃ rules, ofSource (s ++ t) = .ok ⟨s ++ t, rules⟩ ∧
      base.extend .strict t = .ok ⟨s ++ t, rules⟩ ∧ rules = base.rules.merge added.rules ∧
      rules.keys = [['A'], ['C']] ∧
      rules.find? ['A'] = some ⟨['A'],
        .alternation [.reference ['B'], .reference ['C'], .reference ['D']]⟩ := by
  intro s t base added
  have hbase : ofSource s = .ok base := rfl
  have hadded : ofSource t = .ok added := rfl
  have hs : BodiesPresent s := bodiesPresent_of_scan rfl
  have ht : BodiesPresent t := bodiesPresent_of_scan rfl
  obtain ⟨rules, hgrammar, hextend, hmerge, hkeys, hfind⟩ :=
    extend_eq_merge hbase hadded (.inr rfl) ⟨by decide, by decide⟩ hs ht
  refine ⟨hbase, hadded, rfl, by decide, by decide, hs, ht, rules, hgrammar, ?_, hmerge, ?_, ?_⟩
  · exact hextend .strict t rfl
  · rw [hkeys]
    rfl
  · rw [hfind]
    rfl

end Grammar

end AugmentedBnf
