import AugmentedBnf.Proofs.Evaluation.Lengths
import AugmentedBnf.Proofs.Evaluation.Termination
import AugmentedBnf.Proofs.Expression.Normal
import AugmentedBnf.Proofs.Grammar.Table

/-! # Grouping and nesting leave matching alone

Erasing takes every group away and puts the operands of a choice inside a choice, and those of a
sequence inside a sequence, in its place. If this is done to an expression and to all rules, the
same text is matched at every cursor. So it does not matter whether further alternatives of a rule
stand in its choice or behind it.
-/
namespace AugmentedBnf

open Matcher (SameLength)

namespace Expression

/-- The links of a chain: the operands of a sequence, else the expression. -/
def links : Expression → List Expression
  | concatenation operands => operands
  | other => [other]

mutual
/-- The expression without groups, choices directly inside choices and sequences directly inside
sequences. -/
def erase : Expression → Expression
  | alternation operands => alternation ((eraseAll operands).flatMap branches)
  | concatenation operands => concatenation ((eraseAll operands).flatMap links)
  | repetition bounds operand => repetition bounds (erase operand)
  | group inner => erase inner
  | option inner => option (erase inner)
  | literal value => literal value
  | reference name => reference name
  | prose text => prose text

/-- Some expressions, erased one by one. -/
def eraseAll : List Expression → List Expression
  | [] => []
  | operand :: rest => erase operand :: eraseAll rest
end

/-- There is nothing to erase at the top: no group, no choice in a choice, no sequence in a
sequence. -/
def Flat : Expression → Prop
  | alternation operands => ∀ e ∈ operands, e.kind ≠ .alternation
  | concatenation operands => ∀ e ∈ operands, e.kind ≠ .concatenation
  | group _ => False
  | _ => True

end Expression

/-- A rule with its right-hand side erased. -/
def Rule.erase (rule : Rule) : Rule := { rule with body := rule.body.erase }

/-- A table with all right-hand sides erased. -/
def RuleTable.erase (rules : RuleTable) : RuleTable :=
  ⟨rules.entries.map fun entry => (entry.1, entry.2.erase)⟩

/-- The same cursor over the erased table. -/
def Cursor.erase (c : Cursor) : Cursor :=
  { c with context := ⟨c.context.input, c.context.rules.erase⟩ }

theorem RuleTable.find?_erase (rules : RuleTable) (key : Text) :
    rules.erase.find? key = (rules.find? key).map Rule.erase :=
  lookup_map (fun _ => Rule.erase) key rules.entries

namespace Expression

section Flat

variable {e x : Expression}

theorem eraseAll_eq_map (operands : List Expression) : eraseAll operands = operands.map erase := by
  induction operands with
  | nil => rfl
  | cons operand rest ih => rw [eraseAll, ih, List.map_cons]

theorem erase_alternation (operands : List Expression) :
    (alternation operands).erase = alternation (operands.flatMap fun e => e.erase.branches) := by
  rw [erase, eraseAll_eq_map, List.flatMap_map]

theorem erase_concatenation (operands : List Expression) :
    (concatenation operands).erase = concatenation (operands.flatMap fun e => e.erase.links) := by
  rw [erase, eraseAll_eq_map, List.flatMap_map]

theorem flat_of_mem_branches (h : Everywhere Flat e) (hx : x ∈ e.branches) :
    x.kind ≠ .alternation ∧ Everywhere Flat x := by
  cases e with
  | alternation operands => exact ⟨h.self x hx, h.child hx⟩
  | _ =>
    obtain rfl := List.mem_singleton.mp hx
    exact ⟨nofun, h⟩

theorem flat_of_mem_links (h : Everywhere Flat e) (hx : x ∈ e.links) :
    x.kind ≠ .concatenation ∧ Everywhere Flat x := by
  cases e with
  | concatenation operands => exact ⟨h.self x hx, h.child hx⟩
  | _ =>
    obtain rfl := List.mem_singleton.mp hx
    exact ⟨nofun, h⟩

/-- Nothing to erase is left at any depth. -/
theorem everywhere_flat_erase (e : Expression) : Everywhere Flat e.erase := by
  induction e using Expression.induction with
  | alternation operands ih =>
    have hall : ∀ x ∈ operands.flatMap fun e => e.erase.branches,
        x.kind ≠ .alternation ∧ Everywhere Flat x := by
      intro x hx
      obtain ⟨e, he, hx⟩ := List.mem_flatMap.mp hx
      exact flat_of_mem_branches (ih e he) hx
    rw [erase_alternation]
    exact everywhere_iff.mpr ⟨fun x hx => (hall x hx).1, fun x hx => (hall x hx).2⟩
  | concatenation operands ih =>
    have hall : ∀ x ∈ operands.flatMap fun e => e.erase.links,
        x.kind ≠ .concatenation ∧ Everywhere Flat x := by
      intro x hx
      obtain ⟨e, he, hx⟩ := List.mem_flatMap.mp hx
      exact flat_of_mem_links (ih e he) hx
    rw [erase_concatenation]
    exact everywhere_iff.mpr ⟨fun x hx => (hall x hx).1, fun x hx => (hall x hx).2⟩
  | repetition bounds operand ih => exact everywhere_of_inner rfl trivial ih
  | group inner ih => exact ih
  | option inner ih => exact everywhere_of_inner rfl trivial ih
  | literal value => exact everywhere_of_leaf rfl trivial
  | reference name => exact everywhere_of_leaf rfl trivial
  | prose text => exact everywhere_of_leaf rfl trivial

end Flat

section Matches

variable {T : RuleTable → RuleTable → Prop} {enter enter' : Expression → Matcher}

/-- The branches of an expression match together what it matches. -/
theorem length?_branches (enter : Expression → Matcher) (e : Expression) (c : Cursor) :
    (Matcher.alternation (e.branches.map (matcher enter)) c).length? =
      (e.matcher enter c).length? := by
  cases e with
  | alternation operands => rw [branches, matcher_alternation]
  | _ => exact Matcher.length?_alternation_single _ c

/-- The links of an expression match one after the other what it matches. -/
theorem length?_links (enter : Expression → Matcher) (e : Expression) (c : Cursor) :
    (Matcher.concatenation (e.links.map (matcher enter)) c).length? =
      (e.matcher enter c).length? := by
  cases e with
  | concatenation operands => rw [links, matcher_concatenation]
  | _ => exact Matcher.length?_concatenation_single _ c

/-- Erasing keeps what is matched, if it does so for the rules that are named. -/
theorem sameLength_erase (e : Expression)
    (hreference : ∀ name, SameLength T (.reference enter name) (.reference enter' name)) :
    SameLength T (e.matcher enter) (e.erase.matcher enter') := by
  induction e using Expression.induction with
  | alternation operands ih =>
    rw [matcher_alternation, erase_alternation, matcher_alternation, List.map_flatMap]
    refine .alternation_flatten (forall₂_map_map fun e he c d hcd => ?_)
    rw [length?_branches]
    exact ih e he c d hcd
  | concatenation operands ih =>
    rw [matcher_concatenation, erase_concatenation, matcher_concatenation, List.map_flatMap]
    refine .flatten (forall₂_map_map fun e he c d hcd => ?_)
    rw [length?_links]
    exact ih e he c d hcd
  | repetition bounds operand ih =>
    rw [erase, matcher, matcher]
    exact ih.repetition bounds
  | group inner ih =>
    intro c d hcd
    rw [erase, matcher, Matcher.length?_group]
    exact ih c d hcd
  | option inner ih =>
    rw [erase, matcher, matcher]
    exact ih.option
  | literal value =>
    rw [erase, matcher, matcher]
    exact .literal value
  | reference name =>
    rw [erase, matcher, matcher]
    exact hreference name
  | prose text =>
    rw [erase, matcher, matcher]
    exact .prose

/-- The induction is on the depth of rules: references enter the body of a rule and its erased
body. -/
theorem sameLength_evaluateWithin_erase (depth : Nat) (e : Expression) :
    SameLength (fun rules rules' => rules' = rules.erase) (evaluateWithin depth e)
      (evaluateWithin depth e.erase) := by
  induction depth generalizing e with
  | zero =>
    intro c d _
    rfl
  | succ depth ih =>
    refine sameLength_erase e fun name => .reference ?_
    rintro rules _ rfl
    rw [rules.find?_erase]
    cases hfind : rules.find? name with
    | none => exact .inl ⟨rfl, rfl⟩
    | some rule => exact .inr ⟨rule, rule.erase, rfl, rfl, rfl, ih rule.body⟩

theorem length?_evaluate_erase (e : Expression) (c : Cursor) :
    (e.erase.evaluate c.erase).length? = (e.evaluate c).length? := by
  have hsize : c.context.rules.erase.size = c.context.rules.size := List.length_map _
  have hbound : nestingBound c.erase = nestingBound c :=
    congrArg (fun size => size * (c.remaining.length + 1) + 1) hsize
  rw [evaluate, evaluate, hbound]
  exact (sameLength_evaluateWithin_erase _ e c c.erase ⟨rfl, rfl, rfl, rfl⟩).symm

/-- More alternatives match where the existing ones do not. -/
theorem length?_evaluate_merge (existing added : Expression) (c : Cursor) :
    ((existing.merge added).evaluate c).length? =
      ((existing.evaluate c).length?).or (added.evaluate c).length? := by
  have hbranches (e : Expression) :
      (Matcher.alternation (e.branches.map evaluate) c).length? = (e.evaluate c).length? := by
    have h := length?_branches evaluate e c
    rwa [matcher_evaluate] at h
  rw [merge, evaluate_alternation, List.map_append, Matcher.length?_alternation_append, hbranches,
    hbranches]

end Matches

theorem readMore_eq_ok {existing e : Expression} {stream rest : TokenStream}
    (h : readMore existing stream = .ok e rest) :
    ∃ added, read (stream.skip Token.Kind.trivia) = .ok added rest ∧
      e = existing.merge added := by
  obtain ⟨_, _, hskip, h⟩ := Reader.bind_eq_ok h
  cases hskip
  obtain ⟨added, _, hread, h⟩ := Reader.bind_eq_ok h
  cases h
  exact ⟨added, hread, rfl⟩

/-- Groups, choices in choices and sequences in sequences make no difference to matching: with all
of them erased, in the expression and in the rules, the same length is matched at every cursor, or
nothing is. In particular a rule that gets more alternatives matches what it matched before, and
where it matched nothing, what the alternatives match. -/
theorem evaluate_erase :
    (∀ (e : Expression) (c : Cursor), Everywhere Flat e.erase ∧
      (e.erase.evaluate c.erase).length? = (e.evaluate c).length?) ∧
    ∀ (existing e : Expression) (stream rest : TokenStream),
      readMore existing stream = .ok e rest →
      ∃ added, read (stream.skip Token.Kind.trivia) = .ok added rest ∧
        ∀ c, (e.evaluate c).length? =
          ((existing.evaluate c).length?).or (added.evaluate c).length? := by
  refine ⟨fun e c => ⟨everywhere_flat_erase e, length?_evaluate_erase e c⟩, ?_⟩
  intro existing e stream rest h
  obtain ⟨added, hread, rfl⟩ := readMore_eq_ok h
  exact ⟨added, hread, length?_evaluate_merge existing added⟩

/-- A rule that reaches itself through another one gets two more alternatives. What it had matches
the input, so the rule does with all its alternatives, and it does so without the group and with the
new choice in the place of its own. -/
theorem evaluate_erase_merged :
    let existing := group (concatenation [reference ['B'], literal (.sensitive ['x'])])
    let e := existing.merge (group (alternation [reference ['A'], literal (.sensitive ['y'])]))
    let rules : RuleTable := ⟨[(['A'], ⟨['A'], e⟩), (['B'], ⟨['B'], reference ['A']⟩)]⟩
    let c := Cursor.new ⟨['y', 'x'], rules⟩ 0 0 .empty
    let source : Text := ['(', 'a', '/', '%', 's', '"', 'y', '"', ')']
    e.erase.branches.length = 3 ∧ (e.erase.evaluate c.erase).length? = (e.evaluate c).length? ∧
      ∃ stream rest added, TokenStream.ofSource source = .ok stream ∧
        readMore existing stream = .ok e rest ∧
        read (stream.skip Token.Kind.trivia) = .ok added rest ∧
        (existing.evaluate c).length? = some 2 ∧ (e.evaluate c).length? = some 2 := by
  intro existing e rules c source
  have hstream : ∃ stream rest, TokenStream.ofSource source = .ok stream ∧
      readMore existing stream = .ok e rest := ⟨_, _, rfl, rfl⟩
  obtain ⟨stream, rest, hsource, hmore⟩ := hstream
  obtain ⟨added, hread, hlength⟩ := evaluate_erase.2 existing e stream rest hmore
  have hexisting : (existing.evaluate c).length? = some 2 := by decide
  refine ⟨rfl, (evaluate_erase.1 e c).2, stream, rest, added, hsource, hmore, hread, hexisting, ?_⟩
  rw [hlength c, hexisting, Option.some_or]

end Expression

end AugmentedBnf
