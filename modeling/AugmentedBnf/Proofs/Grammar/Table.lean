import AugmentedBnf.Grammar.Basic

/-! # Keys and names of rule tables

A table that is read from a grammar text holds every rule under its own name. So rules of one
name are one rule, and marking a name as active marks its rule.
-/
namespace AugmentedBnf

namespace Reader

theorem bind_eq_ok {α β : Type} {x : Reader α} {f : α → Reader β} {stream stream' : TokenStream}
    {b : β} (h : (x >>= f) stream = .ok b stream') :
    ∃ a rest, x stream = .ok a rest ∧ f a rest = .ok b stream' := by
  simp only [bind, EStateM.bind] at h
  split at h
  · rename_i a rest hx
    exact ⟨a, rest, hx, h⟩
  · cases h

end Reader

namespace RuleTable

/-- Every rule stands under its own name. -/
def Keyed (rules : RuleTable) : Prop :=
  ∀ key rule, rules.find? key = some rule → rule.name = key

/-- Rules that carry one name have one body. -/
def Coherent (rules : RuleTable) : Prop :=
  ∀ key key' rule rule', rules.find? key = some rule → rules.find? key' = some rule' →
    rule.name = rule'.name → rule.body = rule'.body

theorem Keyed.coherent {rules : RuleTable} (h : rules.Keyed) : rules.Coherent := by
  intro key key' rule rule' hrule hrule' hname
  rw [h key rule hrule, h key' rule' hrule'] at hname
  subst hname
  rw [hrule, Option.some.injEq] at hrule'
  rw [hrule']

theorem lookup_cons_eq (other key : Text) (rule : Rule) (rest : List (Text × Rule)) :
    List.lookup other ((key, rule) :: rest) =
      if other = key then some rule else List.lookup other rest := by
  rw [List.lookup_cons]
  by_cases h : other = key
  · simp [h]
  · rw [beq_eq_false_iff_ne.mpr h, if_neg h]

theorem lookup_map (f : Text → Rule → Rule) (key : Text) (entries : List (Text × Rule)) :
    (entries.map fun entry => (entry.1, f entry.1 entry.2)).lookup key =
      (entries.lookup key).map (f key) := by
  induction entries with
  | nil => rfl
  | cons entry rest ih =>
    obtain ⟨k, rule⟩ := entry
    rw [List.map_cons, lookup_cons_eq, lookup_cons_eq]
    by_cases h : key = k
    · rw [if_pos h, if_pos h, h]
      rfl
    · rw [if_neg h, if_neg h, ih]

theorem find?_insert (rules : RuleTable) (key other : Text) (rule : Rule) :
    (rules.insert key rule).find? other = if other = key then some rule else rules.find? other := by
  obtain ⟨entries⟩ := rules
  unfold insert find?
  induction entries with
  | nil => rw [place, lookup_cons_eq]
  | cons entry rest ih =>
    obtain ⟨name, old⟩ := entry
    rw [place]
    split
    · rename_i hname
      subst hname
      simp only [lookup_cons_eq]
      split <;> rfl
    · rename_i hname
      dsimp only at ih ⊢
      rw [lookup_cons_eq, lookup_cons_eq, ih]
      -- the old name and the new one differ, so the order of the two tests does not matter
      by_cases hother : other = name
      · rw [if_pos hother, if_pos hother, if_neg (hother ▸ hname)]
      · rw [if_neg hother, if_neg hother]

theorem keyed_empty : empty.Keyed := nofun

theorem Keyed.insert {rules : RuleTable} (h : rules.Keyed) (rule : Rule) :
    (rules.insert rule.name rule).Keyed := by
  intro key other hfound
  rw [find?_insert] at hfound
  split at hfound
  · rename_i hkey
    cases hfound
    exact hkey.symm
  · exact h key other hfound

theorem keyed_readAll {count : Nat} {rules result : RuleTable} {stream stream' : TokenStream}
    (h : rules.Keyed) (hread : readAll count rules stream = .ok result stream') :
    result.Keyed := by
  induction count generalizing rules stream with
  | zero =>
    cases hread
    exact h
  | succ count ih =>
    obtain ⟨current, _, -, hread⟩ := Reader.bind_eq_ok hread
    split at hread
    · obtain ⟨rule, _, -, hread⟩ := Reader.bind_eq_ok hread
      obtain ⟨_, _, -, hread⟩ := Reader.bind_eq_ok hread
      exact ih (h.insert rule) hread
    · cases hread
      exact h

/-- Every table that is read from a grammar text is keyed by the names of its rules. -/
theorem keyed_ofSource {source : Text} {rules : RuleTable} (h : ofSource source = .ok rules) :
    rules.Keyed := by
  unfold ofSource at h
  cases hstream : TokenStream.ofSource source with
  | error cause => simp [hstream, bind, Except.bind] at h
  | ok stream =>
    simp only [hstream, bind, Except.bind] at h
    split at h
    · rename_i result rest hread
      cases h
      obtain ⟨_, _, -, hread⟩ := Reader.bind_eq_ok hread
      obtain ⟨_, _, -, hread⟩ := Reader.bind_eq_ok hread
      exact keyed_readAll keyed_empty hread
    · cases h

end RuleTable

end AugmentedBnf
