import AugmentedBnf.Proofs.Grammar.Definitions

/-! # Merging rule tables

The rules of one table with those of another added to them: a name of the first keeps its place and
gets the alternatives that the second has for it, and the other names of the second follow in their
order. Adding a definition to the second table or to the merged one is the same, so definitions can
be read into a table that already has rules.
-/
namespace AugmentedBnf

theorem Expression.merge_assoc (x y z : Expression) : (x.merge y).merge z = x.merge (y.merge z) := by
  simp only [merge, branches, List.append_assoc]

namespace RuleTable

variable {base added : RuleTable} {key name : Text} {rule : Rule} {e : Expression}

/-- A rule with the alternatives of another rule of its name, if there is one. -/
def withMore (key : Text) (rule : Rule) : Option Rule → Rule
  | some more => ⟨key, rule.body.merge more.body⟩
  | none => rule

/-- The rules of a table with those of another added to them. -/
def merge (base added : RuleTable) : RuleTable :=
  ⟨base.entries.map (fun entry => (entry.1, withMore entry.1 entry.2 (added.find? entry.1))) ++
    added.entries.filter fun entry => (base.find? entry.1).isNone⟩

section Lists

variable {entries more : List (Text × Rule)}

theorem lookup_filter (g : Text → Bool) (key : Text) (entries : List (Text × Rule)) :
    (entries.filter fun entry => g entry.1).lookup key =
      if g key then entries.lookup key else none := by
  induction entries with
  | nil => simp
  | cons entry rest ih =>
    obtain ⟨k, rule⟩ := entry
    rw [List.filter_cons, lookup_cons_eq]
    by_cases hkey : key = k
    · subst hkey
      by_cases hg : g key = true
      · rw [if_pos hg, if_pos hg, lookup_cons_eq, if_pos rfl, if_pos rfl]
      · rw [if_neg hg, if_neg hg, ih, if_neg hg]
    · rw [if_neg hkey]
      by_cases hg : g k = true
      · rw [if_pos hg, lookup_cons_eq, if_neg hkey, ih]
      · rw [if_neg hg, ih]

theorem place_append (key : Text) (rule : Rule) (entries more : List (Text × Rule)) :
    place key rule (entries ++ more) =
      if key ∈ entries.map (·.1) then place key rule entries ++ more
      else entries ++ place key rule more := by
  induction entries with
  | nil => rfl
  | cons entry rest ih =>
    obtain ⟨other, old⟩ := entry
    rw [List.cons_append, place, place, ih]
    by_cases h : other = key
    · simp [h]
    · have hne : key ≠ other := fun heq => h heq.symm
      by_cases hmem : key ∈ rest.map (·.1)
      · have hcons : key ∈ ((other, old) :: rest).map (·.1) := List.mem_cons_of_mem _ hmem
        rw [if_neg h, if_neg h, if_pos hmem, if_pos hcons, List.cons_append]
      · have hcons : key ∉ ((other, old) :: rest).map (·.1) := by
          simpa only [List.map_cons, List.mem_cons, not_or] using ⟨hne, hmem⟩
        rw [if_neg h, if_neg hmem, if_neg hcons, List.cons_append]

theorem filter_place (g : Text → Bool) (key : Text) (rule : Rule) (entries : List (Text × Rule)) :
    (place key rule entries).filter (fun entry => g entry.1) =
      if g key then place key rule (entries.filter fun entry => g entry.1)
      else entries.filter fun entry => g entry.1 := by
  induction entries with
  | nil =>
    by_cases hg : g key = true
    · simp [place, hg]
    · simp [place, hg]
  | cons entry rest ih =>
    obtain ⟨other, old⟩ := entry
    rw [place]
    by_cases h : other = key
    · subst h
      by_cases hg : g other = true
      · simp [place, hg]
      · simp [hg]
    · rw [if_neg h, List.filter_cons, List.filter_cons]
      by_cases hg : g key = true
      · rw [if_pos hg] at ih ⊢
        by_cases hother : g other = true
        · rw [if_pos hother, if_pos hother, place, if_neg h, ih]
        · rw [if_neg hother, if_neg hother, ih]
      · rw [if_neg hg] at ih ⊢
        rw [ih]

end Lists

theorem merge_empty (base : RuleTable) : base.merge empty = base := by
  have hsame : (fun entry : Text × Rule =>
      (entry.1, withMore entry.1 entry.2 (empty.find? entry.1))) = id := by
    funext entry
    rfl
  rw [merge, hsame, List.map_id]
  exact congrArg RuleTable.mk (List.append_nil _)

theorem find?_merge (base added : RuleTable) (key : Text) :
    (base.merge added).find? key =
      match base.find? key with
      | some rule => some (withMore key rule (added.find? key))
      | none => added.find? key := by
  have hmap := lookup_map (fun k rule => withMore k rule (added.find? k)) key base.entries
  have hfilter := lookup_filter (fun k => (base.find? k).isNone) key added.entries
  rw [find?, merge, List.lookup_append, hmap, hfilter]
  cases hbase : base.find? key with
  | none =>
    rw [show base.entries.lookup key = none from hbase]
    rfl
  | some rule =>
    rw [show base.entries.lookup key = some rule from hbase]
    rfl

/-- First the names of the base, then the names that are added to it. -/
theorem keys_merge (base added : RuleTable) :
    (base.merge added).keys = base.keys ++ added.keys.filter fun key => key ∉ base.keys := by
  have hfirst : (base.entries.map fun entry =>
      (entry.1, withMore entry.1 entry.2 (added.find? entry.1))).map (·.1) = base.keys := by
    rw [List.map_map]
    rfl
  have hnone : ∀ key, (base.find? key).isNone = decide (key ∉ base.keys) := by
    intro key
    rw [← Option.not_isSome, Bool.eq_iff_iff, Bool.not_eq_true', decide_eq_true_iff,
      ← find?_isSome_iff, Bool.not_eq_true]
  rw [keys, merge, List.map_append, hfirst, keys, keys, List.filter_map]
  simp only [hnone]
  rfl

/-- Giving one name more alternatives in the added table changes that name only. -/
theorem map_withMore {entries : List (Text × Rule)} {old : Rule} {added' : RuleTable}
    (hnodup : (entries.map (·.1)).Nodup) (hold : entries.lookup key = some old)
    (hothers : ∀ other, other ≠ key → added'.find? other = added.find? other) :
    entries.map (fun entry => (entry.1, withMore entry.1 entry.2 (added'.find? entry.1))) =
      place key (withMore key old (added'.find? key))
        (entries.map fun entry => (entry.1, withMore entry.1 entry.2 (added.find? entry.1))) := by
  induction entries with
  | nil => cases hold
  | cons entry rest ih =>
    obtain ⟨other, rule⟩ := entry
    obtain ⟨hnot, hnodup⟩ := List.nodup_cons.mp hnodup
    rw [lookup_cons_eq] at hold
    simp only [List.map_cons]
    rw [place]
    by_cases h : key = other
    · subst h
      rw [if_pos rfl] at hold
      cases hold
      rw [if_pos rfl]
      congr 1
      apply List.map_congr_left
      rintro ⟨k, r⟩ hmem
      have hne : k ≠ key := by
        rintro rfl
        exact hnot (List.mem_map.mpr ⟨(k, r), hmem, rfl⟩)
      rw [hothers k hne]
    · rw [if_neg h] at hold
      rw [if_neg fun heq => h heq.symm, ih hnodup hold, hothers other fun heq => h heq.symm]

theorem find?_define_ne {rules : RuleTable} {other : Text} (h : other ≠ name) :
    (rules.define name e).find? other = rules.find? other := by
  rw [define, find?_insert, if_neg h]

theorem find?_define_self (rules : RuleTable) (name : Text) (e : Expression) :
    (rules.define name e).find? name = some ⟨name, rules.bodyWith name e⟩ := by
  rw [define, find?_insert, if_pos rfl]

/-- The alternatives that a definition adds come last, whichever table it is added to. -/
theorem bodyWith_merge (hbase : base.find? name = some rule) :
    (base.merge added).bodyWith name e = rule.body.merge (added.bodyWith name e) := by
  rw [bodyWith, find?_merge, hbase, bodyWith]
  cases added.find? name with
  | none => rfl
  | some more => exact Expression.merge_assoc _ _ _

theorem bodyWith_merge_of_none (hbase : base.find? name = none) :
    (base.merge added).bodyWith name e = added.bodyWith name e := by
  rw [bodyWith, find?_merge, hbase, bodyWith]

/-- A definition can be added before or after merging. -/
theorem merge_define (hbase : base.keys.Nodup) (added : RuleTable) (name : Text) (e : Expression) :
    base.merge (added.define name e) = (base.merge added).define name e := by
  have hkeys : (base.entries.map fun entry =>
      (entry.1, withMore entry.1 entry.2 (added.find? entry.1))).map (·.1) = base.keys := by
    rw [List.map_map]
    rfl
  have hothers : ∀ other, other ≠ name → (added.define name e).find? other = added.find? other :=
    fun other hne => find?_define_ne hne
  have hentries : (base.merge (added.define name e)).entries =
      ((base.merge added).define name e).entries := by
    change base.entries.map (fun entry =>
        (entry.1, withMore entry.1 entry.2 ((added.define name e).find? entry.1))) ++
      (place name ⟨name, added.bodyWith name e⟩ added.entries).filter
        (fun entry => (base.find? entry.1).isNone) =
      place name ⟨name, (base.merge added).bodyWith name e⟩ (base.merge added).entries
    rw [filter_place fun key => (base.find? key).isNone, merge, place_append, hkeys]
    cases hfind : base.find? name with
    | none =>
      have hnot : name ∉ base.keys := by
        intro hmem
        rw [← find?_isSome_iff, hfind] at hmem
        cases hmem
      have hmap : base.entries.map (fun entry =>
          (entry.1, withMore entry.1 entry.2 ((added.define name e).find? entry.1))) =
          base.entries.map fun entry =>
            (entry.1, withMore entry.1 entry.2 (added.find? entry.1)) := by
        apply List.map_congr_left
        intro entry hmem
        rw [hothers entry.1 fun heq => hnot (heq ▸ List.mem_map_of_mem hmem)]
      rw [if_neg hnot, if_pos Option.isNone_none, hmap, ← merge, bodyWith_merge_of_none hfind]
    | some old =>
      have hmem : name ∈ base.keys := by
        rw [← find?_isSome_iff, hfind]
        rfl
      have hnone : ¬ (some old : Option Rule).isNone = true := by simp
      rw [if_pos hmem, if_neg hnone, map_withMore hbase hfind hothers, find?_define_self,
        ← merge, bodyWith_merge hfind]
      rfl
  exact congrArg RuleTable.mk hentries

end RuleTable

end AugmentedBnf
