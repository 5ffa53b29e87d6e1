import AugmentedBnf.Text.Basic

/-! # The names active at each offset

A rule that is being evaluated is active at the offset where it was entered. The names of such rules
are kept in sets, one under each offset: to record one more name, the set of its offset is read,
added to and written back.
-/
namespace AugmentedBnf

/-- A set of names. -/
structure NameSet where
  names : List Text
  nodup : names.Nodup

namespace NameSet

/-- The set without names. -/
def empty : NameSet := ⟨[], .nil⟩

/-- The set with one more name; a name that was there is not added again. -/
def insert (set : NameSet) (name : Text) : NameSet where
  names := set.names.insert name
  nodup := by
    unfold List.insert
    split
    · exact set.nodup
    · rename_i hnew
      exact List.nodup_cons.mpr ⟨fun hmem => hnew (List.elem_eq_true_of_mem hmem), set.nodup⟩

/-- Whether a name is in the set. -/
def contains (set : NameSet) (name : Text) : Bool := set.names.contains name

instance : Membership Text NameSet := ⟨fun set name => name ∈ set.names⟩

variable {set : NameSet} {name other : Text}

theorem contains_iff : set.contains name = true ↔ name ∈ set := List.contains_iff_mem

@[simp] theorem not_mem_empty : name ∉ empty := List.not_mem_nil

@[simp] theorem mem_insert : other ∈ set.insert name ↔ other = name ∨ other ∈ set :=
  List.mem_insert_iff

end NameSet

/-- Sets of names under offsets, at most one under each. -/
structure ActiveNames where
  entries : List (Nat × NameSet)
  distinct : (entries.map (·.1)).Nodup

namespace ActiveNames

/-- No name is active at any offset. -/
def empty : ActiveNames := ⟨[], .nil⟩

/-- The set under an offset. -/
def get? (active : ActiveNames) (index : Nat) : Option NameSet := active.entries.lookup index

/-- Puts a set under an offset, in the place of the one that was there. -/
def insert (active : ActiveNames) (index : Nat) (set : NameSet) : ActiveNames where
  entries := (index, set) :: active.entries.filter fun entry => entry.1 != index
  distinct := by
    refine List.nodup_cons.mpr ⟨fun hmem => ?_, active.distinct.sublist (List.filter_sublist.map _)⟩
    obtain ⟨entry, hentry, hindex⟩ := List.mem_map.mp hmem
    have hother := (List.mem_filter.mp hentry).2
    exact bne_iff_ne.mp hother hindex

/-- A name is active at an offset if it is in the set under it. -/
instance : Membership (Nat × Text) ActiveNames :=
  ⟨fun active entry => ∃ set, active.get? entry.1 = some set ∧ entry.2 ∈ set⟩

variable {active : ActiveNames} {set : NameSet} {index other : Nat} {name : Text}

theorem mem_iff : (index, name) ∈ active ↔ ∃ set, active.get? index = some set ∧ name ∈ set := Iff.rfl

theorem mem_iff_of_get? (h : active.get? index = some set) : (index, name) ∈ active ↔ name ∈ set := by
  rw [mem_iff, h]
  simp

@[simp] theorem get?_empty (index : Nat) : empty.get? index = none := rfl

@[simp] theorem not_mem_empty {entry : Nat × Text} : entry ∉ empty := nofun

theorem get?_insert_self (active : ActiveNames) (index : Nat) (set : NameSet) :
    (active.insert index set).get? index = some set := by
  simp [get?, insert]

/-- The sets under all other offsets stay. -/
theorem get?_insert_of_ne (h : other ≠ index) :
    (active.insert index set).get? other = active.get? other := by
  have hkept : ∀ entries : List (Nat × NameSet),
      (entries.filter fun entry => entry.1 != index).lookup other = entries.lookup other := by
    intro entries
    induction entries with
    | nil => rfl
    | cons entry rest ih =>
      by_cases hkey : entry.1 = index
      · rw [List.filter_cons_of_neg (by simp [hkey]), ih, List.lookup_cons, hkey,
          beq_false_of_ne h]
      · rw [List.filter_cons_of_pos (by simp [hkey]), List.lookup_cons, List.lookup_cons, ih]
  rw [get?, get?, insert, List.lookup_cons, beq_false_of_ne h]
  exact hkept active.entries

/-- A name at an offset is added by reading the set of the offset and writing it back with the name. -/
theorem mem_insert_iff {entry : Nat × Text} :
    entry ∈ active.insert index (((active.get? index).getD .empty).insert name) ↔
      entry = (index, name) ∨ entry ∈ active := by
  obtain ⟨i, other⟩ := entry
  rw [Prod.mk.injEq]
  by_cases h : i = index
  · subst h
    rw [mem_iff_of_get? (get?_insert_self active i _), NameSet.mem_insert, mem_iff]
    cases active.get? i <;> simp
  · rw [mem_iff, get?_insert_of_ne h, mem_iff]
    simp [h]

end ActiveNames

end AugmentedBnf
