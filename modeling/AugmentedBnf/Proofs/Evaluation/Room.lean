import Mathlib.Data.Finset.Prod
import Mathlib.Data.List.Infix
import AugmentedBnf.Evaluation.Basic
import AugmentedBnf.Proofs.Evaluation.Reading

/-! # How much room a cursor leaves for entering rules

A rule is entered at most once at each offset that is still ahead. The room of a cursor is the
set of these entries. It shrinks whenever a rule is entered and never grows when the cursor moves
past matched input, so it bounds how deep rules can nest.
-/
namespace AugmentedBnf

def RuleTable.names (rules : RuleTable) : Finset Text :=
  (rules.entries.map fun entry => entry.2.name).toFinset

theorem RuleTable.name_mem_names {rules : RuleTable} {key : Text} {rule : Rule}
    (h : rules.find? key = some rule) : rule.name ∈ rules.names := by
  obtain ⟨before, after, hentries, -⟩ := List.lookup_eq_some_iff.mp h
  have hmem : (key, rule) ∈ rules.entries := by simp [hentries]
  exact List.mem_toFinset.mpr (List.mem_map_of_mem hmem)

theorem RuleTable.card_names_le (rules : RuleTable) : rules.names.card ≤ rules.size :=
  (List.toFinset_card_le _).trans (List.length_map _).le

namespace Cursor

/-- The boundaries between characters of the remaining input, as offsets. -/
def offsets (c : Cursor) : Finset Nat :=
  (c.remaining.inits.map fun w => c.index + Text.byteSize w).toFinset

/-- The entries into rules that no active name forbids. -/
def room (c : Cursor) : Finset (Nat × Text) :=
  {entry ∈ c.offsets ×ˢ c.context.rules.names | (c.moveTo entry.1).isActive entry.2 = false}

theorem mem_room {c : Cursor} {entry : Nat × Text} :
    entry ∈ c.room ↔ entry ∈ c.offsets ×ˢ c.context.rules.names ∧ entry ∉ c.active := by
  rw [room, Finset.mem_filter, ← Bool.not_eq_true, isActive_moveTo_iff]

theorem mem_offsets {c : Cursor} {i : Nat} :
    i ∈ c.offsets ↔ ∃ n, c.Covers n ∧ i = c.index + n := by
  simp only [offsets, List.mem_toFinset, List.mem_map, List.mem_inits]
  constructor
  · rintro ⟨w, ⟨rest, hrest⟩, rfl⟩
    exact ⟨_, ⟨w, rest, trivial, hrest.symm, rfl⟩, rfl⟩
  · rintro ⟨n, ⟨w, rest, -, hrest, rfl⟩, rfl⟩
    exact ⟨w, ⟨rest, hrest.symm⟩, rfl⟩

theorem index_mem_offsets (c : Cursor) : c.index ∈ c.offsets :=
  mem_offsets.mpr ⟨0, Covers.zero c, rfl⟩

theorem offsets_moveTo_subset {c : Cursor} {n : Nat} (h : c.Covers n) :
    (c.moveTo (c.index + n)).offsets ⊆ c.offsets := by
  intro i hi
  obtain ⟨k, hk, rfl⟩ := mem_offsets.mp hi
  exact mem_offsets.mpr ⟨n + k, h.add hk, Nat.add_assoc _ _ _⟩

theorem card_offsets_le (c : Cursor) : c.offsets.card ≤ c.remaining.length + 1 := by
  have hcard := List.toFinset_card_le (c.remaining.inits.map fun w => c.index + Text.byteSize w)
  rwa [List.length_map, List.length_inits] at hcard

theorem card_entries_le (c : Cursor) :
    (c.offsets ×ˢ c.context.rules.names).card ≤
      c.context.rules.size * (c.remaining.length + 1) := by
  rw [Finset.card_product, Nat.mul_comm]
  exact Nat.mul_le_mul c.context.rules.card_names_le c.card_offsets_le

theorem card_room_lt_nestingBound (c : Cursor) :
    c.room.card < Expression.nestingBound c := by
  have hroom : c.room.card ≤ (c.offsets ×ˢ c.context.rules.names).card :=
    Finset.card_le_card (Finset.filter_subset _ _)
  have hentries := c.card_entries_le
  unfold Expression.nestingBound
  omega

theorem card_room_moveTo_le {c : Cursor} {n : Nat} (h : c.Covers n) :
    (c.moveTo (c.index + n)).room.card ≤ c.room.card := by
  refine Finset.card_le_card fun entry hentry => ?_
  obtain ⟨hahead, hidle⟩ := mem_room.mp hentry
  obtain ⟨hoffset, hname⟩ := Finset.mem_product.mp hahead
  exact mem_room.mpr ⟨Finset.mem_product.mpr ⟨offsets_moveTo_subset h hoffset, hname⟩, hidle⟩

theorem card_room_label_lt {c : Cursor} {key : Text} {rule : Rule}
    (hrule : c.context.rule? key = some rule) (hidle : c.isActive rule.name = false) :
    (c.label rule.name).room.card < c.room.card := by
  have hfresh : (c.index, rule.name) ∉ c.active := by
    intro hmem
    rw [isActive_iff.mpr hmem] at hidle
    cases hidle
  -- the entry that is made now is in the room before and not after
  have hbefore : (c.index, rule.name) ∈ c.room :=
    mem_room.mpr ⟨Finset.mk_mem_product c.index_mem_offsets (RuleTable.name_mem_names hrule), hfresh⟩
  have hafter : (c.label rule.name).room = c.room.erase (c.index, rule.name) := by
    ext entry
    rw [mem_room, Finset.mem_erase, mem_room, mem_active_label]
    simp only [label_context, offsets, label_remaining, label_index]
    tauto
  rw [hafter]
  exact Finset.card_erase_lt_of_mem hbefore

end Cursor

end AugmentedBnf
