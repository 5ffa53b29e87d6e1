import Mathlib.Computability.Language
import Mathlib.Order.CompletePartialOrder
import AugmentedBnf.Evaluation.Cursor
import AugmentedBnf.Proofs.Text.Cut

/-! # Reading strings at a cursor

A cursor reads a string of a language when its remaining input starts with one. Moving past the
string leaves the rest, also where the cursor stands inside a character or past the end: there
only the empty string is read.
-/
namespace AugmentedBnf.Cursor

@[simp] theorem moveTo_index (c : Cursor) (i : Nat) : (c.moveTo i).index = i := rfl
@[simp] theorem moveTo_context (c : Cursor) (i : Nat) : (c.moveTo i).context = c.context := rfl
@[simp] theorem moveTo_active (c : Cursor) (i : Nat) : (c.moveTo i).active = c.active := rfl
@[simp] theorem moveTo_depth (c : Cursor) (i : Nat) : (c.moveTo i).depth = c.depth := rfl
@[simp] theorem moveTo_path (c : Cursor) (i : Nat) : (c.moveTo i).path = c.path := rfl
@[simp] theorem moveTo_moveTo (c : Cursor) (i j : Nat) : (c.moveTo i).moveTo j = c.moveTo j := rfl
@[simp] theorem moveTo_self (c : Cursor) : c.moveTo c.index = c := rfl

@[simp] theorem label_index (c : Cursor) (name : Text) : (c.label name).index = c.index := rfl
@[simp] theorem label_context (c : Cursor) (name : Text) : (c.label name).context = c.context := rfl
@[simp] theorem label_depth (c : Cursor) (name : Text) : (c.label name).depth = c.depth + 1 := rfl
@[simp] theorem label_path (c : Cursor) (name : Text) : (c.label name).path = c.path.fork name := rfl
@[simp] theorem label_remaining (c : Cursor) (name : Text) :
    (c.label name).remaining = c.remaining := rfl

theorem remaining_new (input : Text) (rules : RuleTable) (depth : Nat) (path : Path) :
    (new ⟨input, rules⟩ 0 depth path).remaining = input := by
  cases input <;> rfl

/-- Moving past a front of the remaining input leaves what follows it. -/
theorem remaining_moveTo {c : Cursor} {w rest : Text} (h : c.remaining = w ++ rest) :
    (c.moveTo (c.index + w.byteSize)).remaining = rest := by
  cases hdrop : c.context.input.dropBytes? c.index with
  | none =>
    -- nothing remains here, so the front is empty and the cursor stays
    have hnil : w ++ rest = [] := by rw [← h, remaining, hdrop, Option.getD_none]
    obtain ⟨rfl, rfl⟩ := List.append_eq_nil_iff.mp hnil
    simpa using h
  | some tail =>
    have htail : tail = w ++ rest := by rw [← h, remaining, hdrop, Option.getD_some]
    obtain ⟨before, hinput, hsize⟩ := Text.dropBytes?_eq_some_iff.mp hdrop
    have hcut : c.context.input = (before ++ w) ++ rest := by
      rw [hinput, htail, List.append_assoc]
    have hindex : c.index + w.byteSize = Text.byteSize (before ++ w) := by
      rw [Text.byteSize_append, hsize]
    rw [remaining, moveTo_context, moveTo_index, hindex, hcut, Text.dropBytes?_append,
      Option.getD_some]

/-- The next `n` bytes at the cursor are a string of the language. -/
def Reads (c : Cursor) (n : Nat) (strings : Language Char) : Prop :=
  ∃ w rest : Text, w ∈ strings ∧ c.remaining = w ++ rest ∧ w.byteSize = n

/-- The next `n` bytes at the cursor are whole characters of the input. -/
def Covers (c : Cursor) (n : Nat) : Prop := c.Reads n ⊤

namespace Reads

variable {c : Cursor} {n k : Nat} {K L : Language Char}

theorem mono (h : c.Reads n K) (hle : K ≤ L) : c.Reads n L := by
  obtain ⟨w, rest, hw, hrest, hsize⟩ := h
  exact ⟨w, rest, hle hw, hrest, hsize⟩

theorem covers (h : c.Reads n L) : c.Covers n := h.mono le_top

theorem empty (c : Cursor) : c.Reads 0 1 :=
  ⟨[], c.remaining, Language.nil_mem_one, rfl, rfl⟩

/-- One string after the other is a string of the product. -/
theorem mul (hfirst : c.Reads n K) (hnext : (c.moveTo (c.index + n)).Reads k L) :
    c.Reads (n + k) (K * L) := by
  obtain ⟨v, rest, hv, hrest, rfl⟩ := hfirst
  obtain ⟨w, rest', hw, hrest', rfl⟩ := hnext
  rw [remaining_moveTo hrest] at hrest'
  refine ⟨v ++ w, rest', Language.append_mem_mul hv hw, ?_, Text.byteSize_append v w⟩
  rw [hrest, hrest', List.append_assoc]

/-- The read string is the front of the remaining input with that many bytes. -/
theorem takeBytes? (h : c.Reads n L) : ∃ w, c.remaining.takeBytes? n = some w ∧ w ∈ L := by
  obtain ⟨w, rest, hw, hrest, hsize⟩ := h
  exact ⟨w, Text.takeBytes?_eq_some_iff.mpr ⟨rest, hrest, hsize⟩, hw⟩

end Reads

section Reads

variable {c : Cursor} {n : Nat} {K L : Language Char}

theorem reads_iff : c.Reads n L ↔ ∃ w : Text, w ∈ L ∧ w <+: c.remaining ∧ w.byteSize = n := by
  constructor
  · rintro ⟨w, rest, hw, hrest, hsize⟩
    exact ⟨w, hw, ⟨rest, hrest.symm⟩, hsize⟩
  · rintro ⟨w, hw, ⟨rest, hrest⟩, hsize⟩
    exact ⟨w, rest, hw, hrest.symm, hsize⟩

theorem reads_zero_iff : c.Reads n 0 ↔ False := by
  simp [reads_iff]

theorem reads_one_iff : c.Reads n 1 ↔ n = 0 := by
  simp [reads_iff, eq_comm]

theorem reads_add_iff : c.Reads n (K + L) ↔ c.Reads n K ∨ c.Reads n L := by
  simp only [Reads, Language.mem_add, or_and_right, exists_or]

theorem reads_mul_iff : c.Reads n (K * L) ↔
    ∃ i j, c.Reads i K ∧ (c.moveTo (c.index + i)).Reads j L ∧ i + j = n := by
  constructor
  · rintro ⟨w, rest, hw, hrest, rfl⟩
    obtain ⟨u, hu, v, hv, rfl⟩ := Language.mem_mul.mp hw
    rw [List.append_assoc] at hrest
    exact ⟨Text.byteSize u, Text.byteSize v, ⟨u, v ++ rest, hu, hrest, rfl⟩,
      ⟨v, rest, hv, remaining_moveTo hrest, rfl⟩, (Text.byteSize_append u v).symm⟩
  · rintro ⟨i, j, hi, hj, rfl⟩
    exact hi.mul hj

end Reads

namespace Covers

variable {c : Cursor} {n k : Nat}

theorem zero (c : Cursor) : c.Covers 0 := (Reads.empty c).covers

theorem add (hfirst : c.Covers n) (hnext : (c.moveTo (c.index + n)).Covers k) :
    c.Covers (n + k) := (hfirst.mul hnext).covers

/-- What is covered and what then remains make up the remaining input. -/
theorem split (h : c.Covers n) :
    ∃ w, c.remaining = w ++ (c.moveTo (c.index + n)).remaining ∧ w.byteSize = n := by
  obtain ⟨w, rest, -, hrest, rfl⟩ := h
  exact ⟨w, by rw [remaining_moveTo hrest, hrest], rfl⟩

/-- Less input remains after a match that takes something. -/
theorem length_lt (h : c.Covers n) (hn : 0 < n) :
    (c.moveTo (c.index + n)).remaining.length < c.remaining.length := by
  obtain ⟨w, hw, hsize⟩ := h.split
  have hne : w ≠ [] := by
    rintro rfl
    simp at hsize
    omega
  have hlen := List.length_pos_iff.mpr hne
  rw [hw, List.length_append]
  omega

/-- At a boundary of the input, what is covered is a span of it. -/
theorem spans (h : c.Covers n) (hindex : c.context.input.IsBoundary c.index) :
    ∃ text, c.context.input.Spans c.index n text := by
  obtain ⟨w, rest, -, hrest, hsize⟩ := h
  obtain ⟨before, after, hinput, hbefore⟩ := hindex
  have hremaining : c.remaining = after := by
    rw [remaining, hinput, ← hbefore, Text.dropBytes?_append, Option.getD_some]
  exact ⟨w, before, rest, by rw [hinput, ← hremaining, hrest], hbefore, hsize⟩

/-- Inside a character or past the end nothing is covered. -/
theorem eq_zero (h : c.Covers n) (hindex : ¬ c.context.input.IsBoundary c.index) : n = 0 := by
  obtain ⟨w, rest, -, hrest, rfl⟩ := h
  rw [remaining, Text.dropBytes?_eq_none_iff.mpr hindex, Option.getD_none] at hrest
  rw [(List.append_eq_nil_iff.mp hrest.symm).1, Text.byteSize_nil]

end Covers

/-- The second cursor belongs to the same evaluation and stands behind a front of what remains at
the first. -/
structure Reaches (root c : Cursor) : Prop where
  context : c.context = root.context
  covered : ∃ n, root.Covers n ∧ c.index = root.index + n

namespace Reaches

variable {root c : Cursor}

theorem refl (c : Cursor) : c.Reaches c := ⟨rfl, 0, Covers.zero c, rfl⟩

theorem moveTo (h : root.Reaches c) {n : Nat} (hn : c.Covers n) :
    root.Reaches (c.moveTo (c.index + n)) := by
  obtain ⟨k, hk, hindex⟩ := h.covered
  have hsame : (root.moveTo (root.index + k)).remaining = c.remaining := by
    simp only [remaining, moveTo_context, moveTo_index, hindex, h.context]
  refine ⟨h.context, k + n, hk.add ?_, ?_⟩
  · rwa [Covers, Reads, hsame]
  · rw [moveTo_index, hindex, Nat.add_assoc]

theorem label (h : root.Reaches c) (name : Text) : root.Reaches (c.label name) :=
  ⟨h.context, h.covered⟩

end Reaches

end AugmentedBnf.Cursor
