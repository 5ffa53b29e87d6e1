import Mathlib.Data.Finset.Basic
import Mathlib.Data.List.Basic
import AugmentedBnf.Proofs.Evaluation.Reading

/-! # What a cursor remembers

A cursor is moved to offsets and labelled with names. Its path and depth count the labels, its index
is where it was moved last, and the names active at an offset are those it was labelled with while it
stood there, also if it has moved away and come back in between.
-/
namespace AugmentedBnf.Cursor

/-- What is done to a cursor. -/
inductive Move where
  | moveTo (index : Nat)
  | label (name : Text)
  deriving DecidableEq

namespace Move

/-- The cursor after a move. -/
def apply (c : Cursor) : Move → Cursor
  | moveTo index => c.moveTo index
  | label name => c.label name

/-- The offset that a move leads to. -/
def target? : Move → Option Nat
  | moveTo index => some index
  | label _ => none

/-- The name that a move labels with. -/
def name? : Move → Option Text
  | moveTo _ => none
  | label name => some name

end Move

/-- The cursor after some moves. -/
def follow (c : Cursor) (moves : List Move) : Cursor := moves.foldl Move.apply c

/-- The names that the moves label with, in order. -/
def labels (moves : List Move) : List Text := moves.filterMap Move.name?

/-- Where the moves lead from an offset: to the target of the last one that has a target. -/
def destination (index : Nat) (moves : List Move) : Nat :=
  (moves.filterMap Move.target?).getLast?.getD index

/-- Some move labels with the name, and the moves before it lead to the offset. -/
def Labelled (start : Nat) (moves : List Move) (index : Nat) (name : Text) : Prop :=
  ∃ before after, moves = before ++ .label name :: after ∧ destination start before = index

/-- The names active at an offset. -/
def namesAt (c : Cursor) (index : Nat) : Finset Text :=
  ((c.active.get? index).getD .empty).names.toFinset

section Step

variable {c : Cursor} {index : Nat} {name : Text}

theorem mem_namesAt_iff : name ∈ c.namesAt index ↔ (index, name) ∈ c.active := by
  rw [namesAt, List.mem_toFinset, ActiveNames.mem_iff]
  cases h : c.active.get? index with
  | none => simp [NameSet.empty]
  | some set => simp only [Option.getD_some, Option.some.injEq, exists_eq_left']; rfl

theorem isActive_moveTo_iff_mem_namesAt :
    (c.moveTo index).isActive name = true ↔ name ∈ c.namesAt index := by
  rw [isActive_moveTo_iff, mem_namesAt_iff]

@[simp] theorem namesAt_new (context : Context) (index depth : Nat) (path : Path) (i : Nat) :
    (new context index depth path).namesAt i = ∅ := rfl

@[simp] theorem namesAt_moveTo (c : Cursor) (index : Nat) : (c.moveTo index).namesAt = c.namesAt := rfl

/-- A label adds its name to those at the offset of the cursor and keeps all others. -/
theorem namesAt_label (c : Cursor) (name : Text) :
    (c.label name).namesAt = Function.update c.namesAt c.index (insert name (c.namesAt c.index)) := by
  funext index
  by_cases h : index = c.index
  · -- what was recorded at the offset before is read and written back with the name
    rw [h, Function.update_self, namesAt, label, ActiveNames.get?_insert_self, Option.getD_some]
    ext other
    rw [List.mem_toFinset, Finset.mem_insert, namesAt, List.mem_toFinset]
    exact NameSet.mem_insert
  · rw [Function.update_of_ne h, namesAt, label, ActiveNames.get?_insert_of_ne h, namesAt]

end Step

section Moves

variable {start index : Nat} {moves : List Move} {move : Move} {name : Text}

@[simp] theorem follow_append_singleton (c : Cursor) (moves : List Move) (move : Move) :
    c.follow (moves ++ [move]) = move.apply (c.follow moves) := List.foldl_concat ..

theorem labels_append_singleton (moves : List Move) (move : Move) :
    labels (moves ++ [move]) = labels moves ++ move.name?.toList := by
  cases move <;> simp [labels, Move.name?]

theorem destination_append_singleton (start : Nat) (moves : List Move) (move : Move) :
    destination start (moves ++ [move]) = move.target?.getD (destination start moves) := by
  cases move <;> simp [destination, Move.target?]

/-- One more move labels with its own name, at the offset that the moves before it lead to. -/
theorem labelled_append_singleton : Labelled start (moves ++ [move]) index name ↔
    Labelled start moves index name ∨ move = .label name ∧ destination start moves = index := by
  constructor
  · rintro ⟨before, after, hmoves, hindex⟩
    rcases List.eq_nil_or_concat after with rfl | ⟨after, last, rfl⟩
    · obtain ⟨rfl, hlast⟩ := List.append_inj' hmoves rfl
      exact .inr ⟨List.singleton_inj.mp hlast, hindex⟩
    · rw [List.concat_eq_append, ← List.cons_append, ← List.append_assoc] at hmoves
      exact .inl ⟨before, after, (List.append_inj' hmoves rfl).1, hindex⟩
  · rintro (⟨before, after, rfl, hindex⟩ | ⟨rfl, hindex⟩)
    · exact ⟨before, after ++ [move], by simp, hindex⟩
    · exact ⟨moves, [], rfl, hindex⟩

end Moves

/-- What the cursor has become after the moves is their history. -/
structure Recounts (c : Cursor) (moves : List Move) : Prop where
  context : (c.follow moves).context = c.context
  path : (c.follow moves).path = .ofSegments (c.path.segments ++ labels moves)
  depth : (c.follow moves).depth = c.depth + (labels moves).length
  index : (c.follow moves).index = destination c.index moves
  active : ∀ index name, ((c.follow moves).moveTo index).isActive name = true ↔
    Labelled c.index moves index name

namespace Recounts

variable {c : Cursor} {moves : List Move}

/-- A cursor that nothing was done to has no history, as long as no name is active. -/
theorem nil (h : c.namesAt = fun _ => ∅) : Recounts c [] where
  context := rfl
  path := by simp [follow, labels, Path.ofSegments_segments]
  depth := rfl
  index := rfl
  active index name := by
    rw [isActive_moveTo_iff_mem_namesAt]
    simp [follow, h, Labelled]

/-- One more move goes into the history. -/
theorem concat (h : Recounts c moves) (move : Move) : Recounts c (moves ++ [move]) := by
  cases move with
  | moveTo target =>
    constructor
    case context => simpa [Move.apply] using h.context
    case path => simpa [Move.apply, labels_append_singleton, Move.name?] using h.path
    case depth => simpa [Move.apply, labels_append_singleton, Move.name?] using h.depth
    case index => simp [Move.apply, destination_append_singleton, Move.target?]
    case active =>
      intro i name
      rw [labelled_append_singleton, ← h.active, isActive_moveTo_iff_mem_namesAt]
      simp [Move.apply, isActive_moveTo_iff_mem_namesAt]
  | label added =>
    constructor
    case context => simpa [Move.apply] using h.context
    case path =>
      rw [labels_append_singleton, ← List.append_assoc, Move.name?, Option.toList_some,
        Path.ofSegments_append_singleton, ← h.path]
      simp [Move.apply]
    case depth => simp [Move.apply, labels_append_singleton, Move.name?, h.depth, Nat.add_assoc]
    case index => simp [Move.apply, destination_append_singleton, Move.target?, h.index]
    case active =>
      intro i name
      -- The names at the offset of the cursor are read, added to and written back.
      rw [labelled_append_singleton, ← h.active, isActive_moveTo_iff_mem_namesAt,
        isActive_moveTo_iff_mem_namesAt, follow_append_singleton, Move.apply, namesAt_label, h.index]
      by_cases hindex : i = destination c.index moves
      · subst hindex
        simp [or_comm, eq_comm]
      · simp [hindex, Ne.symm hindex]

end Recounts

/-- However a cursor is moved and labelled, what it remembers is its history: it starts with no
active name, and one move after the other goes in. -/
theorem follow_recounts (context : Context) (moves : List Move) :
    (∀ index depth path, Recounts (new context index depth path) moves) ∧
      ∀ name, Recounts (start name context) moves := by
  have horigin (index depth : Nat) (path : Path) : Recounts (new context index depth path) moves := by
    induction moves using List.reverseRecOn with
    | nil => exact .nil (funext (namesAt_new context index depth path))
    | append_singleton moves move ih => exact ih.concat move
  exact ⟨horigin, fun name => horigin 0 0 (Path.empty.fork name)⟩

/-- Back at offset 0, the name from before is active next to the new one, and that of offset 2 is not. -/
example (context : Context) :
    let c := (new context 0 0 .empty).follow
      [.label ['a'], .moveTo 2, .label ['b'], .moveTo 0, .label ['c']]
    c.isActive ['a'] = true ∧ c.isActive ['c'] = true ∧ c.isActive ['b'] = false := ⟨rfl, rfl, rfl⟩

end AugmentedBnf.Cursor
