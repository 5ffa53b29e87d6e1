import AugmentedBnf.Proofs.Evaluation.Termination

/-! # Greedy repetition

A repetition tries its operand again and again, each time where the last match ended, until the
maximum is reached, an attempt fails or an attempt takes nothing. How many matches there are depends
on the operand, the cursor and the maximum; the minimum only decides whether they are enough.
-/
namespace AugmentedBnf

theorem Bounds.Open.ne {bounds : Bounds} {count : Nat} (h : bounds.Open count) :
    bounds.max ≠ some count := fun heq => Nat.lt_irrefl count (h count heq)

namespace Expression

/-- How far the operand gets in some attempts, each made where the one before it ended. -/
def advance (operand : Expression) (c : Cursor) : (count : Nat) → Nat
  | 0 => 0
  | count + 1 =>
    let offset := operand.advance c count
    offset + (operand.evaluate (c.moveTo (c.index + offset))).length?.getD 0

/-- The attempt that follows so many others. -/
def attempt (operand : Expression) (c : Cursor) (count : Nat) : Node :=
  operand.evaluate (c.moveTo (c.index + operand.advance c count))

/-- The first attempts in order. -/
def attempts (operand : Expression) (c : Cursor) (count : Nat) : List Node :=
  (List.range count).map (operand.attempt c)

/-- The first attempts each take something, and the maximum is not reached before they are made. -/
def Progresses (operand : Expression) (c : Cursor) (max : Option Nat) (count : Nat) : Prop :=
  ∀ i < count, max ≠ some i ∧ ∃ n, (operand.attempt c i).length? = some (n + 1)

/-- After so many matches that each took something, the maximum is reached, or the next attempt
fails or takes nothing, and none of this happens earlier. -/
structure Halts (operand : Expression) (c : Cursor) (max : Option Nat) (count : Nat) : Prop where
  progress : operand.Progresses c max count
  stop : max = some count ∨ (operand.attempt c count).length? = none ∨
    (operand.attempt c count).length? = some 0

/-- The node of a repetition that stops after so many matches, by what makes it stop. -/
inductive Concludes (operand : Expression) (c : Cursor) (bounds : Bounds) (count : Nat) :
    Node → Prop where
  | atMaximum (full : bounds.max = some count) (enough : bounds.min ≤ count) :
      Concludes operand c bounds count
        (.success c .repetition (operand.advance c count) (operand.attempts c count))
  | unreachable (full : bounds.max = some count) (few : count < bounds.min) :
      Concludes operand c bounds count (.failure c .repetition .repetitionBelowMinimum [])
  | failed (more : bounds.max ≠ some count) (miss : (operand.attempt c count).length? = none)
      (enough : bounds.min ≤ count) :
      Concludes operand c bounds count
        (.success c .repetition (operand.advance c count) (operand.attempts c count))
  | tooFew (more : bounds.max ≠ some count) (miss : (operand.attempt c count).length? = none)
      (few : count < bounds.min) :
      Concludes operand c bounds count
        (.failure c .repetition .repetitionBelowMinimum [operand.attempt c count])
  | idle (more : bounds.max ≠ some count) (hit : (operand.attempt c count).length? = some 0)
      (enough : bounds.min ≤ count) :
      Concludes operand c bounds count
        (.success c .repetition (operand.advance c count) (operand.attempts c (count + 1)))
  | noProgress (more : bounds.max ≠ some count)
      (hit : (operand.attempt c count).length? = some 0) (few : count < bounds.min) :
      Concludes operand c bounds count (.failure c .repetition .repetitionNoProgress [])

variable {operand : Expression} {c : Cursor} {max max' : Option Nat} {bounds : Bounds}
  {count count' : Nat}

@[simp] theorem length_attempts (operand : Expression) (c : Cursor) (count : Nat) :
    (operand.attempts c count).length = count := by
  rw [attempts, List.length_map, List.length_range]

theorem attempts_succ (operand : Expression) (c : Cursor) (count : Nat) :
    operand.attempts c (count + 1) = operand.attempts c count ++ [operand.attempt c count] := by
  rw [attempts, List.range_succ, List.map_append]
  rfl

theorem advance_succ {n : Nat} (h : (operand.attempt c count).length? = some n) :
    operand.advance c (count + 1) = operand.advance c count + n := by
  rw [advance, ← attempt, h, Option.getD_some]

theorem advance_mono (h : count ≤ count') : operand.advance c count ≤ operand.advance c count' := by
  induction h with
  | refl => exact Nat.le_refl _
  | step _ ih => exact ih.trans (Nat.le_add_right _ _)

theorem Progresses.succ {n : Nat} (h : operand.Progresses c max count) (hmax : max ≠ some count)
    (hhit : (operand.attempt c count).length? = some (n + 1)) :
    operand.Progresses c max (count + 1) := by
  intro i hi
  rcases Nat.lt_succ_iff_lt_or_eq.mp hi with hlt | rfl
  · exact h i hlt
  · exact ⟨hmax, n, hhit⟩

theorem Progresses.le_of_halts (h : operand.Progresses c max count)
    (hhalts : operand.Halts c max count') : count ≤ count' := by
  by_contra hlt
  obtain ⟨hmore, n, hhit⟩ := h count' (Nat.lt_of_not_le hlt)
  rcases hhalts.stop with hfull | hmiss | hidle
  · exact hmore hfull
  · cases hmiss.symm.trans hhit
  · cases hidle.symm.trans hhit

theorem Halts.unique (h : operand.Halts c max count) (h' : operand.Halts c max count') :
    count = count' :=
  Nat.le_antisymm (h.progress.le_of_halts h') (h'.progress.le_of_halts h)

/-- Whatever ends the matches, their number decides whether the repetition succeeds, and then it has
their length. -/
theorem Concludes.length?_eq {node : Node} (h : operand.Concludes c bounds count node) :
    node.length? = if bounds.min ≤ count then some (operand.advance c count) else none := by
  cases h with
  | atMaximum _ enough | failed _ _ enough | idle _ _ enough => rw [if_pos enough]; rfl
  | unreachable _ few | tooFew _ _ few | noProgress _ _ few =>
    rw [if_neg (Nat.not_le_of_lt few)]
    rfl

/-- The invariant of the rounds is that the accepted nodes are the first attempts. -/
theorem exists_concludes_of_runs {s : Nat} {task : Task} {node : Node}
    (h : Runs Cursor.isActive s task c node)
    (htask : task = .rounds bounds operand (operand.attempts c count) (operand.advance c count))
    (hprogress : operand.Progresses c bounds.max count) :
    ∃ k, operand.Halts c bounds.max k ∧ operand.Concludes c bounds k node := by
  induction h generalizing count with
  | rounds_full full =>
    cases htask
    have hfull : bounds.max = some count := by
      obtain ⟨max, hmax, hle⟩ : ∃ max, bounds.max = some max ∧ max ≤ count := by
        simpa [Bounds.Open] using full
      rcases Nat.lt_or_eq_of_le hle with hlt | rfl
      · exact absurd hmax (hprogress max hlt).1
      · exact hmax
    refine ⟨count, ⟨hprogress, .inl hfull⟩, ?_⟩
    simp only [Matcher.settle, length_attempts]
    split
    · exact .atMaximum hfull (by assumption)
    · exact .unreachable hfull (by omega)
  | rounds_failed more run miss =>
    cases htask
    have hmore := more.ne
    rw [length_attempts] at hmore
    obtain rfl := evaluate_eq_of_runs run
    refine ⟨count, ⟨hprogress, .inr (.inl miss)⟩, ?_⟩
    simp only [Matcher.settle, length_attempts]
    split
    · exact .failed hmore miss (by assumption)
    · exact .tooFew hmore miss (by omega)
  | rounds_idle more run hit =>
    cases htask
    have hmore := more.ne
    rw [length_attempts] at hmore
    obtain rfl := evaluate_eq_of_runs run
    refine ⟨count, ⟨hprogress, .inr (.inr hit)⟩, ?_⟩
    simp only [Matcher.settle, length_attempts]
    split
    · rw [← attempt, ← attempts_succ]
      exact .idle hmore hit (by assumption)
    · exact .noProgress hmore hit (by omega)
  | rounds_step more run hit next _ ih =>
    cases htask
    have hmore := more.ne
    rw [length_attempts] at hmore
    obtain rfl := evaluate_eq_of_runs run
    refine ih ?_ (hprogress.succ hmore hit)
    rw [attempts_succ, advance_succ hit]
    rfl
  | _ => cases htask

theorem exists_concludes (operand : Expression) (c : Cursor) (bounds : Bounds) :
    ∃ k, operand.Halts c bounds.max k ∧
      operand.Concludes c bounds k ((repetition bounds operand).evaluate c) := by
  have hnone : operand.Progresses c bounds.max 0 := nofun
  obtain ⟨s, hs⟩ := runs_evaluate (repetition bounds operand) c
  cases hs with
  | repetition run => exact exists_concludes_of_runs run rfl hnone

/-- Raising the maximum lets the matches go on where they went on before. -/
theorem Progresses.of_le (h : operand.Progresses c max count)
    (hmax : ∀ m, max' = some m → ∃ k, max = some k ∧ k ≤ m)
    (hcount : ∀ k, max = some k → count ≤ k) : operand.Progresses c max' count := by
  intro i hi
  refine ⟨?_, (h i hi).2⟩
  rintro heq
  obtain ⟨k, hk, hle⟩ := hmax i heq
  have := hcount k hk
  omega

theorem Halts.le_max (h : operand.Halts c max count) : ∀ k, max = some k → count ≤ k := by
  intro k hk
  by_contra hlt
  exact (h.progress k (Nat.lt_of_not_le hlt)).1 hk

/-- Repetition is greedy iteration. For a given maximum there is exactly one number of matches after
which the iteration stops, and for every minimum the node of the repetition is what follows from
that number and from what made the iteration stop. So a lower minimum changes no length, and a
higher maximum neither loses a match nor makes it shorter. -/
theorem evaluate_repetition_greedy (operand : Expression) (c : Cursor) :
    (∀ max, ∃ k, (∀ j, operand.Halts c max j ↔ j = k) ∧
      ∀ min, operand.Concludes c ⟨min, max⟩ k ((repetition ⟨min, max⟩ operand).evaluate c)) ∧
    (∀ min min' max n, min ≤ min' →
      ((repetition ⟨min', max⟩ operand).evaluate c).length? = some n →
      ((repetition ⟨min, max⟩ operand).evaluate c).length? = some n) ∧
    ∀ min max max' n, (∀ m, max' = some m → ∃ k, max = some k ∧ k ≤ m) →
      ((repetition ⟨min, max⟩ operand).evaluate c).length? = some n →
      ∃ n', n ≤ n' ∧ ((repetition ⟨min, max'⟩ operand).evaluate c).length? = some n' := by
  have hgreedy : ∀ max, ∃ k, operand.Halts c max k ∧
      ∀ min, operand.Concludes c ⟨min, max⟩ k ((repetition ⟨min, max⟩ operand).evaluate c) := by
    intro max
    obtain ⟨k, hk, -⟩ := exists_concludes operand c ⟨0, max⟩
    refine ⟨k, hk, fun min => ?_⟩
    obtain ⟨j, hj, hnode⟩ := exists_concludes operand c ⟨min, max⟩
    rwa [hk.unique hj]
  refine ⟨fun max => ?_, fun min min' max n hmin h => ?_, fun min max max' n hmax h => ?_⟩
  · obtain ⟨k, hk, hnode⟩ := hgreedy max
    refine ⟨k, fun j => ⟨fun hj => hj.unique hk, ?_⟩, hnode⟩
    rintro rfl
    exact hk
  · obtain ⟨k, -, hnode⟩ := hgreedy max
    rw [(hnode _).length?_eq] at h ⊢
    split at h
    · rename_i henough
      rw [if_pos (hmin.trans henough), h]
    · cases h
  · obtain ⟨k, hk, hnode⟩ := hgreedy max
    obtain ⟨k', hk', hnode'⟩ := hgreedy max'
    have hle : k ≤ k' := (hk.progress.of_le hmax hk.le_max).le_of_halts hk'
    rw [(hnode _).length?_eq] at h
    split at h
    · rename_i henough
      cases h
      exact ⟨_, advance_mono hle, by rw [(hnode' _).length?_eq, if_pos (henough.trans hle)]⟩
    · cases h

/-- An operand that can match nothing takes two characters in two matches and is idle after them. -/
theorem evaluate_repetition_greedy_optional :
    let operand := option (literal (.sensitive ['a']))
    let c := Cursor.new ⟨['a', 'a', 'b'], .empty⟩ 0 0 .empty
    (operand.Halts c none 2 ∧
      operand.Concludes c ⟨1, none⟩ 2 ((repetition ⟨1, none⟩ operand).evaluate c)) ∧
    (1 ≤ 2 ∧ ((repetition ⟨2, none⟩ operand).evaluate c).length? = some 2 ∧
      ((repetition ⟨1, none⟩ operand).evaluate c).length? = some 2) ∧
    ((∀ m, (none : Option Nat) = some m → ∃ k, some 1 = some k ∧ k ≤ m) ∧
      ((repetition ⟨1, some 1⟩ operand).evaluate c).length? = some 1 ∧
      ∃ n', 1 ≤ n' ∧ ((repetition ⟨1, none⟩ operand).evaluate c).length? = some n') := by
  intro operand c
  obtain ⟨hgreedy, hmin, hmax⟩ := evaluate_repetition_greedy operand c
  have hhalts : operand.Halts c none 2 := by
    refine ⟨fun i hi => ⟨nofun, 0, ?_⟩, .inr (.inr (by decide))⟩
    match i, hi with
    | 0, _ => decide
    | 1, _ => decide
  obtain ⟨k, hk, hnode⟩ := hgreedy none
  obtain rfl := (hk 2).mp hhalts
  have htwo : ((repetition ⟨2, none⟩ operand).evaluate c).length? = some 2 := by decide
  have hone : ((repetition ⟨1, some 1⟩ operand).evaluate c).length? = some 1 := by decide
  exact ⟨⟨hhalts, hnode 1⟩, ⟨by decide, htwo, hmin 1 2 none 2 (by decide) htwo⟩,
    ⟨nofun, hone, hmax 1 (some 1) none 1 nofun hone⟩⟩

end Expression

end AugmentedBnf
