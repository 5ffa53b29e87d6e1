import AugmentedBnf.Proofs.Evaluation.Lockstep

/-! # Matching does not depend on the position

What an evaluation returns depends on the rules, on the input that remains, and on the names that
are active from the cursor on. Where the cursor stands, how deep it is, which path led to it and
what was active before it only shift the tree that comes out.
-/
namespace AugmentedBnf

namespace Cursor

/-- Two cursors with the same things ahead of them: the rules, the remaining input, and the active
names at each distance. -/
structure SameAhead (c d : Cursor) : Prop where
  rules : c.context.rules = d.context.rules
  remaining : c.remaining = d.remaining
  active : ∀ k name, (c.index + k, name) ∈ c.active ↔ (d.index + k, name) ∈ d.active

/-- The cursors `x` and `y` stand to `c` and `d` in the same way: as many bytes further on, and
inside the same further rules. -/
def Shifted (c d x y : Cursor) : Prop :=
  ∃ (k : Nat) (names : List Text),
    (x.index = c.index + k ∧ y.index = d.index + k) ∧
    (x.depth = c.depth + names.length ∧ y.depth = d.depth + names.length) ∧
    (x.path.segments = c.path.segments ++ names ∧ y.path.segments = d.path.segments ++ names)

theorem SameAhead.moveTo {c d : Cursor} {n : Nat} (h : c.SameAhead d) (hn : c.Covers n) :
    (c.moveTo (c.index + n)).SameAhead (d.moveTo (d.index + n)) where
  rules := h.rules
  remaining := by
    obtain ⟨w, rest, -, hrest, rfl⟩ := hn
    rw [remaining_moveTo hrest, remaining_moveTo (h.remaining ▸ hrest)]
  active := by
    intro k name
    simp only [moveTo_index, moveTo_active, Nat.add_assoc]
    exact h.active (n + k) name

theorem SameAhead.isActive {c d : Cursor} (h : c.SameAhead d) (name : Text) :
    c.isActive name = d.isActive name := by
  rw [Bool.eq_iff_iff, isActive_iff, isActive_iff]
  exact h.active 0 name

theorem SameAhead.label {c d : Cursor} (h : c.SameAhead d) (name : Text) :
    (c.label name).SameAhead (d.label name) where
  rules := h.rules
  remaining := h.remaining
  active := by
    intro k other
    simp only [label_index, mem_active_label, Prod.mk.injEq, h.active k other, Nat.add_eq_left]

theorem Shifted.refl (c d : Cursor) : Shifted c d c d :=
  ⟨0, [], ⟨rfl, rfl⟩, ⟨rfl, rfl⟩, (List.append_nil _).symm, (List.append_nil _).symm⟩

theorem Shifted.moveTo {c d x y : Cursor} (h : Shifted c d x y) (n : Nat) :
    Shifted c d (x.moveTo (x.index + n)) (y.moveTo (y.index + n)) := by
  obtain ⟨k, names, ⟨hx, hy⟩, hdepth, hpath⟩ := h
  refine ⟨k + n, names, ⟨?_, ?_⟩, hdepth, hpath⟩
  · rw [moveTo_index, hx, Nat.add_assoc]
  · rw [moveTo_index, hy, Nat.add_assoc]

theorem Shifted.label {c d x y : Cursor} (h : Shifted c d x y) (name : Text) :
    Shifted c d (x.label name) (y.label name) := by
  obtain ⟨k, names, hindex, ⟨hx, hy⟩, hpx, hpy⟩ := h
  have hlength : (names ++ [name]).length = names.length + 1 := by simp
  refine ⟨k, names ++ [name], hindex, ⟨?_, ?_⟩, ?_, ?_⟩
  · rw [label_depth, hx, hlength, Nat.add_assoc]
  · rw [label_depth, hy, hlength, Nat.add_assoc]
  · rw [Cursor.label, Path.segments_fork, hpx, List.append_assoc]
  · rw [Cursor.label, Path.segments_fork, hpy, List.append_assoc]

/-- What stays true of the two cursors while the evaluations from `c` and from `d` go on. -/
def Alongside (c d x y : Cursor) : Prop := x.SameAhead y ∧ Shifted c d x y

theorem lockstep_alongside (c d : Cursor) : Lockstep (Alongside c d) where
  remaining := fun h => h.1.remaining
  moveTo := fun h hn => ⟨h.1.moveTo hn, h.2.moveTo _⟩

end Cursor

namespace Expression

theorem inStep_evaluateWithin (c d : Cursor) (depth : Nat) (e : Expression) :
    Matcher.InStep (Cursor.Alongside c d) (e.evaluateWithin depth) (e.evaluateWithin depth) := by
  induction depth generalizing e with
  | zero => exact fun x y hxy => .node hxy .nil
  | succ depth ih =>
    refine inStep_matcher (c.lockstep_alongside d)
      (fun e c n => @evaluateWithin_covers (depth + 1) e c n) e fun name _ => ?_
    refine .reference (fun h => ?_) (fun other h => h.1.isActive other)
      (fun other h => ⟨h.1.label other, h.2.label other⟩) (fun _ _ => ih _)
    rw [Context.rule?, Context.rule?, h.1.rules]

theorem nestingBound_eq {c d : Cursor} (h : c.SameAhead d) : nestingBound c = nestingBound d := by
  rw [nestingBound, nestingBound, h.rules, h.remaining]

/-- Evaluation from two cursors over one rule table, with the same input remaining and the same
names active at each distance ahead, has the same outcome. The trees agree node by node in kind and
outcome, and their nodes stand in the same way to the two cursors. -/
theorem evaluate_position_independent (e : Expression) (c d : Cursor)
    (hrules : c.context.rules = d.context.rules) (hremaining : c.remaining = d.remaining)
    (hactive : ∀ k name, (c.moveTo (c.index + k)).isActive name =
      (d.moveTo (d.index + k)).isActive name) :
    (e.evaluate c).outcome = (e.evaluate d).outcome ∧
      Node.Related (Cursor.Shifted c d) (e.evaluate c) (e.evaluate d) := by
  have hahead : c.SameAhead d := by
    refine ⟨hrules, hremaining, fun k name => ?_⟩
    rw [← Cursor.isActive_moveTo_iff, ← Cursor.isActive_moveTo_iff, hactive]
  have hrelated := inStep_evaluateWithin c d (nestingBound c) e c d ⟨hahead, .refl c d⟩
  have htrees : Node.Related (Cursor.Alongside c d) (e.evaluate c) (e.evaluate d) := by
    unfold evaluate
    rw [← nestingBound_eq hahead]
    exact hrelated
  exact ⟨htrees.outcome_eq, htrees.mono fun x y h => h.2⟩

/-- A left-recursive list behind a character at which its rule is active, and the same list alone in
an input. -/
theorem evaluate_position_independent_list :
    let item := literal (.sensitive ['é'])
    let list := alternation
      [concatenation [reference ['L'], literal (.sensitive [',']), item], item]
    let rules : RuleTable := ⟨[(['L'], ⟨['L'], list⟩)]⟩
    let c := ((Cursor.new ⟨['x', 'é', ',', 'é'], rules⟩ 0 7 .empty).label ['L']).moveTo 1
    let d := Cursor.new ⟨['é', ',', 'é'], rules⟩ 0 0 (.ofSegments [['K']])
    let e := reference ['L']
    c.remaining = d.remaining ∧ c.isActive ['L'] = false ∧
      (c.moveTo 0).isActive ['L'] = true ∧ (e.evaluate c).length? = some 2 ∧
      (e.evaluate c).outcome = (e.evaluate d).outcome ∧
      Node.Related (Cursor.Shifted c d) (e.evaluate c) (e.evaluate d) := by
  intro item list rules c d e
  have hactive : ∀ k name, (c.moveTo (c.index + k)).isActive name =
      (d.moveTo (d.index + k)).isActive name := by
    intro k name
    rw [Bool.eq_iff_iff, Cursor.isActive_moveTo_iff, Cursor.isActive_moveTo_iff]
    simp [c, d, Cursor.mem_active_label, Cursor.new]
  have hsame := evaluate_position_independent e c d rfl rfl hactive
  exact ⟨rfl, rfl, rfl, by decide, hsame.1, hsame.2⟩

end Expression

end AugmentedBnf
