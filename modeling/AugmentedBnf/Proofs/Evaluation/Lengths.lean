import AugmentedBnf.Proofs.Evaluation.Operators
import AugmentedBnf.Proofs.Evaluation.Reading

/-! # Lengths of matches

How much an operator matches depends on how much its operands match, and on nothing else in their
trees. A sequence matches the same length however it is cut into shorter sequences.
-/
namespace AugmentedBnf

/-- Cursors at one place of one input with the same names active; their tables correspond. -/
structure Cursor.Beside (T : RuleTable → RuleTable → Prop) (c d : Cursor) : Prop where
  input : c.context.input = d.context.input
  index : c.index = d.index
  active : c.active = d.active
  rules : T c.context.rules d.context.rules

namespace Cursor.Beside

variable {T : RuleTable → RuleTable → Prop} {c d : Cursor}

theorem remaining (h : Beside T c d) : c.remaining = d.remaining := by
  rw [Cursor.remaining, Cursor.remaining, h.input, h.index]

theorem moveTo (h : Beside T c d) (n : Nat) :
    Beside T (c.moveTo (c.index + n)) (d.moveTo (d.index + n)) :=
  ⟨h.input, congrArg (· + n) h.index, h.active, h.rules⟩

theorem label (h : Beside T c d) (name : Text) : Beside T (c.label name) (d.label name) := by
  refine ⟨h.input, h.index, ?_, h.rules⟩
  simp only [Cursor.label, h.index, h.active]

theorem isActive (h : Beside T c d) (name : Text) : c.isActive name = d.isActive name := by
  rw [Cursor.isActive, Cursor.isActive, h.index, h.active]

end Cursor.Beside

namespace Matcher

section Sequence

theorem inSequence_moveTo (c : Cursor) (ms : List Matcher) (k offset : Nat) :
    inSequence (c.moveTo (c.index + k)) ms offset = inSequence c ms (k + offset) := by
  induction ms generalizing offset with
  | nil => rfl
  | cons m ms ih =>
    have hindex : (c.moveTo (c.index + k)).index + offset = c.index + (k + offset) := by
      rw [Cursor.moveTo_index, Nat.add_assoc]
    simp only [inSequence, ih, Cursor.moveTo_moveTo, hindex, Nat.add_assoc]

theorem length?_concatenation (ms : List Matcher) (c : Cursor) :
    (concatenation ms c).length? = (inSequence c ms 0).toOption.map (·.2) := by
  unfold concatenation
  cases inSequence c ms 0 <;> rfl

theorem length?_concatenation_cons (m : Matcher) (ms : List Matcher) (c : Cursor) :
    (concatenation (m :: ms) c).length? = ((m c).length?).bind fun n =>
      ((concatenation ms (c.moveTo (c.index + n))).length?).map (n + ·) := by
  have hfirst : c.moveTo (c.index + 0) = c := by rw [Nat.add_zero, Cursor.moveTo_self]
  rw [length?_concatenation, inSequence, hfirst]
  cases hm : (m c).length? with
  | none => rfl
  | some n =>
    dsimp only
    rw [Option.bind_some, length?_concatenation, inSequence_moveTo, Nat.zero_add, Nat.add_zero]
    cases inSequence c ms n <;> rfl

/-- One sequence behind another matches where the first one ended. -/
theorem length?_concatenation_append (ms ns : List Matcher) (c : Cursor) :
    (concatenation (ms ++ ns) c).length? = ((concatenation ms c).length?).bind fun n =>
      ((concatenation ns (c.moveTo (c.index + n))).length?).map (n + ·) := by
  induction ms generalizing c with
  | nil =>
    have hnil : (concatenation [] c).length? = some 0 := rfl
    rw [List.nil_append, hnil, Option.bind_some, Nat.add_zero, Cursor.moveTo_self]
    simp
  | cons m ms ih =>
    rw [List.cons_append, length?_concatenation_cons, length?_concatenation_cons]
    cases hm : (m c).length? with
    | none => rfl
    | some n =>
      rw [Option.bind_some, Option.bind_some, ih]
      cases hms : (concatenation ms (c.moveTo (c.index + n))).length? with
      | none => rfl
      | some k =>
        have hsum : (n + ·) ∘ (k + ·) = (n + k + · : Nat → Nat) := by
          funext j
          exact (Nat.add_assoc n k j).symm
        rw [Option.bind_some, Option.map_some, Option.bind_some, Option.map_map, hsum,
          Cursor.moveTo_moveTo, Cursor.moveTo_index, Nat.add_assoc]

theorem length?_concatenation_single (m : Matcher) (c : Cursor) :
    (concatenation [m] c).length? = (m c).length? := by
  rw [length?_concatenation_cons]
  cases (m c).length? <;> rfl

/-- One choice behind another matches where the first one does not. -/
theorem length?_alternation_append (ms ns : List Matcher) (c : Cursor) :
    (alternation (ms ++ ns) c).length? =
      ((alternation ms c).length?).or (alternation ns c).length? := by
  induction ms with
  | nil => rfl
  | cons m ms ih =>
    rw [List.cons_append, length?_alternation_cons, length?_alternation_cons, ih, Option.or_assoc]

theorem length?_alternation_single (m : Matcher) (c : Cursor) :
    (alternation [m] c).length? = (m c).length? := by
  rw [length?_alternation_cons]
  cases (m c).length? <;> rfl

end Sequence

/-- At cursors beside each other the two matchers match the same length, or both fail. -/
def SameLength (T : RuleTable → RuleTable → Prop) (m m' : Matcher) : Prop :=
  ∀ c d, Cursor.Beside T c d → (m c).length? = (m' d).length?

namespace SameLength

variable {T : RuleTable → RuleTable → Prop} {m m' : Matcher} {ms ms' : List Matcher}

theorem concatenation_single (h : SameLength T m m') : SameLength T m (.concatenation [m']) := by
  intro c d hcd
  rw [length?_concatenation_single]
  exact h c d hcd

theorem concatenation (h : List.Forall₂ (SameLength T) ms ms') :
    SameLength T (.concatenation ms) (.concatenation ms') := by
  induction h with
  | nil =>
    intro c d _
    rfl
  | cons hfirst _ ih =>
    intro c d hcd
    rw [length?_concatenation_cons, length?_concatenation_cons, hfirst c d hcd]
    congr 1
    funext n
    rw [ih _ _ (hcd.moveTo n)]

/-- A sequence matches the same length if its operands are sequences that are put in their place. -/
theorem flatten {lists : List (List Matcher)}
    (h : List.Forall₂ (fun m ms => SameLength T m (.concatenation ms)) ms lists) :
    SameLength T (.concatenation ms) (.concatenation lists.flatten) := by
  induction h with
  | nil =>
    intro c d _
    rfl
  | cons hfirst _ ih =>
    intro c d hcd
    rw [List.flatten_cons, length?_concatenation_cons, length?_concatenation_append,
      hfirst c d hcd]
    congr 1
    funext n
    rw [ih _ _ (hcd.moveTo n)]

theorem alternation (h : List.Forall₂ (SameLength T) ms ms') :
    SameLength T (alternation ms) (alternation ms') := by
  induction h with
  | nil =>
    intro c d _
    rfl
  | cons hfirst _ ih =>
    intro c d hcd
    rw [length?_alternation_cons, length?_alternation_cons, hfirst c d hcd, ih c d hcd]

/-- A choice matches the same length if its operands are choices that are put in their place. -/
theorem alternation_flatten {lists : List (List Matcher)}
    (h : List.Forall₂ (fun m ms => SameLength T m (.alternation ms)) ms lists) :
    SameLength T (.alternation ms) (.alternation lists.flatten) := by
  induction h with
  | nil =>
    intro c d _
    rfl
  | cons hfirst _ ih =>
    intro c d hcd
    rw [List.flatten_cons, length?_alternation_cons, length?_alternation_append, hfirst c d hcd,
      ih c d hcd]

/-- Iterations of such operands find as many matches, of the same length together. -/
theorem iterate (h : SameLength T m m') {c d : Cursor} (hcd : Cursor.Beside T c d) (count : Nat)
    (allowed : Option Nat) (offset : Nat) :
    (Matcher.iterate m c count allowed offset).matched.length =
      (Matcher.iterate m' d count allowed offset).matched.length ∧
    (Matcher.iterate m c count allowed offset).length =
      (Matcher.iterate m' d count allowed offset).length := by
  induction count generalizing allowed offset with
  | zero => exact ⟨rfl, rfl⟩
  | succ count ih =>
    rw [Matcher.iterate, Matcher.iterate]
    by_cases hallowed : allowed = some 0
    · rw [if_pos hallowed, if_pos hallowed]
      exact ⟨rfl, rfl⟩
    · have hnode := h _ _ (hcd.moveTo offset)
      rw [if_neg hallowed, if_neg hallowed]
      dsimp only
      rw [← hnode]
      match (m (c.moveTo (c.index + offset))).length? with
      | none => exact ⟨rfl, rfl⟩
      | some 0 => exact ⟨rfl, rfl⟩
      | some (n + 1) =>
        obtain ⟨hmatched, hlength⟩ := ih (allowed.map (· - 1)) (offset + (n + 1))
        exact ⟨congrArg (· + 1) hmatched, congrArg (n + 1 + ·) hlength⟩

theorem repetition (h : SameLength T m m') (bounds : Bounds) :
    SameLength T (repetition bounds m) (repetition bounds m') := by
  intro c d hcd
  obtain ⟨hmatched, hlength⟩ := h.iterate hcd (c.remaining.length + 1) bounds.max 0
  rw [Matcher.repetition, Matcher.repetition, length?_settle, length?_settle, ← hcd.remaining,
    hmatched, hlength]

theorem group (h : SameLength T m m') : SameLength T (group m) (group m') := by
  intro c d hcd
  rw [length?_group, length?_group]
  exact h c d hcd

theorem option (h : SameLength T m m') : SameLength T (option m) (option m') := by
  intro c d hcd
  rw [length?_option, length?_option, h c d hcd]

theorem literal (value : Literal) : SameLength T (literal value) (literal value) := by
  intro c d hcd
  rw [length?_literal, length?_literal, hcd.remaining]

theorem prose : SameLength T prose prose := fun _ _ _ => rfl

/-- References to a name match the same length if the tables have corresponding rules under it, and
those match the same length when they are entered. -/
theorem reference {enter enter' : Expression → Matcher} {name : Text}
    (h : ∀ rules rules', T rules rules' →
      (rules.find? name = none ∧ rules'.find? name = none) ∨
      ∃ rule rule', rules.find? name = some rule ∧ rules'.find? name = some rule' ∧
        rule.name = rule'.name ∧ SameLength T (enter rule.body) (enter' rule'.body)) :
    SameLength T (reference enter name) (reference enter' name) := by
  intro c d hcd
  rcases h _ _ hcd.rules with ⟨hc, hd⟩ | ⟨rule, rule', hc, hd, hname, hbody⟩
  · rw [reference_of_missing hc, reference_of_missing hd]
    rfl
  · have hactive := hcd.isActive rule.name
    cases hidle : c.isActive rule.name with
    | true =>
      rw [reference_of_active hc hidle, reference_of_active hd (by rw [← hname, ← hactive, hidle])]
      rfl
    | false =>
      rw [reference_of_idle hc hidle, reference_of_idle hd (by rw [← hname, ← hactive, hidle]),
        Node.length?_entered, Node.length?_entered, ← hname]
      exact hbody _ _ (hcd.label rule.name)

end SameLength

end Matcher

end AugmentedBnf
