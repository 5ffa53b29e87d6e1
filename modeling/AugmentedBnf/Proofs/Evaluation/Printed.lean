import AugmentedBnf.Proofs.Evaluation.Lengths
import AugmentedBnf.Proofs.Expression.Rereading

/-! # What printed expressions match

An expression and what it is read as once it has been printed match the same length everywhere, if
the rules around them have been printed and read as well.
-/
namespace AugmentedBnf

open Matcher (SameLength)

namespace Charset

theorem contains_eq_any {set : Charset} (h : ∀ c ∈ set.members, c.toNat ≤ Literal.maxCode)
    (c : Char) : set.contains c = set.runs.any fun run => (range run.1 run.2).contains c := by
  rw [Bool.eq_iff_iff, contains_iff, mem_iff_covers, List.any_eq_true]
  refine exists_congr fun run => and_congr_right fun hrun => ?_
  rw [contains_iff, mem_range_iff (le_of_mem_runs h hrun).2]
  rfl

end Charset

namespace Expression

variable {enter : Expression → Matcher} {ps : List Expression} {rows : List (List Expression)}

theorem simplify_branch (h : ∀ p ∈ ps, p.simplify = p) : (branch ps).simplify = branch ps := by
  rw [branch, simplify_concatenation]
  match ps with
  | [] => rfl
  | [p] =>
    have hp := h p List.mem_cons_self
    dsimp only
    rw [hp, hp]
  | _ :: _ :: _ => rfl

/-- A sequence that is read without its wrapper matches what the sequence does. -/
theorem length?_branch (h : ∀ p ∈ ps, p.simplify = p) (c : Cursor) :
    ((branch ps).matcher enter c).length? =
      (Matcher.concatenation (ps.map (matcher enter)) c).length? := by
  rw [branch, simplify_concatenation]
  match ps with
  | [] => rfl
  | [p] =>
    dsimp only
    rw [h p List.mem_cons_self, List.map_singleton, Matcher.length?_concatenation_single]
  | p :: q :: ps =>
    dsimp only
    rw [matcher_concatenation]

theorem length?_assemble (h : ∀ ps ∈ rows, ∀ p ∈ ps, p.simplify = p) (c : Cursor) :
    ((assemble rows).matcher enter c).length? =
      (Matcher.alternation
        (rows.map fun ps => .concatenation (ps.map (matcher enter))) c).length? := by
  have hbranches : ∀ rows : List (List Expression), (∀ ps ∈ rows, ∀ p ∈ ps, p.simplify = p) →
      (Matcher.alternation ((rows.map branch).map (matcher enter)) c).length? =
        (Matcher.alternation
          (rows.map fun ps => .concatenation (ps.map (matcher enter))) c).length? := by
    intro rows hrows
    induction rows with
    | nil => rfl
    | cons ps rows ih =>
      obtain ⟨hps, hrows⟩ := List.forall_mem_cons.mp hrows
      rw [List.map_cons, List.map_cons, List.map_cons, Matcher.length?_alternation_cons,
        Matcher.length?_alternation_cons, length?_branch hps, ih hrows]
  rw [← hbranches rows h, assemble, simplify_alternation]
  match rows with
  | [] => rfl
  | [ps] =>
    rw [List.map_singleton, List.map_singleton, Matcher.length?_alternation_single]
    dsimp only
    rw [simplify_branch (h ps List.mem_cons_self)]
  | ps :: qs :: rows =>
    rw [List.map_cons, List.map_cons]
    dsimp only
    rw [matcher_alternation]

end Expression

namespace Literal

variable {c : Cursor}

/-- A literal matches what its positions match one after the other. -/
theorem length?_positions (sets : List Charset) (c : Cursor) :
    (Matcher.literal ⟨sets⟩ c).length? =
      (Matcher.concatenation (sets.map fun set => .literal ⟨[set]⟩) c).length? := by
  induction sets generalizing c with
  | nil => rfl
  | cons set sets ih =>
    rw [List.map_cons, Matcher.length?_concatenation_cons, Matcher.length?_literal,
      Matcher.length?_literal, match?, match?]
    cases hremaining : c.remaining with
    | nil => rfl
    | cons ch rest =>
      simp only [matchSets?]
      split
      · have hmoved : (c.moveTo (c.index + ch.utf8Size)).remaining = rest := by
          have hsize : Text.byteSize [ch] = ch.utf8Size := by simp
          rw [← hsize]
          exact Cursor.remaining_moveTo hremaining
        rw [Option.map_some, Option.bind_some, Nat.add_zero, ← ih, Matcher.length?_literal, hmoved,
          match?]
      · rfl

theorem length?_single (set : Charset) {ch : Char} {rest : Text} (h : c.remaining = ch :: rest) :
    (Matcher.literal ⟨[set]⟩ c).length? = if set.contains ch then some ch.utf8Size else none := by
  rw [Matcher.length?_literal, h, match?, matchSets?]
  split <;> rfl

theorem length?_end (set : Charset) (h : c.remaining = []) :
    (Matcher.literal ⟨[set]⟩ c).length? = none := by
  rw [Matcher.length?_literal, h]
  rfl

theorem length?_runs (runs : List (Nat × Nat)) {ch : Char} {rest : Text}
    (h : c.remaining = ch :: rest) :
    (Matcher.alternation (runs.map fun run => .literal (Charset.ofRun run)) c).length? =
      if runs.any fun run => (Charset.range run.1 run.2).contains ch then some ch.utf8Size
      else none := by
  induction runs with
  | nil => rfl
  | cons run runs ih =>
    rw [List.map_cons, Matcher.length?_alternation_cons, ih, Charset.ofRun, length?_single _ h,
      List.any_cons]
    cases (Charset.range run.1 run.2).contains ch <;> rfl

theorem length?_runs_end (runs : List (Nat × Nat)) (h : c.remaining = []) :
    (Matcher.alternation (runs.map fun run => .literal (Charset.ofRun run)) c).length? = none := by
  induction runs with
  | nil => rfl
  | cons run runs ih =>
    rw [List.map_cons, Matcher.length?_alternation_cons, ih, Charset.ofRun, length?_end _ h]
    rfl

/-- A printed set matches what the set does. -/
theorem length?_reread {enter : Expression → Matcher} {set : Charset}
    (h : ∀ ch ∈ set.members, ch.toNat ≤ maxCode) (c : Cursor) :
    (set.reread.matcher enter c).length? = (Matcher.literal ⟨[set]⟩ c).length? := by
  have hruns : (set.reread.matcher enter c).length? =
      (Matcher.alternation (set.runs.map fun run => .literal (Charset.ofRun run)) c).length? := by
    have hchoice : ((Expression.group (Expression.assemble
        (set.runs.map fun run => [.literal (Charset.ofRun run)]))).matcher enter c).length? =
        (Matcher.alternation (set.runs.map fun run => .literal (Charset.ofRun run)) c).length? := by
      have hsame : SameLength Eq
          (.alternation (set.runs.map fun run => .literal (Charset.ofRun run)))
          (.alternation
            (set.runs.map fun run => .concatenation [.literal (Charset.ofRun run)])) := by
        refine .alternation ?_
        exact forall₂_map_map fun run _ => (SameLength.literal _).concatenation_single
      have hsettled : ∀ ps ∈ set.runs.map fun run => [Expression.literal (Charset.ofRun run)],
          ∀ p ∈ ps, p.simplify = p := by
        intro ps hps p hp
        obtain ⟨run, -, rfl⟩ := List.mem_map.mp hps
        rw [List.mem_singleton.mp hp]
        rfl
      rw [Expression.matcher, Matcher.length?_group, Expression.length?_assemble hsettled,
        List.map_map, hsame c c ⟨rfl, rfl, rfl, rfl⟩]
      rfl
    unfold Charset.reread
    rcases hset : set.runs with _ | ⟨run, _ | ⟨other, more⟩⟩
    · rw [hset] at hchoice
      exact hchoice
    · rw [List.map_singleton, Matcher.length?_alternation_single, Expression.matcher]
    · rw [hset] at hchoice
      exact hchoice
  rw [hruns]
  cases hremaining : c.remaining with
  | nil => rw [length?_runs_end _ hremaining, length?_end _ hremaining]
  | cons ch rest =>
    rw [length?_runs _ hremaining, length?_single _ hremaining, Charset.contains_eq_any h]

end Literal

namespace Expression

/-- Nothing that an expression adds to a sequence is a wrapper around a single operand. -/
theorem simplify_piece {e : Expression} (h : Everywhere Regular e) :
    ∀ p ∈ e.pieces, p.simplify = p := by
  have hall : ∀ operands : List Expression,
      (∀ e ∈ operands, ∀ p ∈ e.pieces, p.simplify = p) →
      ∀ p ∈ (rowsAll operands).flatten, p.simplify = p := by
    intro operands hoperands p hp
    rw [rowsAll_eq_map, ← List.flatMap_def] at hp
    obtain ⟨e, he, hp⟩ := List.mem_flatMap.mp hp
    exact hoperands e he p hp
  induction e using Expression.induction with
  | alternation operands ih => exact hall operands fun e he => ih e he (h.child he)
  | concatenation operands ih =>
    rw [pieces_concatenation]
    exact hall operands fun e he => ih e he (h.child he)
  | repetition bounds operand ih =>
    rw [pieces_repetition]
    intro p hp
    obtain ⟨x, -, rfl⟩ := List.mem_map.mp hp
    exact simplify_repetition h.self.1.1 x
  | literal value =>
    rw [pieces_literal]
    intro p hp
    obtain ⟨set, -, rfl⟩ := List.mem_map.mp hp
    unfold Charset.reread
    split <;> rfl
  | _ =>
    intro p hp
    rw [List.mem_singleton.mp hp]
    rfl

section Matches

variable {T : RuleTable → RuleTable → Prop} {enter enter' : Expression → Matcher} {e : Expression}

/-- What an expression is read as matches the same length, on each level on which it can stand. -/
structure SameMatches (T : RuleTable → RuleTable → Prop) (enter enter' : Expression → Matcher)
    (e : Expression) : Prop where
  pieces : e.kind ≠ .alternation →
    SameLength T (e.matcher enter) (.concatenation (e.pieces.map (matcher enter')))
  whole : SameLength T (e.matcher enter) (e.reread.matcher enter')

theorem SameMatches.of_pieces (hregular : Everywhere Regular e) (hkind : e.kind ≠ .alternation)
    (h : SameLength T (e.matcher enter) (.concatenation (e.pieces.map (matcher enter')))) :
    SameMatches T enter enter' e := by
  refine ⟨fun _ => h, ?_⟩
  intro c d hcd
  have hsettled : ∀ ps ∈ [e.pieces], ∀ p ∈ ps, p.simplify = p :=
    List.forall_mem_singleton.mpr (simplify_piece hregular)
  rw [Expression.reread, rows_eq hkind, length?_assemble hsettled, List.map_singleton,
    Matcher.length?_alternation_single]
  exact h c d hcd

theorem sameMatches_all {operands : List Expression}
    (h : ∀ e ∈ operands, SameMatches T enter enter' e)
    (hkinds : ∀ e ∈ operands, e.kind ≠ .alternation) :
    List.Forall₂ (fun m ms => SameLength T m (.concatenation ms)) (operands.map (matcher enter))
      ((rowsAll operands).map (List.map (matcher enter'))) := by
  rw [rowsAll_eq_map, List.map_map]
  exact forall₂_map_map fun e he => (h e he).pieces (hkinds e he)

/-- Printing and reading keep what is matched, if they do so for the rules that are named. -/
theorem sameMatches_of_printable
    (hreference : ∀ name, SameLength T (.reference enter name) (.reference enter' name))
    (h : Everywhere Regular e) (hprintable : Everywhere Printable e) :
    SameMatches T enter enter' e := by
  induction e using Expression.induction with
  | alternation operands ih =>
    obtain ⟨-, hkinds⟩ := h.self.1
    have hall := sameMatches_all (fun e he => ih e he (h.child he) (hprintable.child he)) hkinds
    have hsettled : ∀ ps ∈ rowsAll operands, ∀ p ∈ ps, p.simplify = p := by
      intro ps hps p hp
      exact simplify_piece h p (List.mem_flatten.mpr ⟨ps, hps, hp⟩)
    refine ⟨fun hkind => absurd rfl hkind, ?_⟩
    intro c d hcd
    rw [List.forall₂_map_right_iff] at hall
    rw [Expression.reread, rows, length?_assemble hsettled, matcher_alternation]
    exact SameLength.alternation (List.forall₂_map_right_iff.mpr hall) c d hcd
  | concatenation operands ih =>
    obtain ⟨-, hkinds⟩ := h.self.1
    have hall := sameMatches_all (fun e he => ih e he (h.child he) (hprintable.child he))
      fun e he => (hkinds e he).1
    refine .of_pieces h (by simp [kind]) ?_
    rw [matcher_concatenation, pieces_concatenation, List.map_flatten]
    exact .flatten hall
  | repetition bounds operand ih =>
    obtain ⟨honce, helement⟩ := h.self.1
    have hregular := h.child List.mem_cons_self
    have hoperand := hprintable.child List.mem_cons_self
    have hsingle : ∀ value, operand = literal value → value.positions.length = 1 := by
      rintro value rfl
      exact hprintable.self
    obtain ⟨x, hx, -⟩ := (reread_of_printable hregular hoperand).element helement hsingle
    have hkind : operand.kind ≠ .alternation := by
      rintro hkind
      cases operand with
      | alternation => cases helement
      | _ => cases hkind
    -- a count repeats the one operand behind it, so the operand must not fall into several
    have hmatches : SameLength T (operand.matcher enter) (x.matcher enter') := by
      intro c d hcd
      have hpieces := (ih hregular hoperand).pieces hkind c d hcd
      rwa [hx, List.map_singleton, Matcher.length?_concatenation_single] at hpieces
    refine .of_pieces h (by simp [kind]) ?_
    rw [pieces_repetition, hx, List.map_singleton, List.map_singleton, matcher, matcher]
    exact (hmatches.repetition bounds).concatenation_single
  | group inner ih =>
    have hinner := (ih (h.child List.mem_cons_self) (hprintable.child List.mem_cons_self)).whole
    refine .of_pieces h (by simp [kind]) ?_
    rw [pieces_group, List.map_singleton, matcher, matcher]
    exact hinner.group.concatenation_single
  | option inner ih =>
    have hinner := (ih (h.child List.mem_cons_self) (hprintable.child List.mem_cons_self)).whole
    refine .of_pieces h (by simp [kind]) ?_
    rw [pieces_option, List.map_singleton, matcher, matcher]
    exact hinner.option.concatenation_single
  | literal value =>
    have hset : ∀ set ∈ value.positions,
        SameLength T (.literal ⟨[set]⟩) (set.reread.matcher enter') := by
      intro set hmem c d hcd
      rw [Literal.length?_reread (hprintable.self set hmem)]
      exact SameLength.literal _ c d hcd
    have hsets : SameLength T (.concatenation (value.positions.map fun set => .literal ⟨[set]⟩))
        (.concatenation ((value.positions.map Charset.reread).map (matcher enter'))) := by
      rw [List.map_map]
      exact .concatenation (forall₂_map_map hset)
    refine .of_pieces h (by simp [kind]) ?_
    intro c d hcd
    rw [pieces_literal, ← hsets c d hcd, ← Literal.length?_positions, matcher]
  | reference name =>
    refine .of_pieces h (by simp [kind]) ?_
    exact (hreference name).concatenation_single
  | prose text =>
    refine .of_pieces h (by simp [kind]) ?_
    exact SameLength.prose.concatenation_single

end Matches

end Expression

end AugmentedBnf
