import AugmentedBnf.Proofs.Evaluation.Language
import AugmentedBnf.Proofs.Evaluation.Room
import AugmentedBnf.Proofs.Evaluation.Run

/-! # Every evaluation comes to an end

The evaluator bounds the nesting of rules and the rounds of a repetition beforehand. Neither
bound is ever reached: an entered rule takes an entry out of the room of the cursor, and a round
that goes on takes a character. So each evaluation has a run, the evaluator returns the node of
that run, and the bounds can be forgotten.
-/
namespace AugmentedBnf

namespace Runs

variable {refused : Cursor → Text → Bool} {f : Expression → Matcher} {c : Cursor}

theorem choices {operands : List Expression}
    (h : ∀ e ∈ operands, ∃ s, Runs refused s (.expression e) c (f e c)) (attempts : List Node) :
    ∃ s, Runs refused s (.choices operands attempts) c
      (match Matcher.firstMatch c (operands.map f) with
      | (_, some (length, node)) => .success c .alternation length [node]
      | (more, none) => .failure c .alternation .alternationNoMatch (attempts ++ more)) := by
  induction operands generalizing attempts with
  | nil =>
    simp only [List.map_nil, Matcher.firstMatch, List.append_nil]
    exact ⟨1, .choices_end⟩
  | cons e rest ih =>
    rw [List.forall_mem_cons] at h
    obtain ⟨⟨s, hs⟩, hrest⟩ := h
    cases hlength : (f e c).length? with
    | some n =>
      simp only [List.map_cons, Matcher.firstMatch, hlength]
      exact ⟨s + 1, .choices_hit hs hlength⟩
    | none =>
      obtain ⟨t, ht⟩ := ih hrest (attempts ++ [f e c])
      refine ⟨s + t + 1, .choices_miss hs hlength ?_⟩
      simp only [List.map_cons, Matcher.firstMatch, hlength]
      cases hfirst : Matcher.firstMatch c (rest.map f) with
      | mk more found =>
        rw [hfirst] at ht
        cases found with
        | some hit => exact ht
        | none => simpa using ht

theorem sequel {operands : List Expression}
    (h : ∀ e ∈ operands, ∀ n, c.Covers n →
      ∃ s, Runs refused s (.expression e) (c.moveTo (c.index + n)) (f e (c.moveTo (c.index + n))))
    (hcovers : ∀ e ∈ operands, ∀ c' n, (f e c').length? = some n → c'.Covers n)
    (children : List Node) {length : Nat} (hlength : c.Covers length) :
    ∃ s, Runs refused s (.sequel operands children length) c
      (match Matcher.inSequence c (operands.map f) length with
      | .ok (nodes, total) => .success c .concatenation (length + total) (children ++ nodes)
      | .error failed => .failure c .concatenation .concatenationInvalidSequence [failed]) := by
  induction operands generalizing children length with
  | nil =>
    simp only [List.map_nil, Matcher.inSequence, List.append_nil, Nat.add_zero]
    exact ⟨1, .sequel_end⟩
  | cons e rest ih =>
    rw [List.forall_mem_cons] at h hcovers
    obtain ⟨s, hs⟩ := h.1 length hlength
    cases hn : (f e (c.moveTo (c.index + length))).length? with
    | none =>
      simp only [List.map_cons, Matcher.inSequence, hn]
      exact ⟨s + 1, .sequel_stop hs hn⟩
    | some n =>
      have hnext : c.Covers (length + n) := hlength.add (hcovers.1 _ n hn)
      obtain ⟨t, ht⟩ := ih h.2 hcovers.2 (children ++ [f e (c.moveTo (c.index + length))]) hnext
      refine ⟨s + t + 1, .sequel_step hs hn ?_⟩
      simp only [List.map_cons, Matcher.inSequence, hn]
      cases hrest : Matcher.inSequence c (rest.map f) (length + n) with
      | error failed =>
        rw [hrest] at ht
        exact ht
      | ok result =>
        obtain ⟨nodes, total⟩ := result
        rw [hrest] at ht
        simpa [Nat.add_assoc] using ht

theorem rounds {operand : Expression}
    (h : ∀ n, c.Covers n → ∃ s, Runs refused s (.expression operand) (c.moveTo (c.index + n))
      (f operand (c.moveTo (c.index + n))))
    (hcovers : ∀ c' n, (f operand c').length? = some n → c'.Covers n) (bounds : Bounds)
    (accepted : List Node) {length count : Nat} (hlength : c.Covers length)
    (hcount : (c.moveTo (c.index + length)).remaining.length < count) :
    ∃ s, Runs refused s (.rounds bounds operand accepted length) c
      (Matcher.settle bounds.min c
        (let iteration := Matcher.iterate (f operand) c count
            (bounds.max.map (· - accepted.length)) length
        ⟨accepted ++ iteration.matched, length + iteration.length, iteration.halt⟩)) := by
  induction count generalizing accepted length with
  | zero => omega
  | succ count ih =>
    obtain ⟨s, hs⟩ := h length hlength
    simp only [Matcher.iterate]
    split
    · rename_i hfull
      simp only [List.append_nil, Nat.add_zero]
      exact ⟨1, .rounds_full fun hopen => Bounds.open_iff.mp hopen hfull⟩
    · rename_i hmore
      have hopen : bounds.Open accepted.length := Bounds.open_iff.mpr hmore
      split
      · rename_i hn
        simp only [List.append_nil, Nat.add_zero]
        exact ⟨s + 1, .rounds_failed hopen hs hn⟩
      · rename_i hn
        simp only [List.append_nil, Nat.add_zero]
        exact ⟨s + 1, .rounds_idle hopen hs hn⟩
      · rename_i n hn
        -- the round takes a character, so the count still exceeds what remains
        have hround := hcovers _ (n + 1) hn
        have hless := hround.length_lt (Nat.succ_pos n)
        rw [Cursor.moveTo_index, Cursor.moveTo_moveTo, Nat.add_assoc] at hless
        obtain ⟨t, ht⟩ := ih (accepted ++ [f operand (c.moveTo (c.index + length))])
          (hlength.add hround) (by omega)
        refine ⟨s + t + 1, .rounds_step hopen hs hn ?_⟩
        have hallowed : (bounds.max.map (· - accepted.length)).map (· - 1) =
            bounds.max.map
              (· - (accepted ++ [f operand (c.moveTo (c.index + length))]).length) := by
          simp [Option.map_map, Function.comp_def, Nat.sub_sub]
        rw [hallowed]
        simpa [Matcher.Iteration.push, Nat.add_assoc] using ht

end Runs

namespace Expression

/-- One more level of rules: the operators follow a run if entered rules do. -/
theorem runs_matcher {enter : Expression → Matcher} {depth : Nat}
    (hcovers : ∀ (e : Expression) (c : Cursor) (n : Nat),
      (e.matcher enter c).length? = some n → c.Covers n)
    (hbody : ∀ (e : Expression) (c : Cursor), c.room.card < depth →
      ∃ s, Runs Cursor.isActive s (.expression e) c (enter e c))
    (e : Expression) {c : Cursor} (hroom : c.room.card < depth + 1) :
    ∃ s, Runs Cursor.isActive s (.expression e) c (e.matcher enter c) := by
  induction e using Expression.induction generalizing c with
  | alternation operands ih =>
    obtain ⟨s, hs⟩ := Runs.choices (fun e he => ih e he hroom) []
    rw [matcher_alternation]
    exact ⟨s + 1, .alternation hs⟩
  | concatenation operands ih =>
    have hmoved : ∀ e ∈ operands, ∀ n, c.Covers n → ∃ s, Runs Cursor.isActive s (.expression e)
        (c.moveTo (c.index + n)) (e.matcher enter (c.moveTo (c.index + n))) :=
      fun e he n hn => ih e he ((Cursor.card_room_moveTo_le hn).trans_lt hroom)
    obtain ⟨s, hs⟩ := Runs.sequel hmoved (fun e _ => hcovers e) [] (Cursor.Covers.zero c)
    simp only [Nat.zero_add, List.nil_append] at hs
    rw [matcher_concatenation]
    exact ⟨s + 1, .concatenation hs⟩
  | repetition bounds operand ih =>
    have hmoved : ∀ n, c.Covers n → ∃ s, Runs Cursor.isActive s (.expression operand)
        (c.moveTo (c.index + n)) (operand.matcher enter (c.moveTo (c.index + n))) :=
      fun n hn => ih ((Cursor.card_room_moveTo_le hn).trans_lt hroom)
    obtain ⟨s, hs⟩ := Runs.rounds hmoved (hcovers operand) bounds []
      (Cursor.Covers.zero c) (Nat.lt_succ_self c.remaining.length)
    refine ⟨s + 1, .repetition ?_⟩
    simpa [matcher, Matcher.repetition] using hs
  | group inner ih =>
    obtain ⟨s, hs⟩ := ih hroom
    exact ⟨s + 1, .group hs⟩
  | option inner ih =>
    obtain ⟨s, hs⟩ := ih hroom
    exact ⟨s + 1, .option hs⟩
  | literal value => exact ⟨1, .literal⟩
  | prose text => exact ⟨1, .prose⟩
  | reference name =>
    rw [matcher]
    cases hrule : c.context.rule? name with
    | none =>
      rw [Matcher.reference_of_missing hrule]
      exact ⟨1, .reference_missing hrule⟩
    | some rule =>
      cases hactive : c.isActive rule.name with
      | true =>
        rw [Matcher.reference_of_active hrule hactive]
        exact ⟨1, .reference_refused hrule hactive⟩
      | false =>
        -- entering takes an entry out of the room, which one level less still exceeds
        have hinside := Cursor.card_room_label_lt hrule hactive
        obtain ⟨s, hs⟩ := hbody rule.body (c.label rule.name) (by omega)
        rw [Matcher.reference_of_idle hrule hactive]
        exact ⟨s + 1, .reference hrule hactive hs⟩

/-- While the nesting bound exceeds the room of the cursor, evaluation follows a run. -/
theorem runs_evaluateWithin {depth : Nat} (e : Expression) {c : Cursor}
    (hroom : c.room.card < depth) :
    ∃ s, Runs Cursor.isActive s (.expression e) c (e.evaluateWithin depth c) := by
  induction depth generalizing e c with
  | zero => omega
  | succ depth ih =>
    exact runs_matcher (fun e c n => @evaluateWithin_covers (depth + 1) e c n)
      (fun e c h => ih e h) e hroom

theorem runs_evaluate (e : Expression) (c : Cursor) :
    ∃ s, Runs Cursor.isActive s (.expression e) c (e.evaluate c) :=
  runs_evaluateWithin e c.card_room_lt_nestingBound

theorem evaluate_eq_of_runs {e : Expression} {c : Cursor} {s : Nat} {node : Node}
    (h : Runs Cursor.isActive s (.expression e) c node) : e.evaluate c = node := by
  obtain ⟨t, ht⟩ := runs_evaluate e c
  exact (ht.deterministic h).2

theorem evaluate_covers {e : Expression} {c : Cursor} {n : Nat}
    (h : (e.evaluate c).length? = some n) : c.Covers n :=
  evaluateWithin_covers h

/-- The bounds leave no trace: evaluation is its own way of entering rules. -/
theorem matcher_evaluate : matcher evaluate = evaluate := by
  have hsound : ∀ (rules : RuleTable) (e : Expression),
      (e.matcher evaluate).SoundFor rules (language rules e) := by
    intro rules e
    refine soundFor_matcher (fun e c n hc hn => ?_) e
    exact soundFor_evaluateWithin rules (nestingBound c) e c n hc hn
  funext e c
  obtain ⟨s, hs⟩ := runs_matcher
    (fun e c n hn => (hsound c.context.rules e c n rfl hn).covers)
    (fun e c _ => runs_evaluate e c) e (Nat.lt_succ_self c.room.card)
  exact (evaluate_eq_of_runs hs).symm

theorem evaluate_eq_matcher (e : Expression) : e.evaluate = e.matcher evaluate := by
  rw [matcher_evaluate]

theorem evaluate_alternation (operands : List Expression) :
    (alternation operands).evaluate = Matcher.alternation (operands.map evaluate) := by
  rw [evaluate_eq_matcher, matcher_alternation, matcher_evaluate]

theorem evaluate_concatenation (operands : List Expression) :
    (concatenation operands).evaluate = Matcher.concatenation (operands.map evaluate) := by
  rw [evaluate_eq_matcher, matcher_concatenation, matcher_evaluate]

theorem evaluate_repetition (bounds : Bounds) (operand : Expression) :
    (repetition bounds operand).evaluate = Matcher.repetition bounds operand.evaluate := by
  rw [evaluate_eq_matcher, matcher, matcher_evaluate]

theorem evaluate_group (inner : Expression) :
    (group inner).evaluate = Matcher.group inner.evaluate := by
  rw [evaluate_eq_matcher, matcher, matcher_evaluate]

theorem evaluate_option (inner : Expression) :
    (option inner).evaluate = Matcher.option inner.evaluate := by
  rw [evaluate_eq_matcher, matcher, matcher_evaluate]

theorem evaluate_literal (value : Literal) :
    (literal value).evaluate = Matcher.literal value := rfl

theorem evaluate_prose (text : Text) : (prose text).evaluate = Matcher.prose := rfl

theorem evaluate_reference (name : Text) :
    (reference name).evaluate = Matcher.reference evaluate name := by
  rw [evaluate_eq_matcher, matcher]

end Expression

end AugmentedBnf
