import AugmentedBnf.Proofs.Evaluation.Operators

/-! # Runs

A run derives the node of an evaluation from the nodes of the evaluations it makes, call by call
and round by round, with no bound given beforehand. Its index counts these steps, so a task that
has a run at all comes to an end. Runs differ only in which entries into rules they refuse: the
evaluator refuses the active names, and a plain run refuses none.
-/
namespace AugmentedBnf

/-- What is to be done at a cursor: to evaluate an expression, or to go on with the operands that
an operator still has before it, given what it has gathered. -/
inductive Task where
  | expression (e : Expression)
  | choices (operands : List Expression) (attempts : List Node)
  | sequel (operands : List Expression) (children : List Node) (length : Nat)
  | rounds (bounds : Bounds) (operand : Expression) (accepted : List Node) (length : Nat)

/-- Whether the maximum leaves room for a match after so many. -/
def Bounds.Open (bounds : Bounds) (count : Nat) : Prop :=
  ∀ max, bounds.max = some max → count < max

theorem Bounds.open_iff {bounds : Bounds} {count : Nat} :
    bounds.Open count ↔ bounds.max.map (· - count) ≠ some 0 := by
  unfold Open
  cases bounds.max with
  | none => simp
  | some max =>
    simp only [Option.some.injEq, forall_eq', Option.map_some, ne_eq]
    omega

/-- The task, done at the cursor, returns the node after so many steps. -/
inductive Runs (refused : Cursor → Text → Bool) : Nat → Task → Cursor → Node → Prop where
  | alternation {operands : List Expression} {c : Cursor} {s : Nat} {node : Node}
      (run : Runs refused s (.choices operands []) c node) :
      Runs refused (s + 1) (.expression (.alternation operands)) c node
  | choices_end {attempts : List Node} {c : Cursor} :
      Runs refused 1 (.choices [] attempts) c
        (.failure c .alternation .alternationNoMatch attempts)
  | choices_hit {e : Expression} {rest : List Expression} {attempts : List Node} {c : Cursor}
      {s n : Nat} {node : Node} (run : Runs refused s (.expression e) c node)
      (hit : node.length? = some n) :
      Runs refused (s + 1) (.choices (e :: rest) attempts) c
        (.success c .alternation n [node])
  | choices_miss {e : Expression} {rest : List Expression} {attempts : List Node} {c : Cursor}
      {s t : Nat} {node result : Node} (run : Runs refused s (.expression e) c node)
      (miss : node.length? = none)
      (next : Runs refused t (.choices rest (attempts ++ [node])) c result) :
      Runs refused (s + t + 1) (.choices (e :: rest) attempts) c result
  | concatenation {operands : List Expression} {c : Cursor} {s : Nat} {node : Node}
      (run : Runs refused s (.sequel operands [] 0) c node) :
      Runs refused (s + 1) (.expression (.concatenation operands)) c node
  | sequel_end {children : List Node} {length : Nat} {c : Cursor} :
      Runs refused 1 (.sequel [] children length) c
        (.success c .concatenation length children)
  | sequel_stop {e : Expression} {rest : List Expression} {children : List Node} {length : Nat}
      {c : Cursor} {s : Nat} {node : Node}
      (run : Runs refused s (.expression e) (c.moveTo (c.index + length)) node)
      (miss : node.length? = none) :
      Runs refused (s + 1) (.sequel (e :: rest) children length) c
        (.failure c .concatenation .concatenationInvalidSequence [node])
  | sequel_step {e : Expression} {rest : List Expression} {children : List Node} {length : Nat}
      {c : Cursor} {s t n : Nat} {node result : Node}
      (run : Runs refused s (.expression e) (c.moveTo (c.index + length)) node)
      (hit : node.length? = some n)
      (next : Runs refused t (.sequel rest (children ++ [node]) (length + n)) c result) :
      Runs refused (s + t + 1) (.sequel (e :: rest) children length) c result
  | repetition {bounds : Bounds} {operand : Expression} {c : Cursor} {s : Nat} {node : Node}
      (run : Runs refused s (.rounds bounds operand [] 0) c node) :
      Runs refused (s + 1) (.expression (.repetition bounds operand)) c node
  | rounds_full {bounds : Bounds} {operand : Expression} {accepted : List Node} {length : Nat}
      {c : Cursor} (full : ¬ bounds.Open accepted.length) :
      Runs refused 1 (.rounds bounds operand accepted length) c
        (Matcher.settle bounds.min c ⟨accepted, length, .atMaximum⟩)
  | rounds_failed {bounds : Bounds} {operand : Expression} {accepted : List Node} {length : Nat}
      {c : Cursor} {s : Nat} {node : Node} (more : bounds.Open accepted.length)
      (run : Runs refused s (.expression operand) (c.moveTo (c.index + length)) node)
      (miss : node.length? = none) :
      Runs refused (s + 1) (.rounds bounds operand accepted length) c
        (Matcher.settle bounds.min c ⟨accepted, length, .failed node⟩)
  | rounds_idle {bounds : Bounds} {operand : Expression} {accepted : List Node} {length : Nat}
      {c : Cursor} {s : Nat} {node : Node} (more : bounds.Open accepted.length)
      (run : Runs refused s (.expression operand) (c.moveTo (c.index + length)) node)
      (hit : node.length? = some 0) :
      Runs refused (s + 1) (.rounds bounds operand accepted length) c
        (Matcher.settle bounds.min c ⟨accepted, length, .idle node⟩)
  | rounds_step {bounds : Bounds} {operand : Expression} {accepted : List Node} {length : Nat}
      {c : Cursor} {s t n : Nat} {node result : Node} (more : bounds.Open accepted.length)
      (run : Runs refused s (.expression operand) (c.moveTo (c.index + length)) node)
      (hit : node.length? = some (n + 1))
      (next : Runs refused t
        (.rounds bounds operand (accepted ++ [node]) (length + (n + 1))) c result) :
      Runs refused (s + t + 1) (.rounds bounds operand accepted length) c result
  | group {inner : Expression} {c : Cursor} {s : Nat} {node : Node}
      (run : Runs refused s (.expression inner) c node) :
      Runs refused (s + 1) (.expression (.group inner)) c (Matcher.group (fun _ => node) c)
  | option {inner : Expression} {c : Cursor} {s : Nat} {node : Node}
      (run : Runs refused s (.expression inner) c node) :
      Runs refused (s + 1) (.expression (.option inner)) c (Matcher.option (fun _ => node) c)
  | literal {value : Literal} {c : Cursor} :
      Runs refused 1 (.expression (.literal value)) c (Matcher.literal value c)
  | prose {text : Text} {c : Cursor} :
      Runs refused 1 (.expression (.prose text)) c (Matcher.prose c)
  | reference_missing {name : Text} {c : Cursor} (missing : c.context.rule? name = none) :
      Runs refused 1 (.expression (.reference name)) c
        (.failure c .reference .referenceNotFound [])
  | reference_refused {name : Text} {rule : Rule} {c : Cursor}
      (found : c.context.rule? name = some rule) (refusal : refused c rule.name = true) :
      Runs refused 1 (.expression (.reference name)) c
        (.failure c .reference .referenceCyclicRecursion [])
  | reference {name : Text} {rule : Rule} {c : Cursor} {s : Nat} {node : Node}
      (found : c.context.rule? name = some rule) (admitted : refused c rule.name = false)
      (run : Runs refused s (.expression rule.body) (c.label rule.name) node) :
      Runs refused (s + 1) (.expression (.reference name)) c
        (.entered (c.label rule.name) node)

namespace Runs

variable {refused : Cursor → Text → Bool}

/-- A task has one run at most: no outcome lets a second rule apply. -/
theorem deterministic {s t : Nat} {task : Task} {c : Cursor} {node node' : Node}
    (h : Runs refused s task c node) (h' : Runs refused t task c node') :
    s = t ∧ node = node' := by
  induction h generalizing t node' with
  | alternation run ih =>
    cases h' with
    | alternation run' =>
      obtain ⟨rfl, rfl⟩ := ih run'
      exact ⟨rfl, rfl⟩
  | choices_end =>
    cases h' with
    | choices_end => exact ⟨rfl, rfl⟩
  | choices_hit run hit ih =>
    cases h' with
    | choices_hit run' hit' =>
      obtain ⟨rfl, rfl⟩ := ih run'
      cases hit.symm.trans hit'
      exact ⟨rfl, rfl⟩
    | choices_miss run' miss' =>
      obtain ⟨rfl, rfl⟩ := ih run'
      cases hit.symm.trans miss'
  | choices_miss run miss next ih ihnext =>
    cases h' with
    | choices_hit run' hit' =>
      obtain ⟨rfl, rfl⟩ := ih run'
      cases miss.symm.trans hit'
    | choices_miss run' miss' next' =>
      obtain ⟨rfl, rfl⟩ := ih run'
      obtain ⟨rfl, rfl⟩ := ihnext next'
      exact ⟨rfl, rfl⟩
  | concatenation run ih =>
    cases h' with
    | concatenation run' =>
      obtain ⟨rfl, rfl⟩ := ih run'
      exact ⟨rfl, rfl⟩
  | sequel_end =>
    cases h' with
    | sequel_end => exact ⟨rfl, rfl⟩
  | sequel_stop run miss ih =>
    cases h' with
    | sequel_stop run' miss' =>
      obtain ⟨rfl, rfl⟩ := ih run'
      exact ⟨rfl, rfl⟩
    | sequel_step run' hit' =>
      obtain ⟨rfl, rfl⟩ := ih run'
      cases miss.symm.trans hit'
  | sequel_step run hit next ih ihnext =>
    cases h' with
    | sequel_stop run' miss' =>
      obtain ⟨rfl, rfl⟩ := ih run'
      cases hit.symm.trans miss'
    | sequel_step run' hit' next' =>
      obtain ⟨rfl, rfl⟩ := ih run'
      cases hit.symm.trans hit'
      obtain ⟨rfl, rfl⟩ := ihnext next'
      exact ⟨rfl, rfl⟩
  | repetition run ih =>
    cases h' with
    | repetition run' =>
      obtain ⟨rfl, rfl⟩ := ih run'
      exact ⟨rfl, rfl⟩
  | rounds_full full =>
    cases h' with
    | rounds_full => exact ⟨rfl, rfl⟩
    | rounds_failed more | rounds_idle more | rounds_step more => exact absurd more full
  | rounds_failed more run miss ih =>
    cases h' with
    | rounds_full full => exact absurd more full
    | rounds_failed more' run' miss' =>
      obtain ⟨rfl, rfl⟩ := ih run'
      exact ⟨rfl, rfl⟩
    | rounds_idle more' run' hit' | rounds_step more' run' hit' =>
      obtain ⟨rfl, rfl⟩ := ih run'
      cases miss.symm.trans hit'
  | rounds_idle more run hit ih =>
    cases h' with
    | rounds_full full => exact absurd more full
    | rounds_idle more' run' hit' =>
      obtain ⟨rfl, rfl⟩ := ih run'
      exact ⟨rfl, rfl⟩
    | rounds_failed more' run' hit' | rounds_step more' run' hit' =>
      obtain ⟨rfl, rfl⟩ := ih run'
      cases hit.symm.trans hit'
  | rounds_step more run hit next ih ihnext =>
    cases h' with
    | rounds_full full => exact absurd more full
    | rounds_step more' run' hit' next' =>
      obtain ⟨rfl, rfl⟩ := ih run'
      cases hit.symm.trans hit'
      obtain ⟨rfl, rfl⟩ := ihnext next'
      exact ⟨rfl, rfl⟩
    | rounds_failed more' run' hit' | rounds_idle more' run' hit' =>
      obtain ⟨rfl, rfl⟩ := ih run'
      cases hit.symm.trans hit'
  | group run ih =>
    cases h' with
    | group run' =>
      obtain ⟨rfl, rfl⟩ := ih run'
      exact ⟨rfl, rfl⟩
  | option run ih =>
    cases h' with
    | option run' =>
      obtain ⟨rfl, rfl⟩ := ih run'
      exact ⟨rfl, rfl⟩
  | literal =>
    cases h' with
    | literal => exact ⟨rfl, rfl⟩
  | prose =>
    cases h' with
    | prose => exact ⟨rfl, rfl⟩
  | reference_missing missing =>
    cases h' with
    | reference_missing => exact ⟨rfl, rfl⟩
    | reference_refused found' | reference found' => cases missing.symm.trans found'
  | reference_refused found refusal =>
    cases h' with
    | reference_missing missing' => cases found.symm.trans missing'
    | reference_refused => exact ⟨rfl, rfl⟩
    | reference found' admitted' =>
      cases found.symm.trans found'
      cases refusal.symm.trans admitted'
  | reference found admitted run ih =>
    cases h' with
    | reference_missing missing' => cases found.symm.trans missing'
    | reference_refused found' refusal' =>
      cases found.symm.trans found'
      cases admitted.symm.trans refusal'
    | reference found' admitted' run' =>
      cases found.symm.trans found'
      obtain ⟨rfl, rfl⟩ := ih run'
      exact ⟨rfl, rfl⟩

end Runs

end AugmentedBnf
