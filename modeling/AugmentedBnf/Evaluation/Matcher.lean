import AugmentedBnf.Evaluation.Node

/-! # Matching, one operator at a time

A matcher tries one expression at a place. Each operator of the grammar notation builds a
matcher from those of its operands.
-/
namespace AugmentedBnf

/-- Tries an expression at a cursor. -/
abbrev Matcher := Cursor → Node

namespace Matcher

/-- The first attempt that succeeds, and the failed attempts before it. -/
def firstMatch (cursor : Cursor) : List Matcher → List Node × Option (Nat × Node)
  | [] => ([], none)
  | operand :: rest =>
    let node := operand cursor
    match node.length? with
    | some length => ([], some (length, node))
    | none =>
      let (attempts, found) := firstMatch cursor rest
      (node :: attempts, found)

/-- The first operand that matches counts alone; if none does, all attempts are kept. -/
def alternation (operands : List Matcher) : Matcher := fun cursor =>
  match firstMatch cursor operands with
  | (_, some (length, node)) => .success cursor .alternation length [node]
  | (attempts, none) => .failure cursor .alternation .alternationNoMatch attempts

/-- Tries each operand where the one before it ended: either all nodes and the sum of their
lengths, or the first node that failed. -/
def inSequence (cursor : Cursor) : List Matcher → (offset : Nat) → Except Node (List Node × Nat)
  | [], _ => .ok ([], 0)
  | operand :: rest, offset =>
    let node := operand (cursor.moveTo (cursor.index + offset))
    match node.length? with
    | none => .error node
    | some length =>
      match inSequence cursor rest (offset + length) with
      | .ok (nodes, total) => .ok (node :: nodes, length + total)
      | .error failed => .error failed

/-- All operands one after the other; the first failure counts alone. -/
def concatenation (operands : List Matcher) : Matcher := fun cursor =>
  match inSequence cursor operands 0 with
  | .ok (nodes, total) => .success cursor .concatenation total nodes
  | .error failed => .failure cursor .concatenation .concatenationInvalidSequence [failed]

/-- Why an iteration ended. -/
inductive Halt where
  /-- As many matches as the maximum were found. -/
  | atMaximum
  /-- An attempt failed. -/
  | failed (attempt : Node)
  /-- An attempt matched without consuming anything. -/
  | idle (attempt : Node)

/-- Successive matches that each consumed something, the bytes they consumed together, and why
no other followed. -/
structure Iteration where
  matched : List Node
  length : Nat
  halt : Halt

/-- One more match in front of an iteration. -/
def Iteration.push (node : Node) (length : Nat) (iteration : Iteration) : Iteration :=
  ⟨node :: iteration.matched, length + iteration.length, iteration.halt⟩

/-- Tries the operand again and again, each time where the last match ended. The count bounds the
number of attempts; `allowed` is what is left of the maximum. -/
def iterate (operand : Matcher) (cursor : Cursor) :
    (count : Nat) → (allowed : Option Nat) → (offset : Nat) → Iteration
  | 0, _, _ => ⟨[], 0, .atMaximum⟩
  | count + 1, allowed, offset =>
    if allowed = some 0 then ⟨[], 0, .atMaximum⟩
    else
      let node := operand (cursor.moveTo (cursor.index + offset))
      match node.length? with
      | none => ⟨[], 0, .failed node⟩
      | some 0 => ⟨[], 0, .idle node⟩
      | some (n + 1) =>
        (iterate operand cursor count (allowed.map (· - 1)) (offset + (n + 1))).push node (n + 1)

/-- The node of a repetition, by how its iteration ended. -/
def settle (min : Nat) (cursor : Cursor) (iteration : Iteration) : Node :=
  let enough := min ≤ iteration.matched.length
  match iteration.halt with
  | .atMaximum =>
    if enough then .success cursor .repetition iteration.length iteration.matched
    else .failure cursor .repetition .repetitionBelowMinimum []
  | .failed attempt =>
    if enough then .success cursor .repetition iteration.length iteration.matched
    else .failure cursor .repetition .repetitionBelowMinimum [attempt]
  | .idle attempt =>
    if enough then .success cursor .repetition iteration.length (iteration.matched ++ [attempt])
    else .failure cursor .repetition .repetitionNoProgress []

/-- The operand as often as it matches, up to the maximum. A match that consumes nothing is the
last one. Every match but the last takes a character, which bounds their number. -/
def repetition (bounds : Bounds) (operand : Matcher) : Matcher := fun cursor =>
  settle bounds.min cursor (iterate operand cursor (cursor.remaining.length + 1) bounds.max 0)

/-- What the expression in parentheses does. -/
def group (inner : Matcher) : Matcher := fun cursor =>
  let node := inner cursor
  match node.length? with
  | some length => .success cursor .group length [node]
  | none => .failure cursor .group .groupExpressionFailed [node]

/-- What the expression in brackets matches, or nothing. -/
def option (inner : Matcher) : Matcher := fun cursor =>
  let node := inner cursor
  .success cursor .option (node.length?.getD 0) [node]

/-- The next characters, each in the charset at its place. -/
def literal (value : Literal) : Matcher := fun cursor =>
  match value.match? cursor.remaining with
  | some length => .success cursor .literal length []
  | none => .failure cursor .literal .literalCharsetMismatch []

/-- A description in words never matches. -/
def prose : Matcher := fun cursor => .failure cursor .prose .proseNotEvaluable []

/-- A rule by its name, with its body tried one level deeper. A rule that is active at the offset
fails at once, so left recursion comes to an end. -/
def reference (enter : Expression → Matcher) (name : Text) : Matcher := fun cursor =>
  match cursor.context.rule? name with
  | none => .failure cursor .reference .referenceNotFound []
  | some rule =>
    if cursor.isActive rule.name then .failure cursor .reference .referenceCyclicRecursion []
    else
      let inside := cursor.label rule.name
      let node := enter rule.body inside
      match node.length? with
      | some length => .success inside .reference length [node]
      | none => .failure inside .reference .referenceEvaluationFailed [node]

end Matcher

end AugmentedBnf
