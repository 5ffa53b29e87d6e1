import AugmentedBnf.Literal

/-! # Grammar expressions

The right-hand side of a rule. References name other rules and are resolved only when the
expression is evaluated, so expressions are finite trees.
-/
namespace AugmentedBnf

/-- How often the operand of a repetition may match; without a maximum there is no limit. -/
structure Bounds where
  min : Nat
  max : Option Nat
  deriving DecidableEq

/-- The bounds of an element that stands alone. -/
def Bounds.once : Bounds := ⟨1, some 1⟩

/-- A grammar expression. -/
inductive Expression where
  /-- The first operand that matches. -/
  | alternation (operands : List Expression)
  /-- All operands one after the other. -/
  | concatenation (operands : List Expression)
  /-- The operand as often as its bounds allow. -/
  | repetition (bounds : Bounds) (operand : Expression)
  /-- An expression in parentheses. -/
  | group (inner : Expression)
  /-- An expression in square brackets, which may be missing. -/
  | option (inner : Expression)
  /-- A terminal value. -/
  | literal (value : Literal)
  /-- A rule by its name in upper case. -/
  | reference (name : Text)
  /-- A description in words, which matches nothing. -/
  | prose (text : Text)

namespace Expression

/-- The kinds of expressions. -/
inductive Kind where
  | alternation
  | concatenation
  | group
  | literal
  | option
  | prose
  | reference
  | repetition
  deriving DecidableEq

namespace Kind

/-- Every kind, in alphabetic order. -/
def all : List Kind :=
  [alternation, concatenation, group, literal, option, prose, reference, repetition]

/-- The name of a kind in output. -/
def name : Kind → String
  | alternation => "ALTERNATION"
  | concatenation => "CONCATENATION"
  | group => "GROUP"
  | literal => "LITERAL"
  | option => "OPTION"
  | prose => "PROSE"
  | reference => "REFERENCE"
  | repetition => "REPETITION"

/-- The kind with a given name. -/
def ofName? (text : String) : Option Kind := all.find? fun kind => kind.name == text

theorem mem_all (kind : Kind) : kind ∈ all := by cases kind <;> decide

end Kind

/-- The kind of an expression. -/
def kind : Expression → Kind
  | alternation _ => .alternation
  | concatenation _ => .concatenation
  | repetition _ _ => .repetition
  | group _ => .group
  | option _ => .option
  | literal _ => .literal
  | reference _ => .reference
  | prose _ => .prose

mutual
/-- Whether two expressions are equal. -/
def same : Expression → Expression → Bool
  | alternation xs, alternation ys => sameAll xs ys
  | concatenation xs, concatenation ys => sameAll xs ys
  | repetition b x, repetition c y => b == c && same x y
  | group x, group y => same x y
  | option x, option y => same x y
  | literal v, literal w => v == w
  | reference n, reference m => n == m
  | prose s, prose t => s == t
  | _, _ => false

/-- Whether two lists of expressions are equal. -/
def sameAll : List Expression → List Expression → Bool
  | [], [] => true
  | x :: xs, y :: ys => same x y && sameAll xs ys
  | _, _ => false
end

mutual
theorem same_refl : (x : Expression) → same x x = true
  | alternation xs => by simpa only [same] using sameAll_refl xs
  | concatenation xs => by simpa only [same] using sameAll_refl xs
  | repetition b x => by simpa only [same, beq_self_eq_true, Bool.true_and] using same_refl x
  | group x => by simpa only [same] using same_refl x
  | option x => by simpa only [same] using same_refl x
  | literal v => by simp only [same, beq_self_eq_true]
  | reference n => by simp only [same, beq_self_eq_true]
  | prose s => by simp only [same, beq_self_eq_true]

theorem sameAll_refl : (xs : List Expression) → sameAll xs xs = true
  | [] => rfl
  | x :: xs => by simp only [sameAll, same_refl x, sameAll_refl xs, Bool.and_self]
end

mutual
theorem eq_of_same : (x y : Expression) → same x y = true → x = y
  | alternation xs, y, h => by
    cases y <;> simp only [same, Bool.false_eq_true] at h
    rw [eq_of_sameAll xs _ h]
  | concatenation xs, y, h => by
    cases y <;> simp only [same, Bool.false_eq_true] at h
    rw [eq_of_sameAll xs _ h]
  | repetition b x, y, h => by
    cases y <;> simp only [same, Bool.false_eq_true, Bool.and_eq_true, beq_iff_eq] at h
    rw [h.1, eq_of_same x _ h.2]
  | group x, y, h => by
    cases y <;> simp only [same, Bool.false_eq_true] at h
    rw [eq_of_same x _ h]
  | option x, y, h => by
    cases y <;> simp only [same, Bool.false_eq_true] at h
    rw [eq_of_same x _ h]
  | literal v, y, h => by
    cases y <;> simp only [same, Bool.false_eq_true, beq_iff_eq] at h
    rw [h]
  | reference n, y, h => by
    cases y <;> simp only [same, Bool.false_eq_true, beq_iff_eq] at h
    rw [h]
  | prose s, y, h => by
    cases y <;> simp only [same, Bool.false_eq_true, beq_iff_eq] at h
    rw [h]

theorem eq_of_sameAll : (xs ys : List Expression) → sameAll xs ys = true → xs = ys
  | [], ys, h => by
    cases ys with
    | nil => rfl
    | cons y ys => simp [sameAll] at h
  | x :: xs, ys, h => by
    cases ys with
    | nil => simp [sameAll] at h
    | cons y ys =>
      simp only [sameAll, Bool.and_eq_true] at h
      rw [eq_of_same x y h.1, eq_of_sameAll xs ys h.2]
end

theorem same_iff {x y : Expression} : same x y = true ↔ x = y :=
  ⟨eq_of_same x y, fun h => h ▸ same_refl x⟩

instance : DecidableEq Expression := fun x y => decidable_of_iff (same x y = true) same_iff

/-- Collapses wrappers around a single operand at the top: choices and sequences of one operand,
and repetitions of exactly one. -/
def simplify : Expression → Expression
  | alternation [only] => simplify only
  | concatenation [only] => simplify only
  | repetition ⟨1, some 1⟩ operand => simplify operand
  | other => other

/-- The alternatives of an expression: the operands of an alternation, else the expression. -/
def branches : Expression → List Expression
  | alternation operands => operands
  | other => [other]

/-- Further alternatives appended to an expression. -/
def merge (existing added : Expression) : Expression :=
  alternation (existing.branches ++ added.branches)

end Expression

end AugmentedBnf
