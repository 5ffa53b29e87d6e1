import Mathlib.Data.List.Forall2
import AugmentedBnf.Token.Lexer

/-! # Tokens and causes that differ in offsets

Tokens are alike if they have the same kind and, except for line breaks, the same text. Outcomes are
the same up to offsets if both are results or both are refusals for the same cause, wherever it is.
-/
namespace AugmentedBnf

/-- The cause without the place that it names. -/
def CompileError.unplaced : CompileError → CompileError
  | unexpectedCharacter _ => unexpectedCharacter 0
  | expected wanted found _ => expected wanted found 0
  | unexpectedEnd => unexpectedEnd
  | unsupportedToken kind _ => unsupportedToken kind 0
  | invalidRange literal => invalidRange literal
  | invalidNumber text => invalidNumber text

/-- Both succeed with related results, or both are refused for causes that differ in offsets at
most. -/
def UpToOffsets {α β : Type} (R : α → β → Prop) :
    Except CompileError α → Except CompileError β → Prop
  | .ok a, .ok b => R a b
  | .error x, .error y => x.unplaced = y.unplaced
  | .ok _, .error _ => False
  | .error _, .ok _ => False

namespace UpToOffsets

variable {α β γ δ : Type}

theorem symm {x y : Except CompileError α} (h : UpToOffsets Eq x y) : UpToOffsets Eq y x := by
  cases x <;> cases y
  · exact Eq.symm h
  · exact h
  · exact h
  · exact Eq.symm h

theorem trans {x y z : Except CompileError α} (h : UpToOffsets Eq x y) (h' : UpToOffsets Eq y z) :
    UpToOffsets Eq x z := by
  cases x with
  | ok a =>
    cases y with
    | ok b =>
      obtain rfl : a = b := h
      exact h'
    | error _ => exact False.elim h
  | error _ =>
    cases y with
    | ok _ => exact False.elim h
    | error _ =>
      cases z with
      | ok _ => exact h'
      | error _ => exact Eq.trans h h'

theorem bind {R : α → β → Prop} {S : γ → δ → Prop} {x : Except CompileError α}
    {y : Except CompileError β} {f : α → Except CompileError γ} {g : β → Except CompileError δ}
    (h : UpToOffsets R x y) (hfg : ∀ a b, R a b → UpToOffsets S (f a) (g b)) :
    UpToOffsets S (x >>= f) (y >>= g) := by
  cases x with
  | ok a =>
    cases y with
    | ok b => exact hfg a b h
    | error _ => exact False.elim h
  | error _ =>
    cases y with
    | ok _ => exact False.elim h
    | error _ => exact h

theorem map {R : α → β → Prop} {S : γ → δ → Prop} {x : Except CompileError α}
    {y : Except CompileError β} {f : α → γ} {g : β → δ} (h : UpToOffsets R x y)
    (hfg : ∀ a b, R a b → S (f a) (g b)) : UpToOffsets S (x.map f) (y.map g) :=
  h.bind hfg

end UpToOffsets

/-- The tokens differ at most in their places and in how they break a line. -/
structure Token.Alike (a b : Token) : Prop where
  kind : a.kind = b.kind
  text : a.kind ≠ .lineBreak → a.text = b.text

end AugmentedBnf
