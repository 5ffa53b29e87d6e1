import Mathlib.Computability.Language
import Mathlib.Order.Antichain
import Mathlib.Order.CompletePartialOrder
import AugmentedBnf.Text.Basic

/-! # Prefix codes

No string of a prefix code is a front of another one. So a text starts with one of them at most, and
it is cut into them in one way only: going on as long as another one follows leads to the longest
front that is made of them.
-/
namespace AugmentedBnf

open scoped Computability

/-- No string is a front of another one. -/
def PrefixCode (L : Language Char) : Prop := IsAntichain (· <+: ·) (L : Set Text)

variable {K L : Language Char} {v w front rest t : Text}

theorem prefixCode_iff : PrefixCode L ↔ ∀ v ∈ L, ∀ w ∈ L, v <+: w → v = w :=
  ⟨fun h _ hv _ hw => h.eq hv hw, fun h v hv w hw hne hle => hne (h v hv w hw hle)⟩

namespace PrefixCode

theorem mono (h : PrefixCode L) (hle : K ≤ L) : PrefixCode K := h.subset hle

theorem of_length {n : Nat} (h : ∀ w ∈ L, w.length = n) : PrefixCode L :=
  prefixCode_iff.mpr fun v hv w hw hle => hle.eq_of_length ((h v hv).trans (h w hw).symm)

theorem eq_of_isPrefix (h : PrefixCode L) (hv : v ∈ L) (hw : w ∈ L) (hvt : v <+: t)
    (hwt : w <+: t) : v = w := by
  rcases List.prefix_or_prefix_of_prefix hvt hwt with hle | hle
  · exact h.eq hv hw hle
  · exact (h.eq hw hv hle).symm

/-- Strings of the code up to a place where none follows are the longest front made of them. -/
theorem isPrefix_of_kstar (h : PrefixCode L) (hw : w ∈ L∗) (hrest : ∀ v ∈ L, ¬ v <+: rest)
    (hfront : front ∈ L∗) (hle : front <+: w ++ rest) : front <+: w := by
  obtain ⟨blocks, rfl, hblocks⟩ := Language.mem_kstar.mp hw
  obtain ⟨others, rfl, hothers⟩ := Language.mem_kstar.mp hfront
  clear hw hfront
  -- both begin with the same block, as the text starts with one of them only
  induction others generalizing blocks with
  | nil => exact List.nil_prefix
  | cons other others ih =>
    obtain ⟨hother, hlater⟩ := List.forall_mem_cons.mp hothers
    have hstart := (List.prefix_append other others.flatten).trans hle
    cases blocks with
    | nil => exact absurd hstart (hrest other hother)
    | cons block blocks =>
      obtain ⟨hblock, hmore⟩ := List.forall_mem_cons.mp hblocks
      have hhead : block <+: (block :: blocks).flatten ++ rest := by
        rw [List.flatten_cons, List.append_assoc]
        exact List.prefix_append _ _
      obtain rfl := h.eq_of_isPrefix hother hblock hstart hhead
      simp only [List.flatten_cons, List.append_assoc, List.prefix_append_right_inj] at hle ⊢
      exact ih blocks hmore hlater hle

end PrefixCode

end AugmentedBnf
