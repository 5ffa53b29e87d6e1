import AugmentedBnf.Proofs.Evaluation.Printed
import AugmentedBnf.Proofs.Evaluation.Termination
import AugmentedBnf.Proofs.Expression.RoundTrip

/-! # Rendered sets of characters

The runs of a set come from taking its members one after the other: a member stretches the last run
if it stands right behind it, and else starts a run of its own. As the members ascend, the runs are
the maximal ones. What a set is rendered as is read back as an expression that matches what the set
does.
-/
namespace AugmentedBnf

namespace Charset

/-- One more code point stretches the last run if it stands right behind it, or starts a new one. -/
def extend (runs : List (Nat × Nat)) (n : Nat) : List (Nat × Nat) :=
  match runs.getLast? with
  | some (first, last) => if last + 1 = n then runs.dropLast ++ [(first, n)] else runs ++ [(n, n)]
  | none => [(n, n)]

/-- The runs are in order, and no two of them meet or touch. -/
structure Apart (runs : List (Nat × Nat)) : Prop where
  ordered : ∀ run ∈ runs, run.1 ≤ run.2
  gaps : runs.Pairwise fun run later => run.2 + 1 < later.1

section Extend

variable {runs : List (Nat × Nat)} {n : Nat}

theorem extend_concat (runs : List (Nat × Nat)) (first last n : Nat) :
    extend (runs ++ [(first, last)]) n =
      if last + 1 = n then runs ++ [(first, n)] else runs ++ [(first, last)] ++ [(n, n)] := by
  simp [extend]

/-- Only the last run is touched. -/
theorem extend_cons (run : Nat × Nat) (h : runs ≠ []) (n : Nat) :
    extend (run :: runs) n = run :: extend runs n := by
  obtain ⟨front, ⟨first, last⟩, rfl⟩ := List.eq_nil_or_concat runs |>.resolve_left h
  rw [List.concat_eq_append, ← List.cons_append, extend_concat, extend_concat]
  split <;> rfl

theorem apart_concat_iff {run : Nat × Nat} : Apart (runs ++ [run]) ↔
    Apart runs ∧ run.1 ≤ run.2 ∧ ∀ earlier ∈ runs, earlier.2 + 1 < run.1 := by
  constructor
  · intro h
    obtain ⟨hgaps, -, hlast⟩ := List.pairwise_append.mp h.gaps
    obtain ⟨hordered, hrun⟩ := List.forall_mem_append.mp h.ordered
    exact ⟨⟨hordered, hgaps⟩, hrun run (List.mem_singleton_self run),
      fun earlier hmem => hlast earlier hmem run (List.mem_singleton_self run)⟩
  · rintro ⟨h, hrun, hlast⟩
    refine ⟨List.forall_mem_append.mpr ⟨h.ordered, List.forall_mem_singleton.mpr hrun⟩,
      List.pairwise_append.mpr ⟨h.gaps, List.pairwise_singleton _ run, ?_⟩⟩
    intro earlier hmem later hlater
    rw [List.mem_singleton.mp hlater]
    exact hlast earlier hmem

/-- A code point beyond all runs keeps them apart. -/
theorem Apart.extend (h : Apart runs) (hn : ∀ run ∈ runs, run.2 < n) : Apart (extend runs n) := by
  rcases List.eq_nil_or_concat runs with rfl | ⟨front, ⟨first, last⟩, rfl⟩
  · exact ⟨List.forall_mem_singleton.mpr (Nat.le_refl n), List.pairwise_singleton _ _⟩
  · rw [List.concat_eq_append] at h hn ⊢
    obtain ⟨hfront, hordered, hgap⟩ := apart_concat_iff.mp h
    have hless : last < n := hn (first, last) List.mem_concat_self
    dsimp only at hordered hgap
    rw [extend_concat]
    split
    · exact apart_concat_iff.mpr ⟨hfront, by dsimp only; omega, hgap⟩
    · rename_i hnext
      refine apart_concat_iff.mpr ⟨h, Nat.le_refl n, List.forall_mem_append.mpr ⟨?_, ?_⟩⟩
      · intro earlier hmem
        have := hgap earlier hmem
        dsimp only
        omega
      · exact List.forall_mem_singleton.mpr (by dsimp only; omega)

/-- No run stands right behind another one. -/
theorem Apart.maximal (h : Apart runs) : ∀ run ∈ runs, ∀ other ∈ runs, run.2 + 1 ≠ other.1 := by
  induction runs using List.reverseRecOn with
  | nil => nofun
  | append_singleton front last ih =>
    obtain ⟨hfront, hlast, hgap⟩ := apart_concat_iff.mp h
    refine List.forall_mem_append.mpr ⟨?_, List.forall_mem_singleton.mpr ?_⟩
    · intro run hrun
      refine List.forall_mem_append.mpr ⟨ih hfront run hrun, List.forall_mem_singleton.mpr ?_⟩
      exact (hgap run hrun).ne
    · refine List.forall_mem_append.mpr ⟨?_, List.forall_mem_singleton.mpr (by omega)⟩
      intro other hother
      have := hfront.ordered other hother
      have := hgap other hother
      omega

end Extend

section Runs

/-- The last character of a list joins the runs of those before it. -/
theorem runsOf_concat (cs : List Char) (c : Char) :
    runsOf (cs ++ [c]) = extend (runsOf cs) c.toNat := by
  induction cs with
  | nil => rfl
  | cons d cs ih =>
    cases cs with
    | nil => simp [runsOf, extend]
    | cons e cs =>
      obtain ⟨⟨first, last⟩, more, hruns⟩ :=
        List.exists_cons_of_ne_nil (runsOf_ne_nil (List.cons_ne_nil e cs))
      rw [hruns] at ih
      rw [List.cons_append, runsOf, ih, runsOf, hruns]
      cases more with
      | nil =>
        by_cases hfirst : d.toNat + 1 = first <;> by_cases hlast : last + 1 = c.toNat <;>
          simp [extend, hfirst, hlast]
      | cons next more =>
        have htail := List.cons_ne_nil next more
        rw [extend_cons _ htail]
        dsimp only
        split
        · rw [extend_cons _ htail]
        · rw [extend_cons _ (List.cons_ne_nil _ _), extend_cons _ htail]

theorem runsOf_eq_foldl (cs : List Char) : runsOf cs = (cs.map Char.toNat).foldl extend [] := by
  induction cs using List.reverseRecOn with
  | nil => rfl
  | append_singleton cs c ih => rw [runsOf_concat, ih, List.map_append, List.foldl_append]; rfl

/-- Ascending characters have runs that do not meet or touch. -/
theorem apart_runsOf {cs : List Char} (h : cs.Pairwise (· < ·)) : Apart (runsOf cs) := by
  induction cs using List.reverseRecOn with
  | nil => exact ⟨List.forall_mem_nil _, .nil⟩
  | append_singleton cs c ih =>
    obtain ⟨hcs, -, hless⟩ := List.pairwise_append.mp h
    rw [runsOf_concat]
    refine (ih hcs).extend ?_
    intro run hrun
    -- the end of a run is the code point of a member, and `c` lies beyond all members
    have hend := (exists_covers_iff cs run.2).mp ⟨run, hrun, runsOf_ordered cs run hrun, Nat.le_refl _⟩
    obtain ⟨d, hd, heq⟩ := List.mem_map.mp hend
    exact heq ▸ hless d hd c (List.mem_singleton_self c)

end Runs

/-- The runs of a set of characters. -/
structure Exact (set : Charset) (runs : List (Nat × Nat)) : Prop where
  merged : runs = (set.members.map Char.toNat).foldl extend []
  ordered : ∀ run ∈ runs, run.1 ≤ run.2
  ascending : runs.Pairwise fun run later => run.2 < later.1
  disjoint : runs.Pairwise fun run later => ∀ n, Covers run n → ¬ Covers later n
  maximal : ∀ run ∈ runs, ∀ other ∈ runs, run.2 + 1 ≠ other.1
  covered : ∀ n, (∃ run ∈ runs, Covers run n) ↔ ∃ c ∈ set.members, c.toNat = n

theorem exact_runs (set : Charset) : Exact set set.runs := by
  have hapart : Apart set.runs := apart_runsOf set.ascending
  constructor
  case merged => exact runsOf_eq_foldl set.members
  case ordered => exact hapart.ordered
  case ascending => exact hapart.gaps.imp fun hgap => by omega
  case disjoint =>
    refine hapart.gaps.imp ?_
    rintro run later hgap n ⟨-, hlast⟩ ⟨hfirst, -⟩
    omega
  case maximal => exact hapart.maximal
  case covered =>
    intro n
    exact (exists_covers_iff set.members n).trans List.mem_map

end Charset

namespace Expression

open Token (Printed past_of_visible_nil)

/-- A text that shows lexemes is read as what they spell, and no token is left over. -/
theorem read_of_printed {text : Text} {vs : List (Token.Kind × Text)} {e : Expression}
    (hprinted : Printed text vs) (hwhole : ReadsWhole vs e) :
    ∃ stream, TokenStream.ofSource text = .ok stream ∧
      read stream = .ok e { stream with tokens := [] } := by
  have hshows := hprinted [] [] nofun .nil
  rw [List.append_nil, List.append_nil] at hshows
  obtain ⟨tokens, hscan, hvisible, -⟩ := hshows.scanAt 0
  obtain ⟨rest, hrest, hspells⟩ := hwhole tokens [] (by rw [hvisible, List.append_nil])
    (closing_nil tokens)
  have hnil : rest = [] := hspells.past_rest.symm.trans (past_of_visible_nil hrest)
  rw [hnil] at hspells
  have hscan' : Token.scan text = .ok tokens := hscan
  refine ⟨⟨tokens, text.byteSize⟩, ?_, read_eq_ok_iff.mpr ⟨[], rfl, hspells⟩⟩
  rw [TokenStream.ofSource, hscan']
  rfl

end Expression

namespace Charset

variable {set : Charset}

theorem assemble_reread (set : Charset) : Expression.assemble [[set.reread]] = set.reread := by
  unfold reread
  split <;> rfl

/-- A rendered set is read back as one literal, or as a choice between the literals of its runs. -/
theorem exists_read_reread (hne : set.members ≠ [])
    (hcodes : ∀ c ∈ set.members, c.toNat ≤ Literal.maxCode) :
    ∃ stream, TokenStream.ofSource set.render = .ok stream ∧
      Expression.read stream = .ok set.reread { stream with tokens := [] } := by
  have hwhole := Expression.ReadsWhole.of_pieces (.of_element (reads_shown hne hcodes))
  rw [assemble_reread] at hwhole
  exact Expression.read_of_printed (printed_render set) hwhole

/-- The runs of a set are exact, and what a set within the range of numeric values is rendered as is
read back as an expression that matches what the set does. -/
theorem render_exact (set : Charset) :
    Exact set set.runs ∧ (set.members ≠ [] → (∀ c ∈ set.members, c.toNat ≤ 255) →
      ∃ stream e, TokenStream.ofSource set.render = .ok stream ∧
        Expression.read stream = .ok e { stream with tokens := [] } ∧
        ∀ c : Cursor, (e.evaluate c).length? = ((Expression.literal ⟨[set]⟩).evaluate c).length?) := by
  refine ⟨exact_runs set, ?_⟩
  intro hne hcodes
  obtain ⟨stream, hsource, hread⟩ := exists_read_reread hne hcodes
  refine ⟨stream, set.reread, hsource, hread, ?_⟩
  intro c
  rw [Expression.evaluate_eq_matcher, Expression.evaluate_literal, Literal.length?_reread hcodes]

theorem render_exact_letters :
    let set := ofList ['A', 'C', 'D', 'ÿ']
    set.render = "(%x41 / %x43-44 / %xFF)".toList ∧
      Exact set [(0x41, 0x41), (0x43, 0x44), (0xFF, 0xFF)] ∧
      ∃ stream e, TokenStream.ofSource set.render = .ok stream ∧
        Expression.read stream = .ok e { stream with tokens := [] } ∧
        ∀ c : Cursor, (e.evaluate c).length? = ((Expression.literal ⟨[set]⟩).evaluate c).length? := by
  have h := render_exact (ofList ['A', 'C', 'D', 'ÿ'])
  exact ⟨by decide, h.1, h.2 (by decide) (by simp [mem_ofList])⟩

/-- The characters on both sides of the surrogates are not consecutive. -/
example : (ofList ['\uD7FF', '\uE000']).runs = [(0xD7FF, 0xD7FF), (0xE000, 0xE000)] := by decide

end Charset

end AugmentedBnf
