import Mathlib.Data.List.Sort
import AugmentedBnf.Charset

/-! # Sets of characters as runs of code points

The runs of a set cover exactly the code points of its members, and a set is determined by its
members. A set of consecutive code points is a single run.
-/
namespace AugmentedBnf.Charset

theorem ext_members {s t : Charset} (h : ∀ c, c ∈ s.members ↔ c ∈ t.members) : s = t := by
  obtain ⟨cs, hcs⟩ := s
  obtain ⟨ds, hds⟩ := t
  have hnodup : ∀ {xs : List Char}, xs.Pairwise (· < ·) → xs.Nodup := by
    intro xs hxs
    refine hxs.imp ?_
    rintro a b hlt rfl
    exact Char.lt_irrefl a hlt
  have hperm : cs.Perm ds := (List.perm_ext_iff_of_nodup (hnodup hcs) (hnodup hds)).mpr h
  have heq : cs = ds := hperm.eq_of_pairwise' hcs hds
  subst heq
  rfl

theorem toNat_ofNat_of_le {n : Nat} (h : n ≤ 255) : (Char.ofNat n).toNat = n := by
  have hvalid : n.isValidChar := .inl (by omega)
  rw [Char.ofNat, dif_pos hvalid]
  rfl

theorem mem_range_iff {first last : Nat} (hlast : last ≤ 255) {c : Char} :
    c ∈ (range first last).members ↔ first ≤ c.toNat ∧ c.toNat ≤ last := by
  rw [range, mem_ofList, List.mem_map]
  constructor
  · rintro ⟨n, hn, rfl⟩
    obtain ⟨hfirst, hless⟩ := List.mem_range'_1.mp hn
    rw [toNat_ofNat_of_le (by omega)]
    omega
  · rintro ⟨hfirst, hlast⟩
    exact ⟨c.toNat, List.mem_range'_1.mpr ⟨hfirst, by omega⟩, Char.ofNat_toNat c⟩

/-- The run holds the code point. -/
def Covers (run : Nat × Nat) (n : Nat) : Prop := run.1 ≤ n ∧ n ≤ run.2

/-- One more character belongs to the run that starts right behind it, or is a run of its own. -/
theorem runsOf_cons (c : Char) (rest : List Char) :
    (∃ last more, runsOf rest = (c.toNat + 1, last) :: more ∧
      runsOf (c :: rest) = (c.toNat, last) :: more) ∨
    runsOf (c :: rest) = (c.toNat, c.toNat) :: runsOf rest := by
  rw [runsOf]
  cases hruns : runsOf rest with
  | nil => exact .inr rfl
  | cons run more =>
    obtain ⟨first, last⟩ := run
    dsimp only
    split
    · rename_i hnext
      subst hnext
      exact .inl ⟨last, more, rfl, rfl⟩
    · exact .inr rfl

theorem runsOf_ordered (cs : List Char) : ∀ run ∈ runsOf cs, run.1 ≤ run.2 := by
  induction cs with
  | nil => nofun
  | cons c rest ih =>
    rcases runsOf_cons c rest with ⟨last, more, hrest, hruns⟩ | hruns
    · rw [hrest] at ih
      obtain ⟨hfirst, hmore⟩ := List.forall_mem_cons.mp ih
      rw [hruns]
      refine List.forall_mem_cons.mpr ⟨?_, hmore⟩
      dsimp only at hfirst ⊢
      omega
    · rw [hruns]
      exact List.forall_mem_cons.mpr ⟨Nat.le_refl _, ih⟩

/-- The runs cover the code points of the members and no others. -/
theorem exists_covers_iff (cs : List Char) (n : Nat) :
    (∃ run ∈ runsOf cs, Covers run n) ↔ n ∈ cs.map Char.toNat := by
  induction cs with
  | nil => simp [runsOf]
  | cons c rest ih =>
    rw [List.map_cons, List.mem_cons, ← ih]
    rcases runsOf_cons c rest with ⟨last, more, hrest, hruns⟩ | hruns
    · have hordered := runsOf_ordered rest
      rw [hrest] at hordered
      have hle := (List.forall_mem_cons.mp hordered).1
      rw [hruns, hrest]
      simp only [List.mem_cons, exists_eq_or_imp, Covers, ← or_assoc]
      refine or_congr_left ?_
      dsimp only at hle
      constructor <;> intro h <;> omega
    · rw [hruns]
      simp only [List.mem_cons, exists_eq_or_imp, Covers]
      refine or_congr_left ?_
      constructor <;> intro h <;> omega

theorem runsOf_ne_nil {cs : List Char} (h : cs ≠ []) : runsOf cs ≠ [] := by
  obtain ⟨c, rest, rfl⟩ := List.exists_cons_of_ne_nil h
  rcases runsOf_cons c rest with ⟨last, more, -, hruns⟩ | hruns
  · rw [hruns]
    exact List.cons_ne_nil _ _
  · rw [hruns]
    exact List.cons_ne_nil _ _

theorem mem_iff_covers {set : Charset} {c : Char} :
    c ∈ set.members ↔ ∃ run ∈ set.runs, Covers run c.toNat := by
  rw [runs, exists_covers_iff]
  constructor
  · exact fun h => List.mem_map_of_mem h
  · intro h
    obtain ⟨d, hd, heq⟩ := List.mem_map.mp h
    rwa [← Char.toNat_inj.mp heq]

/-- No run goes beyond a bound on the members. -/
theorem le_of_mem_runs {set : Charset} {bound : Nat} (h : ∀ c ∈ set.members, c.toNat ≤ bound)
    {run : Nat × Nat} (hrun : run ∈ set.runs) : run.1 ≤ run.2 ∧ run.2 ≤ bound := by
  have hle := runsOf_ordered set.members run hrun
  have hcode : run.2 ∈ set.members.map Char.toNat :=
    (exists_covers_iff _ _).mp ⟨run, hrun, hle, Nat.le_refl _⟩
  obtain ⟨c, hc, heq⟩ := List.mem_map.mp hcode
  exact ⟨hle, heq ▸ h c hc⟩

/-- Consecutive code points are a single run. -/
theorem runsOf_interval {cs : List Char} (hcs : cs.Pairwise (· < ·)) {first last : Nat}
    (hle : first ≤ last) (h : ∀ n, n ∈ cs.map Char.toNat ↔ first ≤ n ∧ n ≤ last) :
    runsOf cs = [(first, last)] := by
  induction cs generalizing first with
  | nil => exact absurd ((h first).mpr ⟨Nat.le_refl _, hle⟩) List.not_mem_nil
  | cons c rest ih =>
    obtain ⟨hleast, hrest⟩ := List.pairwise_cons.mp hcs
    have hless : ∀ n ∈ rest.map Char.toNat, c.toNat < n := by
      intro n hn
      obtain ⟨d, hd, rfl⟩ := List.mem_map.mp hn
      exact hleast d hd
    -- the first code point is that of the least member
    have hc : c.toNat = first := by
      have hlow := ((h c.toNat).mp List.mem_cons_self).1
      rcases List.mem_cons.mp ((h first).mpr ⟨Nat.le_refl _, hle⟩) with heq | hmem
      · exact heq.symm
      · have := hless first hmem
        omega
    have hothers : ∀ n, n ∈ rest.map Char.toNat ↔ first + 1 ≤ n ∧ n ≤ last := by
      intro n
      have hall := h n
      rw [List.map_cons, List.mem_cons, hc] at hall
      constructor
      · intro hn
        have hgreater := hless n hn
        have hlast := (hall.mp (.inr hn)).2
        omega
      · intro hn
        rcases hall.mpr ⟨by omega, hn.2⟩ with heq | hmem
        · omega
        · exact hmem
    rcases Nat.lt_or_ge first last with hlt | hge
    · have hruns := ih hrest hlt hothers
      rw [runsOf, hruns]
      simp only [hc, if_true]
    · have hnil : rest = [] := by
        cases rest with
        | nil => rfl
        | cons d rest =>
          have := (hothers d.toNat).mp List.mem_cons_self
          omega
      have hlast : last = first := by omega
      rw [hnil, runsOf, runsOf, hc, hlast]

/-- The members are the characters with code points from `first` to `last`. -/
def IsInterval (set : Charset) (first last : Nat) : Prop :=
  ∀ c, c ∈ set.members ↔ first ≤ c.toNat ∧ c.toNat ≤ last

theorem IsInterval.eq_range {set : Charset} {first last : Nat} (h : set.IsInterval first last)
    (hlast : last ≤ 255) : set = range first last := by
  apply ext_members
  intro c
  rw [h c, mem_range_iff hlast]

theorem IsInterval.runs_eq {set : Charset} {first last : Nat} (h : set.IsInterval first last)
    (hle : first ≤ last) (hlast : last ≤ 255) : set.runs = [(first, last)] := by
  refine runsOf_interval set.ascending hle ?_
  intro n
  constructor
  · intro hn
    obtain ⟨c, hc, rfl⟩ := List.mem_map.mp hn
    exact (h c).mp hc
  · rintro ⟨hfirst, hless⟩
    have hcode : (Char.ofNat n).toNat = n := toNat_ofNat_of_le (by omega)
    refine List.mem_map.mpr ⟨Char.ofNat n, (h _).mpr ?_, hcode⟩
    rw [hcode]
    exact ⟨hfirst, hless⟩

end AugmentedBnf.Charset
