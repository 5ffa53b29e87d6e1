import AugmentedBnf.Text.Basic

/-! # Cutting texts

A cut at a byte offset succeeds exactly between two characters, and then it divides the text into a
front of the given size and the rest. A cut where a class of characters ends divides a text in one way
only, too.
-/
namespace AugmentedBnf.Text

section Class

variable {α : Type} {f : α → Bool} {s s' t t' : List α}

theorem takeWhile_append_of_head (hs : ∀ a ∈ s, f a = true) (ht : ∀ a ∈ t.head?, f a = false) :
    (s ++ t).takeWhile f = s := by
  rw [List.takeWhile_append_of_pos hs]
  cases t with
  | nil => simp
  | cons a t =>
    have ha := ht a rfl
    simp [ha]

/-- What belongs to a class and what follows it are found again in the whole. -/
theorem append_inj_of_head (hs : ∀ a ∈ s, f a = true) (ht : ∀ a ∈ t.head?, f a = false)
    (hs' : ∀ a ∈ s', f a = true) (ht' : ∀ a ∈ t'.head?, f a = false) (h : s ++ t = s' ++ t') :
    s = s' ∧ t = t' := by
  have hfront := congrArg (List.takeWhile f) h
  rw [takeWhile_append_of_head hs ht, takeWhile_append_of_head hs' ht'] at hfront
  subst hfront
  exact ⟨rfl, List.append_cancel_left h⟩

/-- What stands in front of the first mark and what stands behind it are found again in the whole. -/
theorem append_mark_inj [DecidableEq α] {mark : α} (hs : mark ∉ s) (hs' : mark ∉ s')
    (h : s ++ mark :: t = s' ++ mark :: t') : s = s' ∧ t = t' := by
  have hother : ∀ {s : List α}, mark ∉ s → ∀ a ∈ s, (a != mark) = true :=
    fun hs a ha => bne_iff_ne.mpr fun heq => hs (heq ▸ ha)
  have hmark : ∀ t : List α, ∀ a ∈ (mark :: t).head?, (a != mark) = false := by
    rintro t a ⟨⟩
    exact bne_self_eq_false mark
  obtain ⟨hfront, hrest⟩ := append_inj_of_head (hother hs) (hmark t) (hother hs') (hmark t') h
  exact ⟨hfront, (List.cons.inj hrest).2⟩

end Class

/-- What is left after a cut is what follows a front of that size. -/
theorem dropBytes?_eq_some_iff {n : Nat} {t s : Text} :
    dropBytes? n t = some s ↔ ∃ p, t = p ++ s ∧ byteSize p = n := by
  constructor
  · intro h
    fun_induction dropBytes? n t with
    | case1 t => exact ⟨[], by simpa using h, rfl⟩
    | case2 => cases h
    | case3 n c rest hle ih =>
      obtain ⟨p, hp, hsize⟩ := ih h
      refine ⟨c :: p, by rw [hp, List.cons_append], ?_⟩
      simp only [byteSize_cons]
      omega
    | case4 => cases h
  · rintro ⟨p, rfl, rfl⟩
    exact dropBytes?_append p s

/-- The front of a cut is the front of that size. -/
theorem takeBytes?_eq_some_iff {n : Nat} {t p : Text} :
    takeBytes? n t = some p ↔ ∃ s, t = p ++ s ∧ byteSize p = n := by
  constructor
  · intro h
    fun_induction takeBytes? n t generalizing p with
    | case1 t => exact ⟨t, by cases h; rfl, by cases h; rfl⟩
    | case2 => cases h
    | case3 n c rest hle ih =>
      obtain ⟨q, hq, rfl⟩ := Option.map_eq_some_iff.mp h
      obtain ⟨s, hs, hsize⟩ := ih hq
      refine ⟨s, by rw [hs, List.cons_append], ?_⟩
      simp only [byteSize_cons]
      omega
    | case4 => cases h
  · rintro ⟨s, rfl, rfl⟩
    exact takeBytes?_append p s

/-- A text is cut in one way only into a front of a given size and the rest. -/
theorem append_inj_of_byteSize {p q s t : Text} (h : p ++ s = q ++ t)
    (hsize : byteSize p = byteSize q) : p = q ∧ s = t := by
  have hfront : some p = some q := by
    rw [← takeBytes?_append p s, ← takeBytes?_append q t, h, hsize]
  obtain rfl := Option.some.inj hfront
  exact ⟨rfl, List.append_cancel_left h⟩

theorem byteSize_le_of_isPrefix {s t : Text} (h : s <+: t) : byteSize s ≤ byteSize t := by
  obtain ⟨rest, rfl⟩ := h
  rw [byteSize_append]
  exact Nat.le_add_right _ _

theorem byteSize_pos {t : Text} (h : t ≠ []) : 0 < byteSize t := by
  obtain ⟨c, rest, rfl⟩ := List.exists_cons_of_ne_nil h
  have := Char.utf8Size_pos c
  rw [byteSize_cons]
  omega

/-- The offset lies between two characters of the text or at one of its ends. -/
def IsBoundary (t : Text) (i : Nat) : Prop :=
  ∃ before after, t = before ++ after ∧ byteSize before = i

/-- The `n` bytes at offset `i` of the text are whole characters and spell the part. -/
def Spans (t : Text) (i n : Nat) (part : Text) : Prop :=
  ∃ before after, t = before ++ (part ++ after) ∧ byteSize before = i ∧ byteSize part = n

theorem dropBytes?_eq_none_iff {n : Nat} {t : Text} : dropBytes? n t = none ↔ ¬ t.IsBoundary n := by
  rw [Option.eq_none_iff_forall_ne_some]
  constructor
  · rintro h ⟨before, after, ht⟩
    exact h after (dropBytes?_eq_some_iff.mpr ⟨before, ht⟩)
  · intro h after hafter
    obtain ⟨before, ht⟩ := dropBytes?_eq_some_iff.mp hafter
    exact h ⟨before, after, ht⟩

namespace Spans

variable {t part : Text} {i n : Nat}

theorem isBoundary_stop (h : t.Spans i n part) : t.IsBoundary (i + n) := by
  obtain ⟨before, after, rfl, rfl, rfl⟩ := h
  exact ⟨before ++ part, after, by rw [List.append_assoc], byteSize_append before part⟩

theorem stop_le (h : t.Spans i n part) : i + n ≤ byteSize t := by
  obtain ⟨before, after, rfl, rfl, rfl⟩ := h
  simp only [byteSize_append]
  omega

theorem nil (h : t.IsBoundary i) : t.Spans i 0 [] := by
  obtain ⟨before, after, ht, hi⟩ := h
  exact ⟨before, after, ht, hi, rfl⟩

/-- Adjacent spans make up one span, which spells their parts one after the other. -/
theorem append {k : Nat} {next : Text} (h : t.Spans i n part) (hnext : t.Spans (i + n) k next) :
    t.Spans i (n + k) (part ++ next) := by
  obtain ⟨before, after, ht, rfl, rfl⟩ := h
  obtain ⟨before', after', ht', hsize, rfl⟩ := hnext
  -- both cuts behind the first part are the same cut
  have hcut : (before ++ part) ++ after = before' ++ (next ++ after') := by
    rw [List.append_assoc, ← ht, ht']
  obtain ⟨-, rfl⟩ := append_inj_of_byteSize hcut (by rw [byteSize_append, hsize])
  exact ⟨before, after', by rw [ht, List.append_assoc part], rfl, byteSize_append part next⟩

theorem unique {other : Text} (h : t.Spans i n part) (h' : t.Spans i n other) : part = other := by
  obtain ⟨before, after, ht, rfl, rfl⟩ := h
  obtain ⟨before', after', ht', hi, hn⟩ := h'
  obtain ⟨-, hrest⟩ := append_inj_of_byteSize (ht.symm.trans ht') hi.symm
  exact (append_inj_of_byteSize hrest hn.symm).1

/-- What is spelled behind a front of the text is a front of what follows it. -/
theorem isPrefix {front : Text} (h : (front ++ t).Spans (byteSize front) n part) :
    part <+: t ∧ byteSize part = n := by
  obtain ⟨before, after, ht, hbefore, hn⟩ := h
  obtain ⟨-, rfl⟩ := append_inj_of_byteSize ht hbefore.symm
  exact ⟨List.prefix_append part after, hn⟩

theorem slice?_eq (h : t.Spans i n part) : t.slice? i (i + n) = some part := by
  obtain ⟨before, after, rfl, rfl, rfl⟩ := h
  rw [slice?, if_pos (Nat.le_add_right _ _), dropBytes?_append, Option.bind_some,
    Nat.add_sub_cancel_left, takeBytes?_append]

end Spans

theorem slice?_append (s t u : Text) :
    (s ++ (t ++ u)).slice? (byteSize s) (byteSize (s ++ (t ++ u)) - byteSize u) = some t := by
  have hspans : (s ++ (t ++ u)).Spans (byteSize s) (byteSize t) t := ⟨s, u, rfl, rfl, rfl⟩
  have hstop : byteSize (s ++ (t ++ u)) - byteSize u = byteSize s + byteSize t := by
    simp only [byteSize_append]
    omega
  rw [hstop]
  exact hspans.slice?_eq

end AugmentedBnf.Text
