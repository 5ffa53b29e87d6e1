import AugmentedBnf.Text.Numeral
import AugmentedBnf.Token.Lexer

/-! # Digits that are written and read back

The digits of a number have its value, in base ten and in base sixteen with zeros in front. They hold
none of the marks that divide the values of a numeral.
-/
namespace AugmentedBnf.Text

variable {radix : Nat} {f : Char → Char}

theorem digitsFrom?_append (radix value : Nat) (s t : Text) :
    digitsFrom? radix value (s ++ t) =
      (digitsFrom? radix value s).bind fun value => digitsFrom? radix value t := by
  induction s generalizing value with
  | nil => rfl
  | cons c s ih =>
    rw [List.cons_append, digitsFrom?, digitsFrom?]
    cases digitValue? radix c with
    | none => rfl
    | some digit => exact ih _

theorem digitsFrom?_singleton {value digit : Nat} {c : Char}
    (h : digitValue? radix c = some digit) :
    digitsFrom? radix value [c] = some (value * radix + digit) := by
  rw [digitsFrom?, h]
  rfl

/-- The digits of a number are read as that number, if each single digit is. -/
theorem digitsFrom?_toDigits (hradix : 1 < radix)
    (hdigit : ∀ d, d < radix → digitValue? radix (f d.digitChar) = some d) (n : Nat) :
    digitsFrom? radix 0 ((Nat.toDigits radix n).map f) = some n := by
  induction n using Nat.strongRecOn with
  | _ n ih =>
    by_cases hn : n < radix
    · rw [Nat.toDigits_of_lt_base hn, List.map_singleton, digitsFrom?_singleton (hdigit n hn),
        Nat.zero_mul, Nat.zero_add]
    · have hdiv : n / radix < n := Nat.div_lt_self (by omega) hradix
      have hmod : n % radix < radix := Nat.mod_lt n (by omega)
      rw [Nat.toDigits_of_base_le hradix (by omega), List.map_append, digitsFrom?_append,
        ih _ hdiv, Option.bind_some, List.map_singleton, digitsFrom?_singleton (hdigit _ hmod),
        Nat.div_add_mod']

theorem digitsFrom?_zeros (n : Nat) (t : Text) :
    digitsFrom? 16 0 (List.replicate n '0' ++ t) = digitsFrom? 16 0 t := by
  induction n with
  | zero => rfl
  | succ n ih => exact ih

theorem unsigned?_of_digits {limit n : Nat} {t : Text} (hne : t ≠ []) (hplus : t.head? ≠ some '+')
    (h : digitsFrom? radix 0 t = some n) (hn : n < limit) : unsigned? radix limit t = some n := by
  cases t with
  | nil => exact absurd rfl hne
  | cons c rest =>
    have hc : c ≠ '+' := fun heq => hplus (congrArg some heq)
    rw [unsigned?, withoutPlus, if_neg hc, digits?, h, Option.filter_some]
    simp [hn]

section Decimal

theorem isDigit_of_mem_decimal {n : Nat} {c : Char} (h : c ∈ decimal n) : c.isDigit = true :=
  Nat.isDigit_of_mem_toDigits (by decide) (by decide) h

theorem decimal_ne_nil (n : Nat) : decimal n ≠ [] := Nat.toDigits_ne_nil

theorem head?_ne_of_all {t : Text} {g : Char → Bool} {c : Char} (h : ∀ d ∈ t, g d = true)
    (hc : g c = false) : t.head? ≠ some c := by
  intro heq
  rw [h c (List.mem_of_head? heq)] at hc
  cases hc

theorem unsigned?_decimal {limit n : Nat} (h : n < limit) :
    unsigned? 10 limit (decimal n) = some n := by
  have hdigit : ∀ d, d < 10 → digitValue? 10 (id d.digitChar) = some d := by decide
  have hvalue := digitsFrom?_toDigits (by decide) hdigit n
  rw [List.map_id] at hvalue
  have hplus : (decimal n).head? ≠ some '+' :=
    head?_ne_of_all (fun d hd => isDigit_of_mem_decimal hd) (by decide)
  exact unsigned?_of_digits (decimal_ne_nil n) hplus hvalue h

theorem decimal_inj {n m : Nat} (h : decimal n = decimal m) : n = m := by
  have hn : n < n + m + 1 := by omega
  have hm : m < n + m + 1 := by omega
  have hvalue := unsigned?_decimal hn
  rw [h, unsigned?_decimal hm] at hvalue
  exact (Option.some.inj hvalue).symm

end Decimal

section Hexadecimal

/-- The digits of a number are written with the digits of the base. -/
theorem exists_of_mem_toDigits (hradix : 1 < radix) {n : Nat} {c : Char}
    (h : c ∈ Nat.toDigits radix n) : ∃ d, d < radix ∧ c = d.digitChar := by
  induction n using Nat.strongRecOn with
  | _ n ih =>
    by_cases hn : n < radix
    · rw [Nat.toDigits_of_lt_base hn] at h
      exact ⟨n, hn, List.mem_singleton.mp h⟩
    · rw [Nat.toDigits_of_base_le hradix (by omega)] at h
      rcases List.mem_append.mp h with h | h
      · exact ih _ (Nat.div_lt_self (by omega) hradix) h
      · exact ⟨n % radix, Nat.mod_lt n (by omega), List.mem_singleton.mp h⟩

theorem isHexDigit_of_mem_hexDigits {width n : Nat} {c : Char} (h : c ∈ hexDigits width n) :
    Token.isHexDigit c = true := by
  rcases List.mem_append.mp h with h | h
  · rw [List.eq_of_mem_replicate h]
    decide
  · obtain ⟨d, hd, rfl⟩ := List.mem_map.mp h
    obtain ⟨digit, hdigit, rfl⟩ := exists_of_mem_toDigits (by decide) hd
    have hall : ∀ d, d < 16 → Token.isHexDigit d.digitChar.toUpper = true := by decide
    exact hall digit hdigit

theorem hexDigits_ne_nil (width n : Nat) : hexDigits width n ≠ [] := by
  intro h
  have hdigits := (List.append_eq_nil_iff.mp h).2
  exact Nat.toDigits_ne_nil (List.map_eq_nil_iff.mp hdigits)

theorem unsigned?_hexDigits {limit n : Nat} (width : Nat) (h : n < limit) :
    unsigned? 16 limit (hexDigits width n) = some n := by
  have hdigit : ∀ d, d < 16 → digitValue? 16 d.digitChar.toUpper = some d := by decide
  have hvalue : digitsFrom? 16 0 (hexDigits width n) = some n := by
    rw [hexDigits, digitsFrom?_zeros, digitsFrom?_toDigits (by decide) hdigit]
  have hplus : (hexDigits width n).head? ≠ some '+' :=
    head?_ne_of_all (fun d hd => isHexDigit_of_mem_hexDigits hd) (by decide)
  exact unsigned?_of_digits (hexDigits_ne_nil width n) hplus hvalue h

end Hexadecimal

section Marks

variable {mark : Char} {s t : Text}

theorem splitAt_of_not_mem (h : mark ∉ t) : splitAt mark t = [t] := by
  induction t with
  | nil => rfl
  | cons c t ih =>
    have hc : c ≠ mark := fun heq => h (heq ▸ List.mem_cons_self)
    rw [splitAt, if_neg hc, ih fun hmem => h (List.mem_cons_of_mem c hmem)]

theorem splitAt_append_mark (h : mark ∉ s) (t : Text) :
    splitAt mark (s ++ mark :: t) = s :: splitAt mark t := by
  induction s with
  | nil => rw [List.nil_append, splitAt, if_pos rfl]
  | cons c s ih =>
    have hc : c ≠ mark := fun heq => h (heq ▸ List.mem_cons_self)
    rw [List.cons_append, splitAt, if_neg hc, ih fun hmem => h (List.mem_cons_of_mem c hmem)]

theorem splitAt_ne_nil (mark : Char) (t : Text) : splitAt mark t ≠ [] := by
  fun_cases splitAt mark t <;> exact List.cons_ne_nil _ _

/-- What stands in front of the first mark belongs to the first part. -/
theorem splitAt_append (h : mark ∉ s) {part : Text} {parts : List Text}
    (ht : splitAt mark t = part :: parts) : splitAt mark (s ++ t) = (s ++ part) :: parts := by
  induction s with
  | nil => exact ht
  | cons c s ih =>
    have hc : c ≠ mark := fun heq => h (heq ▸ List.mem_cons_self)
    rw [List.cons_append, splitAt, if_neg hc, ih fun hmem => h (List.mem_cons_of_mem c hmem)]
    rfl

/-- A text with its marks is its parts with the mark between neighbours. -/
theorem join_splitAt (mark : Char) (t : Text) : join [mark] (splitAt mark t) = t := by
  induction t with
  | nil => rfl
  | cons c t ih =>
    cases hparts : splitAt mark t with
    | nil => exact absurd hparts (splitAt_ne_nil mark t)
    | cons part parts =>
      rw [hparts] at ih
      rw [splitAt, hparts]
      split
      · rename_i hc
        rw [hc, ← ih]
        rfl
      · rw [← ih]
        cases parts <;> rfl

theorem not_mem_of_mem_splitAt {part : Text} (h : part ∈ splitAt mark t) : mark ∉ part := by
  induction t generalizing part with
  | nil =>
    rw [List.mem_singleton.mp h]
    exact List.not_mem_nil
  | cons c t ih =>
    cases hparts : splitAt mark t with
    | nil => exact absurd hparts (splitAt_ne_nil mark t)
    | cons first parts =>
      rw [hparts] at ih
      rw [splitAt, hparts] at h
      split at h
      · rcases List.mem_cons.mp h with rfl | h
        · exact List.not_mem_nil
        · exact ih h
      · rename_i hc
        rcases List.mem_cons.mp h with rfl | h
        · exact fun hmem => (List.mem_cons.mp hmem).elim (Ne.symm hc) (ih List.mem_cons_self)
        · exact ih (List.mem_cons_of_mem first h)

/-- Parts without the mark are found again between the marks. -/
theorem splitAt_join {parts : List Text} (hne : parts ≠ []) (h : ∀ part ∈ parts, mark ∉ part) :
    splitAt mark (join [mark] parts) = parts := by
  induction parts with
  | nil => exact absurd rfl hne
  | cons part parts ih =>
    obtain ⟨hpart, hparts⟩ := List.forall_mem_cons.mp h
    cases parts with
    | nil => exact splitAt_of_not_mem hpart
    | cons next parts =>
      have hmore := List.cons_ne_nil next parts
      rw [join_cons hmore, List.append_assoc, List.singleton_append, splitAt_append_mark hpart,
        ih hmore hparts]

/-- Lines without the mark, each with the mark behind it, are found again in front of an empty part. -/
theorem splitAt_flatMap {lines : List Text} (h : ∀ line ∈ lines, mark ∉ line) :
    splitAt mark (lines.flatMap (· ++ [mark])) = lines ++ [[]] := by
  induction lines with
  | nil => rfl
  | cons line lines ih =>
    obtain ⟨hline, hlines⟩ := List.forall_mem_cons.mp h
    rw [List.flatMap_cons, List.append_assoc, List.singleton_append, splitAt_append_mark hline,
      ih hlines, List.cons_append]

theorem splitOnce?_of_not_mem (h : mark ∉ t) : splitOnce? mark t = none := by
  induction t with
  | nil => rfl
  | cons c t ih =>
    have hc : c ≠ mark := fun heq => h (heq ▸ List.mem_cons_self)
    rw [splitOnce?, if_neg hc, ih fun hmem => h (List.mem_cons_of_mem c hmem)]
    rfl

theorem splitOnce?_append (h : mark ∉ s) (t : Text) :
    splitOnce? mark (s ++ mark :: t) = some (s, t) := by
  induction s with
  | nil => rw [List.nil_append, splitOnce?, if_pos rfl]
  | cons c s ih =>
    have hc : c ≠ mark := fun heq => h (heq ▸ List.mem_cons_self)
    rw [List.cons_append, splitOnce?, if_neg hc, ih fun hmem => h (List.mem_cons_of_mem c hmem)]
    rfl

theorem not_mem_hexDigits (hmark : Token.isHexDigit mark = false) (width n : Nat) :
    mark ∉ hexDigits width n := by
  intro hmem
  rw [isHexDigit_of_mem_hexDigits hmem] at hmark
  cases hmark

end Marks

end AugmentedBnf.Text
