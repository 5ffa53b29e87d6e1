import Mathlib.Data.Nat.Digits.Defs
import AugmentedBnf.Literal
import AugmentedBnf.Proofs.Charset.Runs
import AugmentedBnf.Proofs.Text.Numeral
import AugmentedBnf.Proofs.Token.Pattern

/-! # The ranges of numeric literals

A numeric token is read as one charset for each of its segments, or refused for the first segment
that spells no range of code points. The pattern of the token leaves groups of digits between points
and dashes, so a segment is a value, two values with a dash, or more of them.
-/
namespace AugmentedBnf

/-- The radix of the digits in a numeric token. -/
def Token.Kind.radix? : Token.Kind → Option Nat
  | binary => some 2
  | decimal => some 10
  | hexadecimal => some 16
  | _ => none

namespace Text

/-- The number that a digit stands for, in either case. -/
def digit (c : Char) : Nat :=
  ['0', '1', '2', '3', '4', '5', '6', '7', '8', '9', 'a', 'b', 'c', 'd', 'e', 'f'].idxOf c.toLower

/-- The number that digits spell in a radix. The last digit counts once. -/
def numeral (radix : Nat) (digits : Text) : Nat := Nat.ofDigits radix (digits.map digit).reverse

/-- Each character of the class is read as the digit it stands for. -/
def ReadsDigits (radix : Nat) (f : Char → Bool) : Prop :=
  ∀ c, f c = true → digitValue? radix c = some (digit c)

section Digits

variable {radix : Nat} {f : Char → Bool} {t : Text} {c : Char}

theorem numeral_cons (radix : Nat) (c : Char) (t : Text) :
    numeral radix (c :: t) = digit c * radix ^ t.length + numeral radix t := by
  rw [numeral, List.map_cons, List.reverse_cons, Nat.ofDigits_append, Nat.ofDigits_singleton,
    List.length_reverse, List.length_map, Nat.add_comm, Nat.mul_comm]
  rfl

theorem digitsFrom?_of_digits (hf : ReadsDigits radix f) (ht : ∀ c ∈ t, f c = true)
    (value : Nat) :
    digitsFrom? radix value t = some (value * radix ^ t.length + numeral radix t) := by
  induction t generalizing value with
  | nil => simp [digitsFrom?, numeral]
  | cons c t ih =>
    obtain ⟨hc, ht⟩ := List.forall_mem_cons.mp ht
    rw [digitsFrom?, hf c hc]
    dsimp only
    rw [ih ht, numeral_cons, List.length_cons, Nat.pow_succ']
    congr 1
    rw [Nat.add_mul, Nat.mul_assoc, Nat.add_assoc]

/-- A character that is no digit spoils the number. -/
theorem digitsFrom?_of_mem (hc : digitValue? radix c = none) (h : c ∈ t) (value : Nat) :
    digitsFrom? radix value t = none := by
  induction t generalizing value with
  | nil => cases h
  | cons d t ih =>
    rw [digitsFrom?]
    rcases List.mem_cons.mp h with rfl | h
    · rw [hc]
    · cases digitValue? radix d with
      | none => rfl
      | some digit => exact ih h _

theorem ReadsDigits.eq_false (hf : ReadsDigits radix f) (hc : digitValue? radix c = none) :
    f c = false := by
  cases h : f c with
  | false => rfl
  | true => cases (hf c h).symm.trans hc

/-- A class of ASCII characters is read as digits if each of its members is. -/
theorem readsDigits_of_ascii (hsmall : ∀ c, f c = true → Token.isHexDigit c = true)
    (h : ∀ n < 128, f (Char.ofNat n) = true →
      digitValue? radix (Char.ofNat n) = some (digit (Char.ofNat n))) : ReadsDigits radix f := by
  intro c hc
  have hascii : c.toNat < 128 := by
    have hhex := hsmall c hc
    simp only [Token.isHexDigit, Char.isDigit, Char.le_def, Bool.or_eq_true, Bool.and_eq_true,
      decide_eq_true_eq, UInt32.le_iff_toNat_le] at hhex
    change c.val.toNat < 128
    have hlast : '9'.val.toNat = 57 ∧ 'F'.val.toNat = 70 ∧ 'f'.val.toNat = 102 := by decide
    omega
  have hvalue := h c.toNat hascii
  rw [Char.ofNat_toNat] at hvalue
  exact hvalue hc

theorem readsDigits_isHexDigit : ReadsDigits 16 Token.isHexDigit :=
  readsDigits_of_ascii (fun _ hc => hc) (by decide)

theorem readsDigits_isDigit : ReadsDigits 10 Char.isDigit :=
  readsDigits_of_ascii (fun c hc => by rw [Token.isHexDigit, hc]; rfl) (by decide)

theorem readsDigits_isBit : ReadsDigits 2 Token.isBit := by
  intro c hc
  simp only [Token.isBit, Bool.or_eq_true, beq_iff_eq] at hc
  rcases hc with rfl | rfl <;> decide

end Digits

end Text

namespace Literal

open Text (numeral limit32)

/-- The ends of the range that a segment spells: a value is both of its ends, and one dash stands
between two values. -/
inductive Denotes (radix : Nat) : (segment : Text) → (first last : Nat) → Prop
  | single {digits : Text} (h : '-' ∉ digits) :
    Denotes radix digits (numeral radix digits) (numeral radix digits)
  | range {start stop : Text} (hstart : '-' ∉ start) (hstop : '-' ∉ stop) :
    Denotes radix (start ++ '-' :: stop) (numeral radix start) (numeral radix stop)

/-- The segment spells a range of code points in order. -/
def Fits (radix : Nat) (segment : Text) : Prop :=
  ∃ first last, Denotes radix segment first last ∧ first ≤ last ∧ last ≤ 255

/-- The cause for which a segment of the literal `whole` is refused. A value of more than 32 bits
comes first, then what stands behind the first dash, then the order and the size of the ends. -/
inductive Blames (radix : Nat) (whole : Text) : (segment : Text) → CompileError → Prop
  | start {start behind : Text} (hstart : '-' ∉ start)
    (hbehind : behind = [] ∨ behind.head? = some '-') (h : 2 ^ 32 ≤ numeral radix start) :
    Blames radix whole (start ++ behind) (.invalidNumber start)
  | stop {start stop : Text} (hstart : '-' ∉ start) (hfits : numeral radix start < 2 ^ 32)
    (h : 2 ^ 32 ≤ numeral radix stop ∨ '-' ∈ stop) :
    Blames radix whole (start ++ '-' :: stop) (.invalidNumber stop)
  | range {segment : Text} {first last : Nat} (h : Denotes radix segment first last)
    (hfirst : first < 2 ^ 32) (hlast : last < 2 ^ 32) (hrange : last < first ∨ 255 < last) :
    Blames radix whole segment (.invalidRange whole)

section Segments

variable {radix first last : Nat} {f : Char → Bool} {t start stop whole part : Text}

/-- The segment consists of groups of digits with dashes between them. -/
def Dashed (f : Char → Bool) (t : Text) : Prop :=
  ∀ group ∈ Text.splitAt '-' t, group ≠ [] ∧ ∀ c ∈ group, f c = true

theorem denotes_single_iff (h : '-' ∉ t) :
    Denotes radix t first last ↔ first = numeral radix t ∧ last = numeral radix t := by
  constructor
  · rintro (_ | _)
    · exact ⟨rfl, rfl⟩
    · simp at h
  · rintro ⟨rfl, rfl⟩
    exact .single h

theorem denotes_range_iff (h : '-' ∉ start) : Denotes radix (start ++ '-' :: stop) first last ↔
    '-' ∉ stop ∧ first = numeral radix start ∧ last = numeral radix stop := by
  constructor
  · intro hdenotes
    generalize hwhole : start ++ '-' :: stop = whole at hdenotes
    cases hdenotes with
    | single hnone =>
      rw [← hwhole] at hnone
      simp at hnone
    | range hstart hstop =>
      -- the first dash divides the segment in one way only
      have hsplit := Text.splitOnce?_append h stop
      rw [hwhole, Text.splitOnce?_append hstart] at hsplit
      cases hsplit
      exact ⟨hstop, rfl, rfl⟩
  · rintro ⟨hstop, rfl, rfl⟩
    exact .range h hstop

/-- A segment spells one range at most. -/
theorem Denotes.unique {first' last' : Nat} (h : Denotes radix t first last)
    (h' : Denotes radix t first' last') : first = first' ∧ last = last' := by
  cases h with
  | single hnone =>
    obtain ⟨rfl, rfl⟩ := (denotes_single_iff hnone).mp h'
    exact ⟨rfl, rfl⟩
  | range hstart hstop =>
    obtain ⟨-, rfl, rfl⟩ := (denotes_range_iff hstart).mp h'
    exact ⟨rfl, rfl⟩

theorem value_of_digits (hf : Text.ReadsDigits radix f) (hne : t ≠ [])
    (ht : ∀ c ∈ t, f c = true) :
    value radix t =
      if numeral radix t < 2 ^ 32 then .ok (numeral radix t) else .error (.invalidNumber t) := by
  obtain ⟨c, rest, rfl⟩ := List.exists_cons_of_ne_nil hne
  have hplus : c ≠ '+' := by
    rintro rfl
    have hno : f '+' = false := hf.eq_false rfl
    cases hno.symm.trans (ht '+' List.mem_cons_self)
  have hvalue := Text.digitsFrom?_of_digits hf ht 0
  rw [Nat.zero_mul, Nat.zero_add] at hvalue
  rw [value, Text.unsigned?, Text.withoutPlus, if_neg hplus, Text.digits?, hvalue,
    Option.filter_some]
  have hlimit : limit32 = 2 ^ 32 := rfl
  simp only [decide_eq_true_eq, hlimit]
  by_cases hsmall : numeral radix (c :: rest) < 2 ^ 32
  · rw [if_pos hsmall, if_pos hsmall]
  · rw [if_neg hsmall, if_neg hsmall]

theorem value_of_dash (h : '-' ∈ t) : value radix t = .error (.invalidNumber t) := by
  have hnone : Text.digitValue? radix '-' = none := rfl
  have hdigits : Text.digits? radix (Text.withoutPlus t) = none := by
    have hmem : '-' ∈ Text.withoutPlus t := by
      cases t with
      | nil => cases h
      | cons c rest =>
        rw [Text.withoutPlus]
        split
        · rename_i hc
          exact (List.mem_cons.mp h).resolve_left (by rw [hc]; decide)
        · exact h
    cases hchars : Text.withoutPlus t with
    | nil => rfl
    | cons c rest =>
      rw [hchars] at hmem
      exact Text.digitsFrom?_of_mem hnone hmem 0
  rw [value, Text.unsigned?, hdigits]
  rfl

/-- What is blamed spells no range of code points. -/
theorem Blames.not_fits {cause : CompileError} (h : Blames radix whole part cause) :
    ¬ Fits radix part := by
  rintro ⟨first, last, hdenotes, hordered, hle⟩
  cases h with
  | @start start behind hstart hbehind hlarge =>
    have hfirst : first = numeral radix start := by
      cases behind with
      | nil =>
        rw [List.append_nil] at hdenotes
        exact ((denotes_single_iff hstart).mp hdenotes).1
      | cons c stop =>
        obtain rfl : c = '-' := by simpa using hbehind
        exact ((denotes_range_iff hstart).mp hdenotes).2.1
    omega
  | stop hstart hfits hlarge =>
    obtain ⟨hstop, -, rfl⟩ := (denotes_range_iff hstart).mp hdenotes
    rcases hlarge with hlarge | hdash
    · omega
    · exact hstop hdash
  | range hdenotes' hfirst hlast hrange =>
    obtain ⟨rfl, rfl⟩ := hdenotes.unique hdenotes'
    omega

/-- The segment has ends of 32 bits, or one of them is blamed. -/
def HasEnds (radix : Nat) (whole part : Text) : Prop :=
  (∃ first last, Denotes radix part first last ∧ first < 2 ^ 32 ∧ last < 2 ^ 32 ∧
    ends radix part = .ok (first, last)) ∨
  ∃ cause, Blames radix whole part cause ∧ ends radix part = .error cause

theorem hasEnds_of_digits (hf : Text.ReadsDigits radix f) (hne : part ≠ [])
    (hdigits : ∀ c ∈ part, f c = true) (hdash : '-' ∉ part) (whole : Text) :
    HasEnds radix whole part := by
  have hvalue := value_of_digits hf hne hdigits
  rw [HasEnds, ends, Text.splitOnce?_of_not_mem hdash]
  dsimp only
  by_cases hsmall : numeral radix part < 2 ^ 32
  · rw [if_pos hsmall] at hvalue
    exact .inl ⟨_, _, .single hdash, hsmall, hsmall, by rw [hvalue]; rfl⟩
  · rw [if_neg hsmall] at hvalue
    have hblames : Blames radix whole (part ++ []) (.invalidNumber part) :=
      .start hdash (.inl rfl) (Nat.not_lt.mp hsmall)
    rw [List.append_nil] at hblames
    exact .inr ⟨_, hblames, by rw [hvalue]; rfl⟩

theorem hasEnds_of_dash (hf : Text.ReadsDigits radix f) (hne : start ≠ [])
    (hdigits : ∀ c ∈ start, f c = true) (hstart : '-' ∉ start) (hstop : Dashed f stop)
    (whole : Text) : HasEnds radix whole (start ++ '-' :: stop) := by
  have hfirst := value_of_digits hf hne hdigits
  rw [HasEnds, ends, Text.splitOnce?_append hstart]
  dsimp only
  by_cases hsmall : numeral radix start < 2 ^ 32
  · rw [if_pos hsmall] at hfirst
    rw [hfirst]
    by_cases hdash : '-' ∈ stop
    · exact .inr ⟨_, .stop hstart hsmall (.inr hdash), by rw [value_of_dash hdash]; rfl⟩
    · rw [Dashed, Text.splitAt_of_not_mem hdash] at hstop
      obtain ⟨hne', hdigits'⟩ := hstop stop List.mem_cons_self
      have hlast := value_of_digits hf hne' hdigits'
      by_cases hsmall' : numeral radix stop < 2 ^ 32
      · rw [if_pos hsmall'] at hlast
        exact .inl ⟨_, _, .range hstart hdash, hsmall, hsmall', by rw [hlast]; rfl⟩
      · rw [if_neg hsmall'] at hlast
        have hlarge := Nat.not_lt.mp hsmall'
        exact .inr ⟨_, .stop hstart hsmall (.inl hlarge), by rw [hlast]; rfl⟩
  · rw [if_neg hsmall] at hfirst
    exact .inr ⟨_, .start hstart (.inr rfl) (Nat.not_lt.mp hsmall), by rw [hfirst]; rfl⟩

theorem hasEnds_of_dashed (hf : Text.ReadsDigits radix f) (h : Dashed f part) (whole : Text) :
    HasEnds radix whole part := by
  by_cases hdash : '-' ∈ part
  · obtain ⟨start, stop, rfl, hstart⟩ := List.eq_append_cons_of_mem hdash
    rw [Dashed, Text.splitAt_append_mark hstart, List.forall_mem_cons] at h
    exact hasEnds_of_dash hf h.1.1 h.1.2 hstart h.2 whole
  · rw [Dashed, Text.splitAt_of_not_mem hdash] at h
    obtain ⟨hne, hdigits⟩ := h part List.mem_cons_self
    exact hasEnds_of_digits hf hne hdigits hdash whole

/-- A segment spells the range whose charset it is read as, or is refused for its own cause. -/
theorem segment_of_dashed (hf : Text.ReadsDigits radix f) (h : Dashed f part) (whole : Text) :
    (∃ first last, Denotes radix part first last ∧ first ≤ last ∧ last ≤ 255 ∧
      segment radix whole part = .ok (.range first last)) ∨
    ∃ cause, Blames radix whole part cause ∧ segment radix whole part = .error cause := by
  rw [segment]
  rcases hasEnds_of_dashed hf h whole with
    ⟨first, last, hdenotes, hfirst, hlast, hends⟩ | ⟨cause, hblames, hends⟩
  · rw [hends]
    by_cases hrange : last < first ∨ 255 < last
    · have hthrow : last < first ∨ maxCode < last := hrange
      refine .inr ⟨_, .range hdenotes hfirst hlast hrange, ?_⟩
      simp only [bind, Except.bind, if_pos hthrow]
      rfl
    · have hkeep : ¬ (last < first ∨ maxCode < last) := hrange
      refine .inl ⟨first, last, hdenotes, by omega, by omega, ?_⟩
      simp only [bind, Except.bind, if_neg hkeep]
      rfl
  · exact .inr ⟨cause, hblames, by rw [hends]; rfl⟩

end Segments

section Tokens

variable {radix : Nat} {f : Char → Bool} {body text : Text} {kind : Token.Kind}

open Token (digitGroups oneOf isJoint some1)
open scoped Computability

theorem forall_of_mem_some1 {digits : Text} (h : digits ∈ some1 (oneOf f)) :
    digits ≠ [] ∧ ∀ c ∈ digits, f c = true := by
  obtain ⟨c, rest, rfl, hc, hrest⟩ := Token.mem_some1_oneOf.mp h
  exact ⟨List.cons_ne_nil c rest, List.forall_mem_cons.mpr ⟨hc, hrest⟩⟩

/-- Between points, groups of digits stand with dashes between them. -/
theorem dashed_of_mem_digitGroups (hpoint : f '.' = false) (hdash : f '-' = false)
    (h : body ∈ digitGroups (oneOf f)) : ∀ part ∈ Text.splitAt '.' body, Dashed f part := by
  have hmark : ∀ {mark : Char} {digits : Text}, f mark = false → (∀ c ∈ digits, f c = true) →
      mark ∉ digits := by
    intro mark digits hmark hdigits hmem
    cases hmark.symm.trans (hdigits mark hmem)
  have hsingle : ∀ {digits : Text}, digits ≠ [] → (∀ c ∈ digits, f c = true) →
      Dashed f digits := by
    intro digits hne hdigits
    rw [Dashed, Text.splitAt_of_not_mem (hmark hdash hdigits)]
    exact List.forall_mem_singleton.mpr ⟨hne, hdigits⟩
  rw [digitGroups, Token.joint_eq] at h
  obtain ⟨first, hfirst, others, hothers, rfl⟩ := Language.mem_mul.mp h
  obtain ⟨groups, rfl, hgroups⟩ := Language.mem_kstar.mp hothers
  clear h hothers
  -- a point in front of the next group ends the segment, a dash goes on with it
  induction groups generalizing first with
  | nil =>
    obtain ⟨hne, hdigits⟩ := forall_of_mem_some1 hfirst
    rw [List.flatten_nil, List.append_nil, Text.splitAt_of_not_mem (hmark hpoint hdigits)]
    exact List.forall_mem_singleton.mpr (hsingle hne hdigits)
  | cons group groups ih =>
    obtain ⟨hne, hdigits⟩ := forall_of_mem_some1 hfirst
    obtain ⟨hgroup, hothers⟩ := List.forall_mem_cons.mp hgroups
    obtain ⟨joint, next, rfl, hjoint, hnext⟩ := Token.mem_oneOf_mul.mp hgroup
    have hrest := ih next hnext hothers
    rw [List.flatten_cons, List.cons_append]
    simp only [isJoint, Bool.or_eq_true, beq_iff_eq] at hjoint
    rcases hjoint with rfl | rfl
    · rw [Text.splitAt_append_mark (hmark hpoint hdigits)]
      exact List.forall_mem_cons.mpr ⟨hsingle hne hdigits, hrest⟩
    · have hfront : '.' ∉ first ++ ['-'] := by
        simpa using hmark hpoint hdigits
      cases hparts : Text.splitAt '.' (next ++ groups.flatten) with
      | nil => exact absurd hparts (Text.splitAt_ne_nil _ _)
      | cons part parts =>
        rw [hparts] at hrest
        obtain ⟨hpart, hparts'⟩ := List.forall_mem_cons.mp hrest
        rw [List.append_cons, Text.splitAt_append hfront hparts]
        refine List.forall_mem_cons.mpr ⟨?_, hparts'⟩
        rw [Dashed, List.append_assoc, List.singleton_append,
          Text.splitAt_append_mark (hmark hdash hdigits)]
        exact List.forall_mem_cons.mpr ⟨⟨hne, hdigits⟩, hpart⟩

/-- Behind the mark of its base, a numeric token has segments of digits with points between them. -/
theorem exists_segments (hradix : kind.radix? = some radix) (h : text ∈ kind.pattern) :
    ∃ f mark body, Text.ReadsDigits radix f ∧ text = '%' :: mark :: body ∧
      text.dropBytes? 2 = some body ∧ ∀ part ∈ Text.splitAt '.' body, Dashed f part := by
  have hform : ∀ {lower upper : Char} {f : Char → Bool}, lower.utf8Size = 1 → upper.utf8Size = 1 →
      Text.ReadsDigits radix f → text ∈ Token.marked lower upper (digitGroups (oneOf f)) →
      ∃ f mark body, Text.ReadsDigits radix f ∧ text = '%' :: mark :: body ∧
        text.dropBytes? 2 = some body ∧ ∀ part ∈ Text.splitAt '.' body, Dashed f part := by
    intro lower upper f hlower hupper hf htext
    obtain ⟨mark, body, rfl, hmark, hbody⟩ := Token.mem_marked.mp htext
    have hsize : Text.byteSize ['%', mark] = 2 := by
      have hone : mark.utf8Size = 1 := by rcases hmark with rfl | rfl <;> assumption
      rw [Text.byteSize_cons, Text.byteSize_cons, hone]
      rfl
    have hdrop := Text.dropBytes?_append ['%', mark] body
    rw [hsize] at hdrop
    exact ⟨f, mark, body, hf, rfl, hdrop,
      dashed_of_mem_digitGroups (hf.eq_false rfl) (hf.eq_false rfl) hbody⟩
  cases kind <;> cases hradix
  · rw [Token.Kind.pattern, Token.bit_eq] at h
    exact hform rfl rfl Text.readsDigits_isBit h
  · rw [Token.Kind.pattern, Token.digit_eq] at h
    exact hform rfl rfl Text.readsDigits_isDigit h
  · rw [Token.Kind.pattern, Token.hexDigit_eq] at h
    exact hform rfl rfl Text.readsDigits_isHexDigit h

/-- Behind a percent sign and the mark of a base, the segments stand with points between them. -/
structure Segmented (text : Text) (segments : List Text) : Prop where
  joined : ∃ mark, text = '%' :: mark :: Text.join ['.'] segments
  ne_nil : segments ≠ []
  no_point : ∀ segment ∈ segments, '.' ∉ segment

/-- The set holds the characters of the range that the segment spells. -/
def Means (radix : Nat) (segment : Text) (set : Charset) : Prop :=
  ∃ first last, Denotes radix segment first last ∧
    ∀ c, set.contains c = true ↔ first ≤ c.toNat ∧ c.toNat ≤ last

theorem means_range {segment : Text} {first last : Nat} (h : Denotes radix segment first last)
    (hlast : last ≤ 255) : Means radix segment (.range first last) :=
  ⟨first, last, h, fun _ => by rw [Charset.contains_iff, Charset.mem_range_iff hlast]⟩

/-- All segments are read, or the first one that spells no range is blamed. -/
theorem mapM_segment_of_dashed (hf : Text.ReadsDigits radix f) {parts : List Text}
    (h : ∀ part ∈ parts, Dashed f part) (whole : Text) :
    (∃ sets, parts.mapM (segment radix whole) = .ok sets ∧ (∀ part ∈ parts, Fits radix part) ∧
      List.Forall₂ (Means radix) parts sets) ∨
    ∃ before bad after cause, parts.mapM (segment radix whole) = .error cause ∧
      parts = before ++ bad :: after ∧ (∀ part ∈ before, Fits radix part) ∧
      Blames radix whole bad cause := by
  induction parts with
  | nil => exact .inl ⟨[], rfl, nofun, .nil⟩
  | cons part parts ih =>
    obtain ⟨hpart, hparts⟩ := List.forall_mem_cons.mp h
    rw [List.mapM_cons]
    rcases segment_of_dashed hf hpart whole with
      ⟨first, last, hdenotes, hordered, hle, hok⟩ | ⟨cause, hblames, herror⟩
    · have hfits : Fits radix part := ⟨first, last, hdenotes, hordered, hle⟩
      rcases ih hparts with
        ⟨sets, hsets, hall, hmeans⟩ | ⟨before, bad, after, cause, herror, rfl, hbefore, hbad⟩
      · exact .inl ⟨_, by rw [hok, hsets]; rfl, List.forall_mem_cons.mpr ⟨hfits, hall⟩,
          .cons (means_range hdenotes hle) hmeans⟩
      · exact .inr ⟨part :: before, bad, after, cause, by rw [hok, herror]; rfl, rfl,
          List.forall_mem_cons.mpr ⟨hfits, hbefore⟩, hbad⟩
    · exact .inr ⟨[], part, parts, cause, by rw [herror]; rfl, rfl, nofun, hblames⟩

theorem read_of_radix? {token : Token} (hradix : token.kind.radix? = some radix)
    (rest : List Token) (size : Nat) :
    read ⟨token :: rest, size⟩ = match numeric radix token.text with
      | .ok literal => .ok literal ⟨rest, size⟩
      | .error cause => .error cause ⟨rest, size⟩ := by
  have hliteral : ofLexeme? token.kind token.text = some (numeric radix token.text) := by
    cases hkind : token.kind <;> rw [hkind] at hradix <;> cases hradix <;> rfl
  rw [read]
  dsimp only
  rw [hliteral]
  cases numeric radix token.text <;> rfl

/-- A numeric token is divided into segments in one way. It is read if each of them spells a range of
code points, as the sets of these ranges, and else refused for the first one that does not. -/
theorem read_numeric {token : Token} (hradix : token.kind.radix? = some radix)
    (hpattern : token.text ∈ token.kind.pattern) (rest : List Token) (size : Nat) :
    (∃ segments, Segmented token.text segments) ∧
    ∀ segments, Segmented token.text segments →
      ((∃ literal left, read ⟨token :: rest, size⟩ = .ok literal left) ↔
        ∀ segment ∈ segments, Fits radix segment) ∧
      (∀ literal left, read ⟨token :: rest, size⟩ = .ok literal left →
        left = ⟨rest, size⟩ ∧ List.Forall₂ (Means radix) segments literal.positions) ∧
      ∀ cause left, read ⟨token :: rest, size⟩ = .error cause left →
        left = ⟨rest, size⟩ ∧ ∃ before bad after, segments = before ++ bad :: after ∧
          (∀ segment ∈ before, Fits radix segment) ∧ ¬ Fits radix bad ∧
          Blames radix token.text bad cause := by
  obtain ⟨f, mark, body, hf, htext, hdrop, hdashed⟩ := exists_segments hradix hpattern
  refine ⟨⟨Text.splitAt '.' body, ⟨mark, by rw [htext, Text.join_splitAt]⟩,
    Text.splitAt_ne_nil '.' body, fun _ => Text.not_mem_of_mem_splitAt⟩, ?_⟩
  rintro segments ⟨⟨_, hjoined⟩, hne, hpoint⟩
  obtain ⟨-, rfl⟩ : _ ∧ body = Text.join ['.'] segments := by simpa [htext] using hjoined
  rw [Text.splitAt_join hne hpoint] at hdashed
  rw [read_of_radix? hradix, numeric, hdrop, Option.getD_some, Text.splitAt_join hne hpoint]
  rcases mapM_segment_of_dashed hf hdashed token.text with
    ⟨sets, hsets, hall, hmeans⟩ | ⟨before, bad, after, cause, herror, rfl, hbefore, hblames⟩
  · rw [hsets]
    refine ⟨⟨fun _ => hall, fun _ => ⟨⟨sets⟩, ⟨rest, size⟩, rfl⟩⟩, ?_, nofun⟩
    intro literal left hread
    cases hread
    exact ⟨rfl, hmeans⟩
  · rw [herror]
    refine ⟨⟨nofun, fun hall => absurd (hall bad (by simp)) hblames.not_fits⟩, nofun, ?_⟩
    intro cause' left hread
    cases hread
    exact ⟨rfl, before, bad, after, rfl, hbefore, hblames.not_fits, hblames⟩

/-- A range and a single value, the latter with a zero in front. -/
theorem read_range_then_value :
    ∃ literal, read ⟨[⟨.decimal, 0, 8, ['%', 'd', '1', '-', '3', '.', '0', '7']⟩], 8⟩ =
        .ok literal ⟨[], 8⟩ ∧
      List.Forall₂ (Means 10) [['1', '-', '3'], ['0', '7']] literal.positions := by
  let token : Token := ⟨.decimal, 0, 8, ['%', 'd', '1', '-', '3', '.', '0', '7']⟩
  have hradix : token.kind.radix? = some 10 := rfl
  have hlexeme : Token.lexeme? token.text = some (token.kind, token.text) := by decide
  have hsegmented : Segmented token.text [['1', '-', '3'], ['0', '7']] :=
    ⟨⟨'d', rfl⟩, by decide, by decide⟩
  have hrange : Denotes 10 (['1'] ++ '-' :: ['3']) 1 3 := .range (by decide) (by decide)
  have hvalue : Denotes 10 ['0', '7'] 7 7 := .single (by decide)
  have hfits : ∀ segment ∈ [['1', '-', '3'], ['0', '7']], Fits 10 segment := by
    refine List.forall_mem_cons.mpr ⟨⟨1, 3, hrange, by decide, by decide⟩, ?_⟩
    exact List.forall_mem_singleton.mpr ⟨7, 7, hvalue, by decide, by decide⟩
  obtain ⟨hiff, hok, -⟩ :=
    (read_numeric hradix (Token.mem_pattern_of_lexeme? hlexeme) [] 8).2 _ hsegmented
  obtain ⟨literal, left, hread⟩ := hiff.mpr hfits
  obtain ⟨rfl, hmeans⟩ := hok literal left hread
  exact ⟨literal, hread, hmeans⟩

end Tokens

end Literal

end AugmentedBnf
