import Mathlib.Computability.Language
import AugmentedBnf.Proofs.Token.Visible

/-! # The patterns of lexemes

The lexemes of each kind make up a regular language, the pattern of the kind. The first character of
a text, or the two behind a percent sign, leave one pattern only that can match, and the lexer takes
the longest front that it matches. So it finds nothing exactly where no pattern matches.
-/
namespace AugmentedBnf.Token

open scoped Computability

/-- One character of a class. -/
def oneOf (f : Char → Bool) : Language Char := {w | ∃ c, f c = true ∧ w = [c]}

/-- Exactly this character. -/
def just (c : Char) : Language Char := oneOf (· == c)

/-- One of the characters from the first to the last. -/
def between (first last : Char) : Language Char :=
  oneOf fun c => decide (first ≤ c) && decide (c ≤ last)

/-- One character that is none of these. -/
def noneOf (cs : List Char) : Language Char := oneOf fun c => !cs.contains c

/-- One or more strings of a language. -/
def some1 (L : Language Char) : Language Char := L * L∗

/-- Groups of digits with a point or a dash between neighbours. -/
def digitGroups (digit : Language Char) : Language Char :=
  some1 digit * ((just '.' + just '-') * some1 digit)∗

/-- A string in double quotes on one line. -/
def quotedString : Language Char := just '"' * (noneOf ['"', '\r', '\n'])∗ * just '"'

/-- What a percent sign and a mark in either case introduce. -/
def marked (lower upper : Char) (L : Language Char) : Language Char :=
  just '%' * (just lower + just upper) * L

/-- The strings that are lexemes of a kind. -/
def Kind.pattern : Kind → Language Char
  | whitespace => some1 (just ' ' + just '\t')
  | comment => just ';' * (noneOf ['\r', '\n'])∗
  | lineBreak => (1 + just '\r') * just '\n'
  | ident => (between 'A' 'Z' + between 'a' 'z') *
      (between 'A' 'Z' + between 'a' 'z' + between '0' '9' + just '-')∗
  | equal => just '='
  | slash => just '/'
  | star => just '*'
  | number => some1 (between '0' '9')
  | leftParen => just '('
  | rightParen => just ')'
  | leftBracket => just '['
  | rightBracket => just ']'
  | binary => marked 'b' 'B' (digitGroups (just '0' + just '1'))
  | decimal => marked 'd' 'D' (digitGroups (between '0' '9'))
  | hexadecimal => marked 'x' 'X'
      (digitGroups (between '0' '9' + between 'A' 'F' + between 'a' 'f'))
  | quoted => quotedString
  | insensitiveQuoted => marked 'i' 'I' quotedString
  | sensitiveQuoted => marked 's' 'S' quotedString
  | prose => just '<' * (between ' ' '=' + between '?' '~')∗ * just '>'

section Classes

variable {f g : Char → Bool} {L : Language Char} {w : List Char}

theorem mem_oneOf : w ∈ oneOf f ↔ ∃ c, f c = true ∧ w = [c] := Iff.rfl

theorem mem_just {c : Char} : w ∈ just c ↔ w = [c] := by
  simp [just, mem_oneOf]

theorem oneOf_add (f g : Char → Bool) : oneOf f + oneOf g = oneOf fun c => f c || g c := by
  ext w
  simp only [Language.mem_add, mem_oneOf, Bool.or_eq_true, or_and_right, exists_or]

theorem mem_oneOf_mul : w ∈ oneOf f * L ↔ ∃ c v, w = c :: v ∧ f c = true ∧ v ∈ L := by
  rw [Language.mem_mul]
  constructor
  · rintro ⟨_, ⟨c, hc, rfl⟩, v, hv, rfl⟩
    exact ⟨c, v, rfl, hc, hv⟩
  · rintro ⟨c, v, rfl, hc, hv⟩
    exact ⟨[c], ⟨c, hc, rfl⟩, v, hv, rfl⟩

theorem mem_just_mul {c : Char} : w ∈ just c * L ↔ ∃ v, w = c :: v ∧ v ∈ L := by
  simp [just, mem_oneOf_mul]

theorem append_mem_kstar {v : List Char} (hv : v ∈ L) (hw : w ∈ L∗) : v ++ w ∈ L∗ := by
  obtain ⟨parts, rfl, hparts⟩ := Language.mem_kstar.mp hw
  exact Language.mem_kstar.mpr ⟨v :: parts, rfl, List.forall_mem_cons.mpr ⟨hv, hparts⟩⟩

theorem mem_kstar_oneOf : w ∈ (oneOf f)∗ ↔ ∀ c ∈ w, f c = true := by
  constructor
  · intro h c hc
    obtain ⟨parts, rfl, hparts⟩ := Language.mem_kstar.mp h
    obtain ⟨part, hpart, hcpart⟩ := List.mem_flatten.mp hc
    obtain ⟨d, hd, rfl⟩ := hparts part hpart
    rwa [List.mem_singleton.mp hcpart]
  · intro h
    induction w with
    | nil => exact Language.nil_mem_kstar _
    | cons c w ih =>
      obtain ⟨hc, hw⟩ := List.forall_mem_cons.mp h
      exact append_mem_kstar (v := [c]) ⟨c, hc, rfl⟩ (ih hw)

theorem mem_some1_oneOf : w ∈ some1 (oneOf f) ↔
    ∃ c v, w = c :: v ∧ f c = true ∧ ∀ d ∈ v, f d = true := by
  simp only [some1, mem_oneOf_mul, mem_kstar_oneOf]

theorem mem_marked {lower upper : Char} : w ∈ marked lower upper L ↔
    ∃ mark body, w = '%' :: mark :: body ∧ (mark = lower ∨ mark = upper) ∧ body ∈ L := by
  rw [marked, mul_assoc, mem_just_mul, just, just, oneOf_add]
  constructor
  · rintro ⟨_, rfl, hw⟩
    obtain ⟨mark, body, rfl, hmark, hbody⟩ := mem_oneOf_mul.mp hw
    exact ⟨mark, body, rfl, by simpa using hmark, hbody⟩
  · rintro ⟨mark, body, rfl, hmark, hbody⟩
    exact ⟨_, rfl, mem_oneOf_mul.mpr ⟨mark, body, rfl, by simpa using hmark, hbody⟩⟩

/-- Characters of a class in between of two that are fixed. -/
theorem mem_enclosed {first last : Char} : w ∈ just first * (oneOf f)∗ * just last ↔
    ∃ body, w = first :: (body ++ [last]) ∧ ∀ c ∈ body, f c = true := by
  rw [mul_assoc, mem_just_mul]
  constructor
  · rintro ⟨_, rfl, hw⟩
    obtain ⟨body, hbody, _, hlast, rfl⟩ := Language.mem_mul.mp hw
    rw [mem_just.mp hlast]
    exact ⟨body, rfl, mem_kstar_oneOf.mp hbody⟩
  · rintro ⟨body, rfl, hbody⟩
    exact ⟨_, rfl, Language.append_mem_mul (mem_kstar_oneOf.mpr hbody) (mem_just.mpr rfl)⟩

theorem mem_lineBreak : w ∈ Kind.lineBreak.pattern ↔ w = ['\n'] ∨ w = ['\r', '\n'] := by
  rw [Kind.pattern, add_mul, one_mul, Language.mem_add, mem_just, mem_just_mul]
  simp [mem_just]

theorem blank_eq : just ' ' + just '\t' = oneOf isBlank := oneOf_add _ _

theorem letter_eq : between 'A' 'Z' + between 'a' 'z' = oneOf isLetter := by
  rw [between, between, oneOf_add]
  refine congrArg oneOf (funext fun c => ?_)
  exact congrArg (· || c.isLower) (Bool.decide_and _ _).symm

theorem digit_eq : between '0' '9' = oneOf Char.isDigit := rfl

theorem nameChar_eq :
    between 'A' 'Z' + between 'a' 'z' + between '0' '9' + just '-' = oneOf isNameChar := by
  rw [letter_eq, digit_eq, oneOf_add, just, oneOf_add]
  rfl

theorem bit_eq : just '0' + just '1' = oneOf isBit := oneOf_add _ _

theorem hexDigit_eq :
    between '0' '9' + between 'A' 'F' + between 'a' 'f' = oneOf isHexDigit := by
  rw [digit_eq, between, between, oneOf_add, oneOf_add]
  rfl

theorem joint_eq : just '.' + just '-' = oneOf isJoint := oneOf_add _ _

theorem commentChar_eq : noneOf ['\r', '\n'] = oneOf isCommentChar := by
  refine congrArg oneOf (funext fun c => ?_)
  rw [Bool.eq_iff_iff]
  simp [isCommentChar]

theorem quotedChar_eq : noneOf ['"', '\r', '\n'] = oneOf isQuotedChar := by
  refine congrArg oneOf (funext fun c => ?_)
  rw [Bool.eq_iff_iff]
  simp [isQuotedChar, and_assoc]

theorem proseChar_eq : between ' ' '=' + between '?' '~' = oneOf isProseChar := by
  rw [between, between, oneOf_add]
  refine congrArg oneOf (funext fun c => ?_)
  have hclose : c ≠ '>' ↔ c.val.toNat ≠ 62 := by
    rw [ne_eq, Char.ext_iff, ← UInt32.toNat_inj]
    rfl
  rw [isProseChar, Bool.eq_iff_iff]
  simp [Char.le_def, UInt32.le_iff_toNat_le, hclose]
  omega

end Classes

section Taking

variable {f : Char → Bool} {w t l : Text}

/-- What goes on behind the first digits: groups of digits, each behind a joint. -/
theorem numericTail_mem (f : Char → Bool) (t : Text) :
    numericTail f t ∈ (oneOf f)∗ * (oneOf isJoint * some1 (oneOf f))∗ := by
  have hnone : ([] : Text) ∈ (oneOf f)∗ * (oneOf isJoint * some1 (oneOf f))∗ :=
    Language.append_mem_mul (Language.nil_mem_kstar _) (Language.nil_mem_kstar _)
  have hdigit : ∀ {c : Char} {w : Text}, f c = true →
      w ∈ (oneOf f)∗ * (oneOf isJoint * some1 (oneOf f))∗ →
      c :: w ∈ (oneOf f)∗ * (oneOf isJoint * some1 (oneOf f))∗ := by
    intro c w hc hw
    obtain ⟨digits, hdigits, groups, hgroups, rfl⟩ := Language.mem_mul.mp hw
    have hfirst : [c] ∈ oneOf f := ⟨c, hc, rfl⟩
    exact Language.append_mem_mul (append_mem_kstar hfirst hdigits) hgroups
  fun_induction numericTail f t with
  | case1 => exact hnone
  | case2 c hc => exact hdigit hc hnone
  | case3 => exact hnone
  | case4 c d rest hc ih => exact hdigit hc ih
  | case5 c d rest hc hd ih =>
    obtain ⟨hjoint, hd⟩ := Bool.and_eq_true_iff.mp hd
    obtain ⟨digits, hdigits, groups, hgroups, heq⟩ := Language.mem_mul.mp ih
    have hgroup : c :: d :: digits ∈ oneOf isJoint * some1 (oneOf f) :=
      mem_oneOf_mul.mpr ⟨c, _, rfl, hjoint, mem_oneOf_mul.mpr ⟨d, digits, rfl, hd, hdigits⟩⟩
    rw [← heq]
    exact Language.append_mem_mul (Language.nil_mem_kstar _) (append_mem_kstar hgroup hgroups)
  | case6 => exact hnone

theorem mem_digitGroups_of_numeric? (h : numeric? f t = some l) :
    l ∈ digitGroups (oneOf f) := by
  cases t with
  | nil => cases h
  | cons c rest =>
    rw [numeric?] at h
    split at h
    · rename_i hc
      cases h
      obtain ⟨digits, hdigits, groups, hgroups, heq⟩ :=
        Language.mem_mul.mp (numericTail_mem f rest)
      rw [digitGroups, joint_eq, ← heq]
      exact Language.append_mem_mul (mem_oneOf_mul.mpr ⟨c, digits, rfl, hc, hdigits⟩) hgroups
    · cases h

/-- Groups of digits at the front are taken, because no digit is a joint. -/
theorem isPrefix_numericTail (hjoint : ∀ c, isJoint c = true → f c = false)
    (hw : w ∈ (oneOf isJoint * some1 (oneOf f))∗) (t : Text) :
    w <+: numericTail f (w ++ t) := by
  obtain ⟨groups, rfl, hgroups⟩ := Language.mem_kstar.mp hw
  clear hw
  induction groups with
  | nil => exact List.nil_prefix
  | cons group groups ih =>
    obtain ⟨hgroup, hothers⟩ := List.forall_mem_cons.mp hgroups
    obtain ⟨c, _, rfl, hc, hdigits⟩ := mem_oneOf_mul.mp hgroup
    obtain ⟨d, digits, rfl, hd, hdigits⟩ := mem_some1_oneOf.mp hdigits
    have hrest := (List.prefix_append_right_inj digits).mpr (ih hothers)
    simp only [List.flatten_cons, List.append_assoc, List.cons_append]
    rw [numericTail_joint (hjoint c hc) hc hd, numericTail_append hdigits]
    exact List.cons_prefix_cons.mpr ⟨rfl, List.cons_prefix_cons.mpr ⟨rfl, hrest⟩⟩

theorem exists_numeric?_of_mem (hjoint : ∀ c, isJoint c = true → f c = false)
    (hw : w ∈ digitGroups (oneOf f)) (t : Text) : ∃ l, numeric? f (w ++ t) = some l ∧ w <+: l := by
  rw [digitGroups, joint_eq] at hw
  obtain ⟨first, hfirst, groups, hgroups, rfl⟩ := Language.mem_mul.mp hw
  obtain ⟨c, digits, rfl, hc, hdigits⟩ := mem_some1_oneOf.mp hfirst
  have hrest := (List.prefix_append_right_inj digits).mpr (isPrefix_numericTail hjoint hgroups t)
  refine ⟨c :: numericTail f (digits ++ (groups ++ t)), ?_, ?_⟩
  · rw [List.append_assoc, List.cons_append, numeric?, if_pos hc]
  · rw [numericTail_append hdigits]
    exact List.cons_prefix_cons.mpr ⟨rfl, hrest⟩

theorem quotedString?_eq_some_iff :
    quotedString? t = some l ↔ l <+: t ∧ l ∈ quotedString := by
  rw [quotedString, quotedChar_eq, mem_enclosed]
  constructor
  · intro h
    refine ⟨quotedString?_isPrefix h, ?_⟩
    cases t with
    | nil => cases h
    | cons c t =>
      rw [quotedString?] at h
      split at h
      · obtain ⟨_, hbody, rfl⟩ := Option.map_eq_some_iff.mp h
        obtain ⟨body, rest, -, rfl, hinside⟩ := exists_of_enclosed? hbody
        exact ⟨body, rfl, hinside⟩
      · cases h
  · rintro ⟨⟨rest, rfl⟩, body, rfl, hinside⟩
    rw [List.cons_append, quotedString?, if_pos rfl, List.append_assoc, List.singleton_append,
      enclosed?_append (by decide) hinside]
    rfl

end Taking

section Lexemes

variable {kind : Kind} {w t l : Text}

theorem marked_mem_of_percentValue? {mark : Char} (h : percentValue? mark t = some (kind, l)) :
    '%' :: mark :: l ∈ kind.pattern := by
  unfold percentValue? at h
  split at h
  · rename_i hmark
    obtain ⟨body, hbody, heq⟩ := Option.map_eq_some_iff.mp h
    cases heq
    rw [Kind.pattern, bit_eq]
    exact mem_marked.mpr ⟨mark, _, rfl, hmark, mem_digitGroups_of_numeric? hbody⟩
  split at h
  · rename_i hmark
    obtain ⟨body, hbody, heq⟩ := Option.map_eq_some_iff.mp h
    cases heq
    rw [Kind.pattern, digit_eq]
    exact mem_marked.mpr ⟨mark, _, rfl, hmark, mem_digitGroups_of_numeric? hbody⟩
  split at h
  · rename_i hmark
    obtain ⟨body, hbody, heq⟩ := Option.map_eq_some_iff.mp h
    cases heq
    rw [Kind.pattern, hexDigit_eq]
    exact mem_marked.mpr ⟨mark, _, rfl, hmark, mem_digitGroups_of_numeric? hbody⟩
  split at h
  · rename_i hmark
    obtain ⟨body, hbody, heq⟩ := Option.map_eq_some_iff.mp h
    cases heq
    exact mem_marked.mpr ⟨mark, _, rfl, hmark, (quotedString?_eq_some_iff.mp hbody).2⟩
  split at h
  · rename_i hmark
    obtain ⟨body, hbody, heq⟩ := Option.map_eq_some_iff.mp h
    cases heq
    exact mem_marked.mpr ⟨mark, _, rfl, hmark, (quotedString?_eq_some_iff.mp hbody).2⟩
  · cases h

theorem singleton_mem_of_markKind? {c : Char} (h : markKind? c = some kind) :
    [c] ∈ kind.pattern := by
  unfold markKind? at h
  repeat' split at h
  case isFalse.isFalse.isFalse.isFalse.isFalse.isFalse.isFalse.isTrue hc =>
    cases h
    exact mem_lineBreak.mpr (.inl (by rw [hc]))
  all_goals cases h
  all_goals exact mem_just.mpr (by rw [‹c = _›])

theorem mem_pattern_of_markLexeme? {c : Char} (h : markLexeme? c t = some (kind, l)) :
    l ∈ kind.pattern := by
  have hmark : (markKind? c).map (fun kind => (kind, [c])) = some (kind, l) →
      l ∈ kind.pattern := by
    intro hmap
    obtain ⟨_, hkind, heq⟩ := Option.map_eq_some_iff.mp hmap
    cases heq
    exact singleton_mem_of_markKind? hkind
  cases t with
  | nil => exact hmark h
  | cons d rest =>
    rw [markLexeme?] at h
    split at h
    · rename_i hc
      obtain ⟨⟨_, _⟩, hvalue, heq⟩ := Option.map_eq_some_iff.mp h
      cases heq
      rw [hc]
      exact marked_mem_of_percentValue? hvalue
    split at h
    · rename_i hline
      cases h
      exact mem_lineBreak.mpr (.inr (by rw [hline.1, hline.2]))
    · exact hmark h

/-- A lexeme matches the pattern of its kind. -/
theorem mem_pattern_of_lexeme? (h : lexeme? t = some (kind, l)) : l ∈ kind.pattern := by
  cases t with
  | nil => cases h
  | cons c rest =>
    have hrun : ∀ f : Char → Bool, ∀ d ∈ rest.takeWhile f, f d = true :=
      fun f d hd => List.all_eq_true.mp List.all_takeWhile d hd
    rw [lexeme?_cons] at h
    split at h
    · rename_i hc
      cases h
      rw [Kind.pattern, blank_eq]
      exact mem_some1_oneOf.mpr ⟨c, _, rfl, hc, hrun _⟩
    split at h
    · rename_i hc
      cases h
      rw [Kind.pattern, nameChar_eq, letter_eq]
      exact mem_oneOf_mul.mpr ⟨c, _, rfl, hc, mem_kstar_oneOf.mpr (hrun _)⟩
    split at h
    · rename_i hc
      cases h
      rw [Kind.pattern, digit_eq]
      exact mem_some1_oneOf.mpr ⟨c, _, rfl, hc, hrun _⟩
    split at h
    · rename_i hc
      cases h
      rw [Kind.pattern, commentChar_eq, hc]
      exact mem_just_mul.mpr ⟨_, rfl, mem_kstar_oneOf.mpr (hrun _)⟩
    split at h
    · rename_i hc
      obtain ⟨_, hbody, heq⟩ := Option.map_eq_some_iff.mp h
      cases heq
      obtain ⟨body, -, -, rfl, hinside⟩ := exists_of_enclosed? hbody
      rw [Kind.pattern, quotedString, quotedChar_eq, hc]
      exact mem_enclosed.mpr ⟨body, rfl, hinside⟩
    split at h
    · rename_i hc
      obtain ⟨_, hbody, heq⟩ := Option.map_eq_some_iff.mp h
      cases heq
      obtain ⟨body, -, -, rfl, hinside⟩ := exists_of_enclosed? hbody
      rw [Kind.pattern, proseChar_eq, hc]
      exact mem_enclosed.mpr ⟨body, rfl, hinside⟩
    · exact mem_pattern_of_markLexeme? h

/-- Whatever follows, the lexer finds a lexeme of the kind that starts with the text. -/
def Recognized (kind : Kind) (w : Text) : Prop :=
  ∀ t, ∃ l, lexeme? (w ++ t) = some (kind, l) ∧ w <+: l

namespace Recognized

theorem run {c : Char} {v : Text} {f : Char → Bool}
    (hlexeme : ∀ t, lexeme? (c :: t) = some (kind, c :: t.takeWhile f))
    (hv : ∀ d ∈ v, f d = true) : Recognized kind (c :: v) := by
  intro t
  have hfront : v <+: (v ++ t).takeWhile f := by
    rw [List.takeWhile_append_of_pos hv]
    exact List.prefix_append _ _
  exact ⟨_, hlexeme (v ++ t), List.cons_prefix_cons.mpr ⟨rfl, hfront⟩⟩

theorem mark {c : Char} (hlexeme : ∀ t, lexeme? (c :: t) = some (kind, [c]))
    (hw : w ∈ just c) : Recognized kind w := by
  rw [mem_just.mp hw]
  exact fun t => ⟨_, hlexeme t, List.prefix_rfl⟩

theorem enclosed {inside : Char → Bool} {first last : Char} (hlast : inside last = false)
    (hlexeme : ∀ t, lexeme? (first :: t) =
      (enclosed? inside last t).map fun body => (kind, first :: body))
    (hw : w ∈ just first * (oneOf inside)∗ * just last) : Recognized kind w := by
  intro t
  obtain ⟨body, rfl, hinside⟩ := mem_enclosed.mp hw
  refine ⟨_, ?_, List.prefix_rfl⟩
  rw [List.cons_append, hlexeme, List.append_assoc, List.singleton_append,
    enclosed?_append hlast hinside]
  rfl

theorem marked {lower upper : Char} {L : Language Char} (hw : w ∈ marked lower upper L)
    (hvalue : ∀ mark body t, mark = lower ∨ mark = upper → body ∈ L →
      ∃ l, percentValue? mark (body ++ t) = some (kind, l) ∧ body <+: l) : Recognized kind w := by
  intro t
  obtain ⟨mark, body, rfl, hmark, hbody⟩ := mem_marked.mp hw
  obtain ⟨l, hl, hfront⟩ := hvalue mark body t hmark hbody
  have hlexeme : lexeme? ('%' :: mark :: (body ++ t)) = some (kind, '%' :: mark :: l) := by
    change (percentValue? mark (body ++ t)).map _ = _
    rw [hl]
    rfl
  exact ⟨_, hlexeme, List.cons_prefix_cons.mpr ⟨rfl, List.cons_prefix_cons.mpr ⟨rfl, hfront⟩⟩⟩

theorem numeric {lower upper : Char} {f : Char → Bool} (hpoint : f '.' = false)
    (hdash : f '-' = false)
    (hvalue : ∀ mark t, mark = lower ∨ mark = upper →
      percentValue? mark t = (numeric? f t).map (kind, ·))
    (hw : w ∈ Token.marked lower upper (digitGroups (oneOf f))) : Recognized kind w := by
  have hjoint : ∀ c, isJoint c = true → f c = false := by
    intro c hc
    simp only [isJoint, Bool.or_eq_true, beq_iff_eq] at hc
    rcases hc with rfl | rfl
    · exact hpoint
    · exact hdash
  refine marked hw fun mark body t hmark hbody => ?_
  obtain ⟨l, hl, hfront⟩ := exists_numeric?_of_mem hjoint hbody t
  exact ⟨l, by rw [hvalue mark _ hmark, hl]; rfl, hfront⟩

theorem quoted {lower upper : Char}
    (hvalue : ∀ mark t, mark = lower ∨ mark = upper →
      percentValue? mark t = (quotedString? t).map (kind, ·))
    (hw : w ∈ Token.marked lower upper quotedString) : Recognized kind w := by
  refine marked hw fun mark body t hmark hbody => ?_
  have hl := quotedString?_eq_some_iff.mpr ⟨List.prefix_append body t, hbody⟩
  exact ⟨body, by rw [hvalue mark _ hmark, hl]; rfl, List.prefix_rfl⟩

end Recognized

/-- What matches a pattern at the front of a text is the lexeme there or a front of it. -/
theorem recognized_of_mem_pattern (h : w ∈ kind.pattern) : Recognized kind w := by
  cases kind with
  | whitespace =>
    rw [Kind.pattern, blank_eq] at h
    obtain ⟨c, v, rfl, hc, hv⟩ := mem_some1_oneOf.mp h
    exact .run (lexeme?_of_isBlank hc) hv
  | comment =>
    rw [Kind.pattern, commentChar_eq] at h
    obtain ⟨v, rfl, hv⟩ := mem_just_mul.mp h
    exact .run (fun t => by rw [lexeme?_cons]; rfl) (mem_kstar_oneOf.mp hv)
  | lineBreak =>
    rcases mem_lineBreak.mp h with rfl | rfl
    · exact .mark (fun t => by cases t <;> rfl) (mem_just.mpr rfl)
    · exact fun t => ⟨_, rfl, List.prefix_rfl⟩
  | ident =>
    rw [Kind.pattern, nameChar_eq, letter_eq] at h
    obtain ⟨c, v, rfl, hc, hv⟩ := mem_oneOf_mul.mp h
    exact .run (lexeme?_of_isLetter hc) (mem_kstar_oneOf.mp hv)
  | number =>
    rw [Kind.pattern, digit_eq] at h
    obtain ⟨c, v, rfl, hc, hv⟩ := mem_some1_oneOf.mp h
    exact .run (lexeme?_of_isDigit hc) hv
  | equal => exact .mark lexeme?_equal h
  | slash => exact .mark lexeme?_slash h
  | star => exact .mark lexeme?_star h
  | leftParen => exact .mark lexeme?_leftParen h
  | rightParen => exact .mark lexeme?_rightParen h
  | leftBracket => exact .mark lexeme?_leftBracket h
  | rightBracket => exact .mark lexeme?_rightBracket h
  | binary =>
    rw [Kind.pattern, bit_eq] at h
    exact .numeric (by decide) (by decide) (by rintro _ t (rfl | rfl) <;> rfl) h
  | decimal =>
    rw [Kind.pattern, digit_eq] at h
    exact .numeric (by decide) (by decide) (by rintro _ t (rfl | rfl) <;> rfl) h
  | hexadecimal =>
    rw [Kind.pattern, hexDigit_eq] at h
    exact .numeric (by decide) (by decide) (by rintro _ t (rfl | rfl) <;> rfl) h
  | quoted =>
    rw [Kind.pattern, quotedString, quotedChar_eq] at h
    exact .enclosed (by decide) (fun t => by rw [lexeme?_cons]; rfl) h
  | insensitiveQuoted => exact .quoted (by rintro _ t (rfl | rfl) <;> rfl) h
  | sensitiveQuoted => exact .quoted (by rintro _ t (rfl | rfl) <;> rfl) h
  | prose =>
    rw [Kind.pattern, proseChar_eq] at h
    exact .enclosed (by decide) (fun t => by rw [lexeme?_cons]; rfl) h

/-- Where a lexeme is found, only the pattern of its kind matches a front of the text, and no front
that is longer. -/
theorem longest_of_lexeme? {kind' : Kind} (h : lexeme? t = some (kind, l)) (hw : w <+: t)
    (hpattern : w ∈ kind'.pattern) : kind' = kind ∧ w <+: l := by
  obtain ⟨rest, rfl⟩ := hw
  obtain ⟨l', hl', hfront⟩ := recognized_of_mem_pattern hpattern rest
  cases h.symm.trans hl'
  exact ⟨rfl, hfront⟩

/-- Where no lexeme is found, no pattern matches. -/
theorem not_mem_pattern_of_none (h : lexeme? t = none) (hw : w <+: t) : w ∉ kind.pattern := by
  intro hpattern
  obtain ⟨rest, rfl⟩ := hw
  obtain ⟨l, hl, -⟩ := recognized_of_mem_pattern hpattern rest
  cases h.symm.trans hl

end Lexemes

end AugmentedBnf.Token
