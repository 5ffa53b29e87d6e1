import AugmentedBnf.Proofs.Expression.Phrase
import AugmentedBnf.Proofs.Token.Genuine

/-! # The normal form of expressions

Reading simplifies at each level, so no wrapper around a single operand is left at any depth, and
what binds tighter is never the looser form without brackets around it. Appending alternatives keeps
this: the alternatives of both sides stand side by side, and each side has one at least.
-/
namespace AugmentedBnf

theorem Charset.range_ne_nil {first last : Nat} (h : first ≤ last) :
    (range first last).members ≠ [] := by
  have hmem : Char.ofNat first ∈ (range first last).members := by
    rw [range, mem_ofList, List.mem_map]
    exact ⟨first, List.mem_range'_1.mpr ⟨Nat.le_refl first, by omega⟩, rfl⟩
  exact List.ne_nil_of_mem hmem

namespace Literal

theorem ne_nil_of_segment {radix : Nat} {whole part : Text} {set : Charset}
    (h : segment radix whole part = .ok set) : set.members ≠ [] := by
  unfold segment at h
  cases hends : ends radix part with
  | error cause =>
    rw [hends] at h
    cases h
  | ok pair =>
    rw [hends] at h
    simp only [bind, Except.bind] at h
    split at h
    · cases h
    · rename_i hrange
      cases h
      exact Charset.range_ne_nil (by omega)

theorem ne_nil_of_mapM {radix : Nat} {whole : Text} {parts : List Text} {sets : List Charset}
    (h : parts.mapM (segment radix whole) = .ok sets) : ∀ set ∈ sets, set.members ≠ [] := by
  induction parts generalizing sets with
  | nil =>
    cases h
    nofun
  | cons part parts ih =>
    rw [List.mapM_cons] at h
    cases hpart : segment radix whole part with
    | error cause =>
      rw [hpart] at h
      cases h
    | ok set =>
      cases hrest : parts.mapM (segment radix whole) with
      | error cause =>
        rw [hpart, hrest] at h
        cases h
      | ok rest =>
        rw [hpart, hrest] at h
        cases h
        exact List.forall_mem_cons.mpr ⟨ne_nil_of_segment hpart, ih hrest⟩

theorem ne_nil_of_numeric {radix : Nat} {whole : Text} {value : Literal}
    (h : numeric radix whole = .ok value) : ∀ set ∈ value.positions, set.members ≠ [] := by
  unfold numeric at h
  cases hsets : (Text.splitAt '.' ((whole.dropBytes? 2).getD [])).mapM (segment radix whole) with
  | error cause =>
    rw [hsets] at h
    cases h
  | ok sets =>
    rw [hsets] at h
    cases h
    exact ne_nil_of_mapM hsets

/-- No terminal value that a lexeme spells has a place where nothing fits. -/
theorem ne_nil_of_ofLexeme? {kind : Token.Kind} {text : Text} {value : Literal}
    (h : ofLexeme? kind text = some (.ok value)) : ∀ set ∈ value.positions, set.members ≠ [] := by
  have hinsensitive : ∀ pattern, ∀ set ∈ (insensitive pattern).positions, set.members ≠ [] := by
    intro pattern set hset
    obtain ⟨c, -, rfl⟩ := List.mem_map.mp hset
    exact List.ne_nil_of_mem (Charset.mem_ofList.mpr List.mem_cons_self)
  cases kind with
  | binary => exact ne_nil_of_numeric (Option.some.inj h)
  | decimal => exact ne_nil_of_numeric (Option.some.inj h)
  | hexadecimal => exact ne_nil_of_numeric (Option.some.inj h)
  | quoted =>
    cases h
    exact hinsensitive _
  | insensitiveQuoted =>
    cases h
    exact hinsensitive _
  | sensitiveQuoted =>
    cases h
    intro set hset
    obtain ⟨c, -, rfl⟩ := List.mem_map.mp hset
    exact List.ne_nil_of_mem (Charset.mem_ofList.mpr List.mem_cons_self)
  | _ => cases h

end Literal

namespace Expression

/-- The operands that an expression is made of. -/
def children : Expression → List Expression
  | alternation operands => operands
  | concatenation operands => operands
  | repetition _ operand => [operand]
  | group inner => [inner]
  | option inner => [inner]
  | literal _ => []
  | reference _ => []
  | prose _ => []

/-- An expression stands somewhere in another, at any depth. -/
inductive Within (sub : Expression) : Expression → Prop where
  | self : Within sub sub
  | under {e child : Expression} (mem : child ∈ e.children) (inner : Within sub child) :
      Within sub e

/-- The property holds of the expression and at every depth of it. -/
def Everywhere (P : Expression → Prop) (e : Expression) : Prop := ∀ sub, Within sub e → P sub

/-- The kinds of expressions that a count can stand in front of. -/
def isElement : Expression → Bool
  | group _ | option _ | literal _ | reference _ | prose _ => true
  | _ => false

/-- The form in which expressions are kept, as far as one level shows it. -/
def Normal : Expression → Prop
  | alternation operands => 2 ≤ operands.length ∧ ∀ e ∈ operands, e.kind ≠ .alternation
  | concatenation operands => operands.length ≠ 1 ∧
      ∀ e ∈ operands, e.kind ≠ .alternation ∧ e.kind ≠ .concatenation
  | repetition bounds operand => bounds ≠ .once ∧ operand.isElement = true
  | literal value => ∀ set ∈ value.positions, set.members ≠ []
  | reference name => name.isName = true
  | group _ => True
  | option _ => True
  | prose _ => True

/-- The numbers and descriptions that the notation can spell. -/
def Legible : Expression → Prop
  | repetition bounds _ => bounds.min < Text.limit64 ∧ ∀ max ∈ bounds.max, max < Text.limit64
  | prose text => ∀ c ∈ text, Token.isProseChar c = true
  | _ => True

/-- What reading promises of every expression at each depth. -/
def Regular (e : Expression) : Prop := e.Normal ∧ e.Legible

section Everywhere

variable {P Q : Expression → Prop} {e : Expression}

theorem everywhere_iff : Everywhere P e ↔ P e ∧ ∀ child ∈ e.children, Everywhere P child := by
  constructor
  · intro h
    exact ⟨h e .self, fun child hchild sub hsub => h sub (.under hchild hsub)⟩
  · rintro ⟨hself, hbelow⟩ sub hsub
    cases hsub with
    | self => exact hself
    | under hmem hinner => exact hbelow _ hmem sub hinner

theorem Everywhere.self (h : Everywhere P e) : P e := h e .self

theorem Everywhere.child (h : Everywhere P e) {child : Expression} (hmem : child ∈ e.children) :
    Everywhere P child := (everywhere_iff.mp h).2 child hmem

theorem Everywhere.mono (h : Everywhere P e) (hPQ : ∀ sub, P sub → Q sub) : Everywhere Q e :=
  fun sub hsub => hPQ sub (h sub hsub)

theorem Everywhere.of_within {sub : Expression} (h : Everywhere P e) (hsub : Within sub e) :
    Everywhere P sub := by
  induction hsub with
  | self => exact h
  | under hmem _ ih => exact ih (h.child hmem)

theorem everywhere_of_leaf (hleaf : e.children = []) (h : P e) : Everywhere P e := by
  refine everywhere_iff.mpr ⟨h, ?_⟩
  rw [hleaf]
  nofun

theorem everywhere_of_inner {inner : Expression} (honly : e.children = [inner]) (h : P e)
    (hinner : Everywhere P inner) : Everywhere P e := by
  refine everywhere_iff.mpr ⟨h, ?_⟩
  rw [honly]
  exact List.forall_mem_singleton.mpr hinner

end Everywhere

section Wrappers

/-- The first expression is a wrapper around the second one alone. The mark tells whether the
wrapper is a count of exactly one. -/
inductive Wraps : Bool → Expression → Expression → Prop where
  | alternation {only : Expression} : Wraps false (alternation [only]) only
  | concatenation {only : Expression} : Wraps false (concatenation [only]) only
  | repetition {operand : Expression} : Wraps true (repetition .once operand) operand

/-- All wrappers of the first expression taken off give the second one. The mark tells whether a
count of exactly one is among them. -/
inductive Collapses : Bool → Expression → Expression → Prop where
  | bare {e : Expression} (none : ∀ counted x, ¬ Wraps counted e x) : Collapses false e e
  | wrapped {counted counted' : Bool} {e x core : Expression} (wrapper : Wraps counted e x)
      (inner : Collapses counted' x core) : Collapses (counted || counted') e core

variable {e x core core' : Expression} {counted counted' : Bool}

theorem Wraps.unique {x' : Expression} (h : Wraps counted e x) (h' : Wraps counted' e x') :
    counted = counted' ∧ x = x' := by
  cases h <;> cases h' <;> exact ⟨rfl, rfl⟩

theorem Collapses.unique (h : Collapses counted e core) (h' : Collapses counted' e core') :
    counted = counted' ∧ core = core' := by
  induction h generalizing counted' with
  | bare none =>
    cases h' with
    | bare => exact ⟨rfl, rfl⟩
    | wrapped wrapper => exact absurd wrapper (none _ _)
  | wrapped wrapper inner ih =>
    cases h' with
    | bare none => exact absurd wrapper (none _ _)
    | wrapped wrapper' inner' =>
      obtain ⟨rfl, rfl⟩ := wrapper.unique wrapper'
      obtain ⟨rfl, rfl⟩ := ih inner'
      exact ⟨rfl, rfl⟩

theorem Collapses.not_wraps (h : Collapses counted e core) : ∀ mark x, ¬ Wraps mark core x := by
  induction h with
  | bare none => exact none
  | wrapped _ _ ih => exact ih

/-- Simplification takes off all wrappers. -/
theorem exists_collapses_simplify (e : Expression) : ∃ counted, Collapses counted e e.simplify := by
  fun_induction simplify e with
  | case1 only ih =>
    obtain ⟨counted, h⟩ := ih
    exact ⟨_, .wrapped .alternation h⟩
  | case2 only ih =>
    obtain ⟨counted, h⟩ := ih
    exact ⟨_, .wrapped .concatenation h⟩
  | case3 operand ih =>
    obtain ⟨counted, h⟩ := ih
    exact ⟨_, .wrapped .repetition h⟩
  | case4 e halternation hconcatenation hrepetition =>
    refine ⟨false, .bare fun counted x hwraps => ?_⟩
    cases hwraps with
    | alternation => exact halternation x rfl
    | concatenation => exact hconcatenation x rfl
    | repetition => exact hrepetition x rfl

theorem simplify_of_not_wraps (h : ∀ counted x, ¬ Wraps counted e x) : e.simplify = e := by
  obtain ⟨counted, hcollapses⟩ := exists_collapses_simplify e
  exact ((Collapses.bare h).unique hcollapses).2.symm

theorem simplify_repetition {bounds : Bounds} (h : bounds ≠ .once) (e : Expression) :
    (repetition bounds e).simplify = repetition bounds e := by
  refine simplify_of_not_wraps ?_
  rintro counted x ⟨⟩
  exact h rfl

theorem Normal.not_wraps (h : e.Normal) : ∀ counted x, ¬ Wraps counted e x := by
  rintro counted x (_ | _ | _)
  · exact absurd h.1 (by simp)
  · exact h.1 rfl
  · exact h.1 rfl

/-- Nothing in normal form is a wrapper around a single operand. -/
theorem Normal.simplify_eq (h : e.Normal) : e.simplify = e := simplify_of_not_wraps h.not_wraps

end Wrappers

section Simplify

variable {es others : List Expression} {b : Expression}

theorem simplify_concatenation :
    (concatenation es).simplify = match es with
      | [only] => only.simplify
      | es => concatenation es := by
  match es with
  | [] => rfl
  | [only] => rw [simplify]
  | _ :: _ :: _ => rfl

theorem simplify_alternation :
    (alternation es).simplify = match es with
      | [only] => only.simplify
      | es => alternation es := by
  match es with
  | [] => rfl
  | [only] => rw [simplify]
  | _ :: _ :: _ => rfl

/-- What stands in a sequence: neither a choice nor a sequence, and regular throughout. -/
def InSequence (e : Expression) : Prop :=
  e.kind ≠ .alternation ∧ e.kind ≠ .concatenation ∧ Everywhere Regular e

/-- What stands in a choice: not a choice itself, and regular throughout. -/
def InChoice (e : Expression) : Prop := e.kind ≠ .alternation ∧ Everywhere Regular e

theorem inChoice_simplify_concatenation (h : ∀ e ∈ es, InSequence e) :
    InChoice (concatenation es).simplify := by
  have hmany : es.length ≠ 1 → InChoice (concatenation es) := by
    intro hlength
    refine ⟨nofun, everywhere_iff.mpr ⟨⟨⟨hlength, ?_⟩, trivial⟩, ?_⟩⟩
    · intro e he
      exact ⟨(h e he).1, (h e he).2.1⟩
    · intro e he
      exact (h e he).2.2
  rw [simplify_concatenation]
  match es with
  | [] => exact hmany (by decide)
  | [only] =>
    obtain ⟨hchoice, -, hregular⟩ := h only List.mem_cons_self
    dsimp only
    rw [hregular.self.1.simplify_eq]
    exact ⟨hchoice, hregular⟩
  | _ :: _ :: _ => exact hmany (by simp)

theorem everywhere_simplify_alternation (hb : InChoice b) (h : ∀ e ∈ others, InChoice e) :
    Everywhere Regular (alternation (b :: others)).simplify := by
  rw [simplify_alternation]
  cases others with
  | nil =>
    dsimp only
    rw [hb.2.self.1.simplify_eq]
    exact hb.2
  | cons e others =>
    have hall : ∀ x ∈ b :: e :: others, InChoice x := List.forall_mem_cons.mpr ⟨hb, h⟩
    refine everywhere_iff.mpr ⟨⟨⟨by simp, ?_⟩, trivial⟩, ?_⟩
    · exact fun x hx => (hall x hx).1
    · exact fun x hx => (hall x hx).2

theorem isElement_inSequence {e : Expression} (h : e.isElement = true)
    (hregular : Everywhere Regular e) : InSequence e := by
  cases e with
  | alternation | concatenation | repetition => cases h
  | _ => exact ⟨nofun, nofun, hregular⟩

end Simplify

section Reading

open Token (past past_suffix)

/-- What reading a phrase promises of it. -/
def Phrase.Regular : Phrase → Prop
  | .element e => e.isElement = true ∧ Everywhere Expression.Regular e
  | .operand e => InSequence e
  | .operands es => ∀ e ∈ es, InSequence e
  | .alternatives es => ∀ e ∈ es, InChoice e
  | .whole e => Everywhere Expression.Regular e

theorem Counts.legible {bounds : Bounds} {tokens rest : List Token}
    (h : Counts bounds tokens rest) :
    bounds.min < Text.limit64 ∧ ∀ max ∈ bounds.max, max < Text.limit64 := by
  have hnumber : ∀ {token : Token} {n : Nat}, token.number? = some n → n < Text.limit64 := by
    intro token n hn
    have hvalue := (Token.exists_of_number? hn).2
    simpa using (Option.filter_eq_some_iff.mp hvalue).2
  have hzero : 0 < Text.limit64 := by decide
  have hone : 1 < Text.limit64 := by decide
  cases h with
  | between least mark kind next greatest =>
    refine ⟨hnumber least, ?_⟩
    rintro max ⟨⟩
    exact hnumber greatest
  | atLeast least mark kind next => exact ⟨hnumber least, nofun⟩
  | exactly least next =>
    refine ⟨hnumber least, ?_⟩
    rintro max ⟨⟩
    exact hnumber least
  | atMost kind next greatest =>
    refine ⟨hzero, ?_⟩
    rintro max ⟨⟩
    exact hnumber greatest
  | anyNumber kind next => exact ⟨hzero, nofun⟩
  | single number star =>
    refine ⟨hone, ?_⟩
    rintro max ⟨⟩
    exact hone

/-- A count in front of an element is kept, unless it is exactly one. -/
theorem inSequence_simplify_repetition {bounds : Bounds} {e : Expression}
    (hlegible : (repetition bounds e).Legible) (helement : e.isElement = true)
    (hregular : Everywhere Regular e) : InSequence (repetition bounds e).simplify := by
  by_cases honce : bounds = .once
  · subst honce
    have hinner : (repetition .once e).simplify = e := by
      rw [Bounds.once, simplify, hregular.self.1.simplify_eq]
    rw [hinner]
    exact isElement_inSequence helement hregular
  · have hnormal : (repetition bounds e).Normal := ⟨honce, helement⟩
    rw [hnormal.simplify_eq]
    exact ⟨nofun, nofun, everywhere_of_inner rfl ⟨hnormal, hlegible⟩ hregular⟩

theorem Spells.regular {p : Phrase} {tokens rest : List Token} (h : Spells p tokens rest)
    (htokens : ∀ token ∈ tokens, token.Genuine) : p.Regular := by
  have hbehind : ∀ {ts r : List Token}, r <:+ ts → (∀ token ∈ ts, token.Genuine) →
      ∀ token ∈ r, token.Genuine := by
    intro ts r hsuffix hts token htoken
    exact hts token (hsuffix.subset htoken)
  have hpast : ∀ {kinds : List Token.Kind} {ts r : List Token} {token : Token},
      past kinds ts = token :: r → (∀ token ∈ ts, token.Genuine) →
      token.Genuine ∧ ∀ token ∈ r, token.Genuine := by
    intro kinds ts r token heq hts
    have hall := hbehind (past_suffix kinds ts) hts
    rw [heq] at hall
    exact List.forall_mem_cons.mp hall
  induction h with
  | literal first lexeme =>
    exact ⟨rfl, everywhere_of_leaf rfl ⟨Literal.ne_nil_of_ofLexeme? lexeme, trivial⟩⟩
  | reference first kind =>
    exact ⟨rfl, everywhere_of_leaf rfl ⟨(hpast first htokens).1.isName kind, trivial⟩⟩
  | prose first kind =>
    exact ⟨rfl, everywhere_of_leaf rfl ⟨trivial, (hpast first htokens).1.isProse kind⟩⟩
  | group first kind inner last kind' ih =>
    exact ⟨rfl, everywhere_of_inner rfl ⟨trivial, trivial⟩ (ih (hpast first htokens).2)⟩
  | option first kind inner last kind' ih =>
    exact ⟨rfl, everywhere_of_inner rfl ⟨trivial, trivial⟩ (ih (hpast first htokens).2)⟩
  | operand count inner ih =>
    have hsuffix := count.suffix.trans (past_suffix _ _)
    obtain ⟨helement, hregular⟩ := ih (hbehind hsuffix htokens)
    exact inSequence_simplify_repetition count.legible helement hregular
  | stop stops => nofun
  | fold first kind kind' next ih =>
    have hall := (hpast first htokens).2
    exact ih (List.forall_mem_cons.mp hall).2
  | another goes first next ihfirst ihnext =>
    have hall := hbehind (past_suffix Token.Kind.inlineTrivia _) htokens
    exact List.forall_mem_cons.mpr ⟨ihfirst hall, ihnext (hbehind first.suffix hall)⟩
  | last ends => nofun
  | slash first kind branch next ihbranch ihnext =>
    have hall := hbehind (past_suffix Token.Kind.inlineTrivia _) (hpast first htokens).2
    refine List.forall_mem_cons.mpr ⟨inChoice_simplify_concatenation (ihbranch hall), ?_⟩
    exact ihnext (hbehind branch.suffix hall)
  | whole branch next ihbranch ihnext =>
    have hfirst := inChoice_simplify_concatenation (ihbranch htokens)
    exact everywhere_simplify_alternation hfirst (ihnext (hbehind branch.suffix htokens))

end Reading

section Merge

variable {e existing added : Expression}

theorem length_branches_pos (h : e.Normal) : 0 < e.branches.length := by
  cases e with
  | alternation operands =>
    obtain ⟨hlength, -⟩ := h
    have : 2 ≤ operands.length := hlength
    rw [branches]
    omega
  | _ => exact Nat.one_pos

theorem inChoice_of_mem_branches (h : Everywhere Regular e) {b : Expression}
    (hb : b ∈ e.branches) : InChoice b := by
  cases e with
  | alternation operands => exact ⟨h.self.1.2 b hb, h.child hb⟩
  | _ =>
    obtain rfl := List.mem_singleton.mp hb
    exact ⟨nofun, h⟩

/-- Each side adds a branch, so the result is a choice of two branches at least. -/
theorem everywhere_merge (h : Everywhere Regular existing) (h' : Everywhere Regular added) :
    Everywhere Regular (existing.merge added) := by
  have hall : ∀ b ∈ existing.branches ++ added.branches, InChoice b := by
    intro b hb
    rcases List.mem_append.mp hb with hb | hb
    · exact inChoice_of_mem_branches h hb
    · exact inChoice_of_mem_branches h' hb
  have hlength : 2 ≤ (existing.branches ++ added.branches).length := by
    have hexisting := length_branches_pos h.self.1
    have hadded := length_branches_pos h'.self.1
    rw [List.length_append]
    omega
  refine everywhere_iff.mpr ⟨⟨⟨hlength, ?_⟩, trivial⟩, ?_⟩
  · exact fun b hb => (hall b hb).1
  · exact fun b hb => (hall b hb).2

end Merge

end Expression

end AugmentedBnf
