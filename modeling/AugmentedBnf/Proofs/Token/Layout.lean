import Mathlib.Logic.Relation
import AugmentedBnf.Proofs.Expression.Phrase
import AugmentedBnf.Proofs.Token.Alike

/-! # The layout of grammar text

Blanks may be put in or left out anywhere but right behind a line break, where they make the next
line go on with the definition, and comments at the end of a line. What such an edit changes stays
behind the front of the tokens, or is passed over when a reader skips what it always skips there.
-/
namespace AugmentedBnf.Token

/-- The kind and the text of a token, without its place. -/
def face (token : Token) : Kind × Text := (token.kind, token.text)

/-- The second tokens have one blank more, which is not right behind a line break, or one comment
more, which is right in front of a line break or at the end. -/
inductive Loosens : List (Kind × Text) → List (Kind × Text) → Prop where
  | blank {before after : List (Kind × Text)} (text : Text)
      (place : before.getLast?.map (·.1) ≠ some .lineBreak) :
      Loosens (before ++ after) (before ++ (.whitespace, text) :: after)
  | comment {before after : List (Kind × Text)} (text : Text)
      (place : after = [] ∨ after.head?.map (·.1) = some .lineBreak) :
      Loosens (before ++ after) (before ++ (.comment, text) :: after)

/-- One list of tokens becomes the other by putting in and leaving out blanks and comments. -/
def SameUpToLayout (as bs : List Token) : Prop :=
  Relation.EqvGen Loosens (as.map face) (bs.map face)

def LineDone (tokens : List Token) : Prop :=
  tokens = [] ∨ headKind? tokens = some .lineBreak

/-- The second tokens may have further blanks and comments. No reader can tell the two lists apart:
what they have in common is alike one by one, and behind a line break they both start with a blank or
both do not. -/
inductive Respaced : List Token → List Token → Prop where
  | nil : Respaced [] []
  | same {a b : Token} {as bs : List Token} (alike : a.Alike b)
      (indent : a.kind = .lineBreak →
        (headKind? as = some .whitespace ↔ headKind? bs = some .whitespace))
      (rest : Respaced as bs) : Respaced (a :: as) (b :: bs)
  | blank {b : Token} {as bs : List Token} (kind : b.kind = .whitespace) (rest : Respaced as bs) :
      Respaced as (b :: bs)
  | comment {b : Token} {as bs : List Token} (kind : b.kind = .comment) (ends : LineDone bs)
      (rest : Respaced as bs) : Respaced as (b :: bs)

/-- Neither list has a further blank or comment at its front. -/
inductive Aligned : List Token → List Token → Prop where
  | nil : Aligned [] []
  | cons {a b : Token} {as bs : List Token} (alike : a.Alike b)
      (indent : a.kind = .lineBreak →
        (headKind? as = some .whitespace ↔ headKind? bs = some .whitespace))
      (rest : Respaced as bs) : Aligned (a :: as) (b :: bs)

/-- At the end of a line the second list may have a further comment at its front. -/
inductive Near : List Token → List Token → Prop where
  | aligned {as bs : List Token} (h : Aligned as bs) : Near as bs
  | ended {b : Token} {as bs : List Token} (ends : LineDone as) (kind : b.kind = .comment)
      (h : Respaced as (b :: bs)) : Near as (b :: bs)

section Respaced

variable {as bs : List Token}

theorem LineDone.headKind?_ne {tokens : List Token} {kind : Kind} (h : LineDone tokens)
    (hkind : kind ≠ .lineBreak) : headKind? tokens ≠ some kind := by
  intro hhead
  rcases h with rfl | hline
  · cases hhead
  · exact hkind (Option.some.inj (hhead.symm.trans hline))

theorem Aligned.respaced (h : Aligned as bs) : Respaced as bs := by
  cases h with
  | nil => exact .nil
  | cons alike indent rest => exact .same alike indent rest

theorem Aligned.headKind?_eq (h : Aligned as bs) : headKind? as = headKind? bs := by
  cases h with
  | nil => rfl
  | cons alike => exact congrArg some alike.kind

theorem Near.respaced (h : Near as bs) : Respaced as bs := by
  cases h with
  | aligned h => exact h.respaced
  | ended _ _ h => exact h

/-- Where the lists are not aligned, the first has nothing left on its line. -/
theorem Near.aligned_of_headKind? {kind : Kind} (h : Near as bs) (hkind : kind ≠ .lineBreak)
    (hhead : headKind? as = some kind) : Aligned as bs := by
  cases h with
  | aligned h => exact h
  | ended ends => exact absurd hhead (ends.headKind?_ne hkind)

theorem Near.headKind?_eq_iff {kind : Kind} (h : Near as bs) (hline : kind ≠ .lineBreak)
    (hcomment : kind ≠ .comment) : headKind? as = some kind ↔ headKind? bs = some kind := by
  cases h with
  | aligned h => rw [h.headKind?_eq]
  | ended ends hkind =>
    constructor
    · exact fun hhead => absurd hhead (ends.headKind?_ne hline)
    · exact fun hhead => absurd ((Option.some.inj hhead).symm.trans hkind) hcomment

theorem Respaced.lineDone (h : Respaced as bs) (hends : LineDone bs) : LineDone as := by
  cases h with
  | nil => exact .inl rfl
  | @same a b as bs alike =>
    right
    by_contra hline
    have hkind : b.kind ≠ .lineBreak := fun heq => hline (congrArg some (alike.kind.trans heq))
    exact hends.headKind?_ne hkind rfl
  | blank kind => exact absurd (congrArg some kind) (hends.headKind?_ne (by decide))
  | comment kind => exact absurd (congrArg some kind) (hends.headKind?_ne (by decide))

/-- A reader that passes over blanks and comments passes over all that the second list has more. -/
theorem Respaced.aligned_past {kinds : List Kind} (hblank : .whitespace ∈ kinds)
    (hcomment : .comment ∈ kinds) (h : Respaced as bs) : Aligned (past kinds as) (past kinds bs) := by
  induction h with
  | nil => exact .nil
  | same alike indent rest ih =>
    rw [past_cons, past_cons, ← alike.kind]
    split
    · exact ih
    · exact .cons alike indent rest
  | blank kind _ ih => rwa [past_cons, kind, if_pos hblank]
  | comment kind _ _ ih => rwa [past_cons, kind, if_pos hcomment]

/-- A reader that passes over blanks alone may stop at a comment at the end of a line. -/
theorem Respaced.near_past (h : Respaced as bs) :
    Near (past [.whitespace] as) (past [.whitespace] bs) := by
  induction h with
  | nil => exact .aligned .nil
  | same alike indent rest ih =>
    rw [past_cons, past_cons, ← alike.kind]
    split
    · exact ih
    · exact .aligned (.cons alike indent rest)
  | blank kind _ ih => rwa [past_cons, kind, if_pos (List.mem_singleton_self _)]
  | @comment b as bs kind ends rest =>
    have hcomment : b.kind ∉ [Kind.whitespace] := by
      rw [kind]
      decide
    have hends := rest.lineDone ends
    have hpast : past [.whitespace] as = as := by
      apply past_of_headKind?
      intro blank hmem
      rw [List.mem_singleton.mp hmem]
      exact hends.headKind?_ne (by decide)
    rw [past_cons, if_neg hcomment, hpast]
    exact .ended hends kind (.comment kind ends rest)

theorem Respaced.of_blank {a : Token} (h : Respaced (a :: as) bs) (hblank : a.kind = .whitespace) :
    Respaced as bs := by
  generalize hfirst : a :: as = first at h
  induction h with
  | nil => cases hfirst
  | same alike _ rest =>
    obtain ⟨rfl, rfl⟩ := List.cons_eq_cons.mp hfirst
    exact .blank (alike.kind ▸ hblank) rest
  | blank kind _ ih => exact .blank kind (ih hfirst)
  | comment kind ends _ ih => exact .comment kind ends (ih hfirst)

/-- A blank at both fronts may be taken, although the second one may be further than the first. -/
theorem Respaced.of_blanks {a b : Token} (h : Respaced (a :: as) (b :: bs))
    (ha : a.kind = .whitespace) (hb : b.kind = .whitespace) : Respaced as bs := by
  cases h with
  | same _ _ rest => exact rest
  | blank _ rest => exact rest.of_blank ha
  | comment kind => cases kind.symm.trans hb

theorem Aligned.turn_eq (h : Aligned as bs) : Expression.turn as = Expression.turn bs := by
  cases h with
  | nil => rfl
  | @cons a b as bs alike indent rest =>
    by_cases hline : a.kind = .lineBreak
    · rw [Expression.turn_lineBreak hline, Expression.turn_lineBreak (alike.kind ▸ hline)]
      exact if_congr (indent hline) rfl rfl
    · have hline' : b.kind ≠ .lineBreak := alike.kind ▸ hline
      cases hcloses : Expression.closes a.kind with
      | true =>
        rw [Expression.turn_eq_stop_of_closes hcloses,
          Expression.turn_eq_stop_of_closes (alike.kind ▸ hcloses)]
      | false =>
        rw [Expression.turn_eq_operand hcloses hline,
          Expression.turn_eq_operand (alike.kind ▸ hcloses) hline']

end Respaced

section Edits

variable {as bs : List Token}

theorem Respaced.of_alike (h : List.Forall₂ Token.Alike as bs) : Respaced as bs := by
  induction h with
  | nil => exact .nil
  | @cons a b as bs alike hrest ih =>
    have hhead : headKind? as = headKind? bs := by
      cases hrest with
      | nil => rfl
      | cons halike => exact congrArg some halike.kind
    exact .same alike (fun _ => by rw [hhead]) ih

theorem forall₂_alike_of_faces (h : as.map face = bs.map face) :
    List.Forall₂ Token.Alike as bs := by
  have hfaces : List.Forall₂ Eq (as.map face) (bs.map face) := by
    rw [List.forall₂_eq_eq_eq]
    exact h
  rw [List.forall₂_map_left_iff, List.forall₂_map_right_iff] at hfaces
  exact hfaces.imp fun a b hface => ⟨congrArg Prod.fst hface, fun _ => congrArg Prod.snd hface⟩

/-- An edit shows in front of it only if the token in front of it is a line break. -/
theorem Respaced.append {front front' : List Token} (hfront : List.Forall₂ Token.Alike front front')
    (hindent : front.getLast?.map (·.kind) = some .lineBreak →
      (headKind? as = some .whitespace ↔ headKind? bs = some .whitespace))
    (h : Respaced as bs) : Respaced (front ++ as) (front' ++ bs) := by
  induction hfront with
  | nil => exact h
  | @cons a b front front' alike hrest ih =>
    refine .same alike ?_ (ih fun hlast => hindent ?_)
    · intro hline
      cases hrest with
      | nil => exact hindent (congrArg some hline)
      | @cons a' b' _ _ alike' =>
        have hkinds : some a'.kind = some b'.kind := congrArg some alike'.kind
        exact Eq.to_iff (congrArg (· = some Kind.whitespace) hkinds)
    · rw [List.getLast?_cons]
      obtain ⟨last, hfound, hline⟩ := Option.map_eq_some_iff.mp hlast
      rw [hfound]
      exact congrArg some hline

theorem Respaced.of_loosens (h : Loosens (as.map face) (bs.map face)) : Respaced as bs := by
  generalize hfirst : as.map face = first, hsecond : bs.map face = second at h
  have hcut : ∀ {before after : List (Kind × Text)} {edit : Kind × Text},
      as.map face = before ++ after → bs.map face = before ++ edit :: after →
      ∃ as₁ as₂ bs₁ b bs₂, as = as₁ ++ as₂ ∧ bs = bs₁ ++ b :: bs₂ ∧ as₁.map face = before ∧
        as₁.map face = bs₁.map face ∧ as₂.map face = after ∧ as₂.map face = bs₂.map face ∧
        b.face = edit := by
    intro before after edit hfirst hsecond
    obtain ⟨as₁, as₂, rfl, hbefore, hafter⟩ := List.map_eq_append_iff.mp hfirst
    obtain ⟨bs₁, bs', rfl, hbefore', hrest⟩ := List.map_eq_append_iff.mp hsecond
    obtain ⟨b, bs₂, rfl, hedit, hafter'⟩ := List.map_eq_cons_iff.mp hrest
    exact ⟨as₁, as₂, bs₁, b, bs₂, rfl, rfl, hbefore, hbefore.trans hbefore'.symm, hafter,
      hafter.trans hafter'.symm, hedit⟩
  cases h with
  | @blank before after text place =>
    obtain ⟨as₁, as₂, bs₁, b, bs₂, rfl, rfl, hbefore, hfront, -, hback, hedit⟩ := hcut hfirst hsecond
    have hkind : b.kind = .whitespace := congrArg Prod.fst hedit
    refine .append (forall₂_alike_of_faces hfront) ?_
      (.blank hkind (.of_alike (forall₂_alike_of_faces hback)))
    intro hlast
    rw [← hbefore, List.getLast?_map, Option.map_map] at place
    exact absurd hlast place
  | @comment before after text place =>
    obtain ⟨as₁, as₂, bs₁, b, bs₂, rfl, rfl, -, hfront, hafter, hback, hedit⟩ := hcut hfirst hsecond
    have hkind : b.kind = .comment := congrArg Prod.fst hedit
    have hends : LineDone as₂ ∧ LineDone bs₂ := by
      have hface : ∀ {tokens : List Token}, tokens.map face = after → LineDone tokens := by
        rintro tokens rfl
        rcases place with hnil | hline
        · exact .inl (List.map_eq_nil_iff.mp hnil)
        · rw [List.head?_map, Option.map_map] at hline
          exact .inr hline
      exact ⟨hface hafter, hface (hback.symm.trans hafter)⟩
    refine .append (forall₂_alike_of_faces hfront) ?_
      (.comment hkind hends.2 (.of_alike (forall₂_alike_of_faces hback)))
    intro _
    constructor
    · exact fun hblank => absurd hblank (hends.1.headKind?_ne (by decide))
    · intro hblank
      cases hkind.symm.trans (Option.some.inj hblank)

end Edits

end AugmentedBnf.Token
