import AugmentedBnf.Proofs.Expression.Layout
import AugmentedBnf.Proofs.Grammar.Definitions

/-! # Reading grammars does not depend on the layout

Definitions and whole grammar texts are read from related streams in the same way as right-hand sides
are. So blanks and comments change nothing in the rules or in the cause for which a text is refused,
and neither do the places of tokens or the way in which lines are broken.
-/
namespace AugmentedBnf

open Token (Respaced Aligned)
open Reader (Related LayoutFree)

namespace Rule

theorem layoutFree_skipIncrement : LayoutFree skipIncrement := by
  refine .bind_eq .skipInline fun _ => .isAt_bind fun slash => ?_
  cases slash with
  | true => exact .consume_bind .slash (.pure rfl)
  | false => exact .aligned (.pure rfl)

theorem layoutFree_readBody (existing? : Option Rule) : LayoutFree (readBody existing?) := by
  cases existing? with
  | none => exact Expression.layoutFree_read
  | some existing => exact Expression.layoutFree_readMore existing.body

/-- A definition is read from where its name is next, and so is the one after it. -/
theorem related_read (rules : RuleTable) :
    Related Aligned Aligned Eq (read rules) (read rules) := by
  refine .consume_text (by decide) fun text => .bind_eq .skipTrivia fun _ => ?_
  refine .consume_bind .equal (.bind_eq layoutFree_skipIncrement fun _ => ?_)
  exact .bind_eq (layoutFree_readBody _) fun body => .bind_eq .skipTrivia fun _ => .pure rfl

end Rule

namespace RuleTable

variable {tokens : List Token} {size : Nat}

/-- Each definition takes a token, so no count up from the number of tokens is used up. -/
theorem readAll_congr {count count' : Nat} {rules : RuleTable} (hcount : tokens.length ≤ count)
    (hcount' : tokens.length ≤ count') :
    readAll count rules ⟨tokens, size⟩ = readAll count' rules ⟨tokens, size⟩ := by
  induction count generalizing tokens rules count' with
  | zero =>
    obtain rfl := List.eq_nil_of_length_eq_zero (Nat.le_zero.mp hcount)
    rw [readAll_nil, readAll_nil]
  | succ count ih =>
    cases tokens with
    | nil => rw [readAll_nil, readAll_nil]
    | cons token tokens =>
      obtain ⟨count', rfl⟩ := Nat.exists_eq_add_one_of_ne_zero (Nat.ne_zero_of_lt hcount')
      rw [readAll_cons, readAll_cons]
      refine Reader.bind_congr fun rule stream hrule => ?_
      obtain ⟨name, e, rest, hdefines, rfl, rfl⟩ := Rule.read_eq_ok_iff.mp hrule
      have hshort := hdefines.length_lt
      rw [List.length_cons] at hcount hcount' hshort
      rw [Reader.bind_of_ok (Reader.skip_apply _ _ _), Reader.bind_of_ok (Reader.skip_apply _ _ _),
        hdefines.past_eq]
      exact ih (by omega) (by omega)

theorem related_readAll (count : Nat) (rules : RuleTable) :
    Related Aligned Aligned Eq (readAll count rules) (readAll count rules) := by
  induction count generalizing rules with
  | zero => exact .pure rfl
  | succ count ih =>
    rintro ⟨as, size⟩ ⟨bs, size'⟩ (hq : Aligned as bs)
    cases hq with
    | nil => exact .ok rfl .nil
    | cons alike indent rest =>
      rw [readAll_cons, readAll_cons]
      refine Related.bind_eq (Rule.related_read rules) (fun rule => ?_) _ _ (.cons alike indent rest)
      exact .bind_eq (Related.aligned .skipTrivia) fun _ => ih _

theorem related_read : Related Respaced Aligned Eq read read := by
  refine .bind_eq .skipTrivia fun _ => ?_
  rintro ⟨as, size⟩ ⟨bs, size'⟩ hq
  have hcount : as.length ≤ as.length + bs.length := Nat.le_add_right _ _
  have hcount' : bs.length ≤ as.length + bs.length := Nat.le_add_left _ _
  rw [Reader.bind_of_ok (Reader.get_apply _), Reader.bind_of_ok (Reader.get_apply _),
    readAll_congr (Nat.le_refl _) hcount, readAll_congr (Nat.le_refl _) hcount']
  exact related_readAll _ _ _ _ hq

theorem outcome_read_of_respaced {s t : TokenStream} (h : Respaced s.tokens t.tokens) :
    UpToOffsets Eq (Reader.outcome read s) (Reader.outcome read t) := related_read.outcome h

theorem ofSource_eq (source : Text) :
    ofSource source = TokenStream.ofSource source >>= Reader.outcome read := by
  unfold ofSource
  refine congrArg (TokenStream.ofSource source >>= ·) (funext fun stream => ?_)
  unfold Reader.outcome
  cases read stream <;> rfl

/-- Texts whose tokens are alike have the same rules, or are refused for the same cause. -/
theorem ofSource_alike {source source' : Text}
    (h : UpToOffsets (List.Forall₂ Token.Alike) (Token.scan source) (Token.scan source')) :
    UpToOffsets Eq (ofSource source) (ofSource source') := by
  have hstreams : UpToOffsets (fun s t : TokenStream => Respaced s.tokens t.tokens)
      (TokenStream.ofSource source) (TokenStream.ofSource source') :=
    h.bind fun _ _ htokens => Respaced.of_alike htokens
  rw [ofSource_eq, ofSource_eq]
  exact hstreams.bind fun _ _ hst => outcome_read_of_respaced hst

/-- Compiling does not depend on the layout: if one list of tokens becomes the other by putting in and
leaving out blanks that are not right behind a line break, and comments that are right in front of a
line break or at the end, then both give the same rules in the same order, or both are refused for
the same cause up to its offset. -/
theorem outcome_read_of_sameUpToLayout {s t : TokenStream}
    (h : Token.SameUpToLayout s.tokens t.tokens) :
    UpToOffsets Eq (Reader.outcome read s) (Reader.outcome read t) := by
  have hfaces : ∀ {first second}, Relation.EqvGen Token.Loosens first second →
      ∀ {s t : TokenStream}, s.tokens.map Token.face = first → t.tokens.map Token.face = second →
        UpToOffsets Eq (Reader.outcome read s) (Reader.outcome read t) := by
    intro first second h
    induction h with
    | rel first second hedit =>
      rintro s t rfl rfl
      exact outcome_read_of_respaced (Respaced.of_loosens hedit)
    | refl first =>
      intro s t hs ht
      have halike := Token.forall₂_alike_of_faces (hs.trans ht.symm)
      exact outcome_read_of_respaced (Respaced.of_alike halike)
    | symm first second _ ih => exact fun hs ht => (ih ht hs).symm
    | trans first middle second _ _ ih ih' =>
      -- the list in between is that of some tokens too
      have hmiddle : (middle.map fun face => (⟨face.1, 0, 0, face.2⟩ : Token)).map Token.face =
          middle := by
        rw [List.map_map]
        exact List.map_id middle
      intro s t hs ht
      exact (ih hs (t := ⟨_, 0⟩) hmiddle).trans (ih' (s := ⟨_, 0⟩) hmiddle ht)
  exact hfaces h rfl rfl

/-- A comment at the end of the line goes, and a blank comes between a count and its element. -/
theorem outcome_read_of_sameUpToLayout_count :
    ∃ s t, TokenStream.ofSource ['a', '=', '2', 'b', ';', 'x', '\n'] = .ok s ∧
      TokenStream.ofSource ['a', '=', '2', ' ', 'b', '\n'] = .ok t ∧
      Token.SameUpToLayout s.tokens t.tokens ∧
      Reader.outcome read s =
        .ok ⟨[(['A'], ⟨['A'], .repetition ⟨2, some 2⟩ (.reference ['B'])⟩)]⟩ ∧
      UpToOffsets Eq (Reader.outcome read s) (Reader.outcome read t) := by
  refine ⟨_, _, rfl, rfl, ?layout, rfl, outcome_read_of_sameUpToLayout ?layout⟩
  have hcomment := @Token.Loosens.comment
    [(.ident, ['a']), (.equal, ['=']), (.number, ['2']), (.ident, ['b'])] [(.lineBreak, ['\n'])]
    [';', 'x'] (.inr rfl)
  have hblank := @Token.Loosens.blank [(.ident, ['a']), (.equal, ['=']), (.number, ['2'])]
    [(.ident, ['b']), (.lineBreak, ['\n'])] [' '] (by decide)
  exact .trans _ _ _ (.symm _ _ (.rel _ _ hcomment)) (.rel _ _ hblank)

end RuleTable

end AugmentedBnf
