import AugmentedBnf.Proofs.Expression.Steps
import AugmentedBnf.Proofs.Token.Layout

/-! # Reading right-hand sides does not depend on the layout

Two readers are related if they keep together on tokens that differ in layout. What they need of the
tokens and what they leave is a relation of its own, because a reader that looks at a token must have
passed over the trivia in front of it. One lemma for each reader, from taking a token up to whole
right-hand sides.
-/
namespace AugmentedBnf

open Token (past headKind? Respaced Aligned Near)

namespace Reader

variable {α β γ δ : Type} {Q Q' Q'' : List Token → List Token → Prop} {R : α → β → Prop}
  {S : γ → δ → Prop}

/-- Both results are values and rests that are related, or refusals for the same cause up to its
offset. -/
inductive Agree (Q : List Token → List Token → Prop) (R : α → β → Prop) :
    EStateM.Result CompileError TokenStream α → EStateM.Result CompileError TokenStream β → Prop where
  | ok {a : α} {b : β} {s t : TokenStream} (value : R a b) (rest : Q s.tokens t.tokens) :
      Agree Q R (.ok a s) (.ok b t)
  | error {x y : CompileError} {s t : TokenStream} (cause : x.unplaced = y.unplaced) :
      Agree Q R (.error x s) (.error y t)

/-- From tokens in the first relation the readers return values that are related and leave tokens in
the second relation, or both are refused for the same cause up to its offset. -/
def Related (Q Q' : List Token → List Token → Prop) (R : α → β → Prop) (x : Reader α)
    (y : Reader β) : Prop :=
  ∀ s t : TokenStream, Q s.tokens t.tokens → Agree Q' R (x s) (y t)

namespace Related

theorem pure {a : α} {b : β} (h : R a b) : Related Q Q R (pure a) (pure b) := fun _ _ hq => .ok h hq

theorem throw {x y : CompileError} (h : x.unplaced = y.unplaced) :
    Related Q Q' R (throw x) (throw y) := fun _ _ _ => .error h

theorem bind {x : Reader α} {y : Reader β} {f : α → Reader γ} {g : β → Reader δ}
    (hxy : Related Q Q' R x y) (hfg : ∀ a b, R a b → Related Q' Q'' S (f a) (g b)) :
    Related Q Q'' S (x >>= f) (y >>= g) := by
  intro s t hq
  have hfirst := hxy s t hq
  simp only [Bind.bind, EStateM.bind]
  generalize x s = result, y t = result' at hfirst
  cases hfirst with
  | ok value rest => exact hfg _ _ value _ _ rest
  | error cause => exact .error cause

theorem bind_eq {x y : Reader α} {f : α → Reader γ} {g : α → Reader δ} (hxy : Related Q Q' Eq x y)
    (hfg : ∀ a, Related Q' Q'' S (f a) (g a)) : Related Q Q'' S (x >>= f) (y >>= g) := by
  refine hxy.bind ?_
  rintro a _ rfl
  exact hfg a

theorem aligned {x : Reader α} {y : Reader β} (h : Related Respaced Q R x y) :
    Related Aligned Q R x y := fun s t hq => h s t hq.respaced

theorem near {x : Reader α} {y : Reader β} (h : Related Respaced Q R x y) :
    Related Near Q R x y := fun s t hq => h s t hq.respaced

/-- The text of a token that is taken is the same unless it is a line break. -/
theorem consume (kind : Token.Kind) :
    Related Aligned Respaced (fun a b => kind ≠ .lineBreak → a = b) (consume kind)
      (consume kind) := by
  rintro ⟨as, size⟩ ⟨bs, size'⟩ hq
  cases hq with
  | nil => exact .error rfl
  | cons alike _ rest =>
    unfold Reader.consume
    dsimp only
    rw [← alike.kind]
    split
    · rename_i hkind
      exact .ok (fun hne => alike.text (hkind ▸ hne)) rest
    · exact .error rfl

theorem consume_bind (kind : Token.Kind) {x : Reader γ} {y : Reader δ}
    (h : Related Respaced Q S x y) :
    Related Aligned Q S (Reader.consume kind >>= fun _ => x) (Reader.consume kind >>= fun _ => y) :=
  .bind (.consume kind) fun _ _ _ => h

theorem consume_text {kind : Token.Kind} (hkind : kind ≠ .lineBreak) {f g : Text → Reader γ}
    {S : γ → γ → Prop} (h : ∀ text, Related Respaced Q S (f text) (g text)) :
    Related Aligned Q S (Reader.consume kind >>= f) (Reader.consume kind >>= g) := by
  refine .bind (.consume kind) ?_
  intro text text' htext
  rw [htext hkind]
  exact h text'

theorem skip {kinds : List Token.Kind} (h : ∀ as bs, Q as bs → Q' (past kinds as) (past kinds bs)) :
    Related Q Q' Eq (skip kinds) (skip kinds) := fun _ _ hq => .ok rfl (h _ _ hq)

theorem skipInline : Related Respaced Aligned Eq (Reader.skip Token.Kind.inlineTrivia)
    (Reader.skip Token.Kind.inlineTrivia) :=
  .skip fun _ _ h => h.aligned_past (by decide) (by decide)

theorem skipTrivia : Related Respaced Aligned Eq (Reader.skip Token.Kind.trivia)
    (Reader.skip Token.Kind.trivia) :=
  .skip fun _ _ h => h.aligned_past (by decide) (by decide)

theorem skipBlanks : Related Respaced Near Eq (Reader.skip [.whitespace])
    (Reader.skip [.whitespace]) := .skip fun _ _ h => h.near_past

theorem isAt_bind {kind : Token.Kind} {f : Bool → Reader γ} {g : Bool → Reader δ}
    (hf : ∀ found, Related Aligned Q S (f found) (g found)) :
    Related Aligned Q S (isAt kind >>= f) (isAt kind >>= g) := by
  rintro ⟨as, size⟩ ⟨bs, size'⟩ hq
  rw [bind_of_ok (isAt_apply _ _ _), bind_of_ok (isAt_apply _ _ _), ← hq.headKind?_eq]
  exact hf _ _ _ hq

/-- A token that is there in both shows that no comment is in front of it. -/
theorem isAt_bind_near {kind : Token.Kind} (hline : kind ≠ .lineBreak) (hcomment : kind ≠ .comment)
    {f : Bool → Reader γ} {g : Bool → Reader δ} (hyes : Related Aligned Q S (f true) (g true))
    (hno : Related Near Q S (f false) (g false)) :
    Related Near Q S (isAt kind >>= f) (isAt kind >>= g) := by
  rintro ⟨as, size⟩ ⟨bs, size'⟩ hq
  rw [bind_of_ok (isAt_apply _ _ _), bind_of_ok (isAt_apply _ _ _)]
  have hiff := hq.headKind?_eq_iff hline hcomment
  by_cases hhead : headKind? as = some kind
  · rw [decide_eq_true hhead, decide_eq_true (hiff.mp hhead)]
    exact hyes _ _ (hq.aligned_of_headKind? hline hhead)
  · rw [decide_eq_false hhead, decide_eq_false (mt hiff.mpr hhead)]
    exact hno _ _ hq

end Related

/-- What the reader returns, without the tokens that it leaves. -/
def outcome (x : Reader α) (stream : TokenStream) : Except CompileError α :=
  match x stream with
  | .ok a _ => .ok a
  | .error cause _ => .error cause

theorem Related.outcome {x : Reader α} {y : Reader β} {s t : TokenStream} (h : Related Q Q' R x y)
    (hq : Q s.tokens t.tokens) : UpToOffsets R (x.outcome s) (y.outcome t) := by
  have hagree := h s t hq
  unfold Reader.outcome
  generalize x s = result, y t = result' at hagree ⊢
  cases hagree with
  | ok value => exact value
  | error cause => exact cause

/-- The layout of the tokens in front of the reader does not matter to it. -/
def LayoutFree (x : Reader α) : Prop := Related Respaced Respaced Eq x x

end Reader

theorem Literal.related_read : Reader.Related Aligned Respaced Eq Literal.read Literal.read := by
  rintro ⟨as, size⟩ ⟨bs, size'⟩ hq
  cases hq with
  | nil => exact .error rfl
  | @cons a b as bs alike indent rest =>
    have hlexeme : ofLexeme? a.kind a.text = ofLexeme? b.kind b.text := by
      rw [← alike.kind]
      by_cases hbreak : a.kind = .lineBreak
      · rw [hbreak]
        rfl
      · rw [alike.text hbreak]
    unfold Literal.read
    dsimp only
    rw [← hlexeme]
    split
    · exact .error (congrArg (CompileError.unsupportedToken · 0) alike.kind)
    · exact .ok rfl rest
    · exact .error rfl

namespace Expression

open Reader (Related LayoutFree)

section Counts

/-- Reads the star of a count and the number behind it, if there is one. -/
def readMaximum (min : Nat) : Reader Bounds := do
  readStar
  if ← Reader.isAt .number then
    let max ← readNumber
    return ⟨min, some max⟩
  else return ⟨min, none⟩

/-- Reads a count with one token at a time in view. -/
def readCount : Reader Bounds := do
  if ← Reader.isAt .number then
    let min ← readMinimum
    if ← Reader.isAt .star then readMaximum min else return ⟨min, some min⟩
  else if ← Reader.isAt .star then readMaximum 0 else return .once

variable {tokens : List Token} {size : Nat}

theorem readMaximum_apply {star : Token} (hstar : star.kind = .star) (min : Nat) (r : List Token) :
    readMaximum min ⟨star :: r, size⟩ =
      (if headKind? (past [.whitespace] r) = some .number then do
          readStar
          return ⟨min, some (← readNumber)⟩
        else do
          readStar
          return ⟨min, none⟩ : Reader Bounds) ⟨star :: r, size⟩ := by
  have hmark : readStar ⟨star :: r, size⟩ = .ok () ⟨past [.whitespace] r, size⟩ :=
    readStar_eq_ok_iff.mpr ⟨_, _, rfl, hstar, rfl⟩
  rw [readMaximum, Reader.bind_of_ok hmark, Reader.bind_of_ok (Reader.isAt_apply _ _ _)]
  by_cases hnumber : headKind? (past [.whitespace] r) = some .number
  · rw [if_pos hnumber, if_pos (decide_eq_true hnumber), Reader.bind_of_ok hmark]
  · rw [if_neg hnumber, if_neg (by simpa using hnumber), Reader.bind_of_ok hmark]

theorem readBounds_form_number {first : Token} (hfirst : first.kind = .number) (r : List Token) :
    readBounds (form (first :: r)) ⟨first :: r, size⟩ = (do
      let min ← readMinimum
      if ← Reader.isAt .star then readMaximum min else return ⟨min, some min⟩ : Reader Bounds)
      ⟨first :: r, size⟩ := by
  have hrest : ∀ {min : Nat} {stream : TokenStream},
      readMinimum ⟨first :: r, size⟩ = .ok min stream → stream = ⟨past [.whitespace] r, size⟩ := by
    intro min stream hmin
    obtain ⟨_, _, hcons, -, rfl⟩ := readMinimum_eq_ok_iff.mp hmin
    cases hcons
    rfl
  rw [form_number hfirst]
  cases hr : past [.whitespace] r with
  | nil =>
    refine Reader.bind_congr fun min stream hmin => ?_
    rw [hrest hmin, hr]
    rfl
  | cons star r' =>
    dsimp only
    by_cases hstar : star.kind = .star
    · have hhead : headKind? (star :: r') = some .star := congrArg some hstar
      rw [if_neg (not_not_intro hstar)]
      split
      · rename_i hnumber
        refine Reader.bind_congr fun min stream hmin => ?_
        rw [hrest hmin, hr, Reader.bind_of_ok (Reader.isAt_apply _ _ _),
          if_pos (decide_eq_true hhead), readMaximum_apply hstar, if_pos hnumber]
      · rename_i hnumber
        refine Reader.bind_congr fun min stream hmin => ?_
        rw [hrest hmin, hr, Reader.bind_of_ok (Reader.isAt_apply _ _ _),
          if_pos (decide_eq_true hhead), readMaximum_apply hstar, if_neg hnumber]
    · have hhead : headKind? (star :: r') ≠ some .star := fun heq => hstar (Option.some.inj heq)
      rw [if_pos hstar]
      refine Reader.bind_congr fun min stream hmin => ?_
      rw [hrest hmin, hr, Reader.bind_of_ok (Reader.isAt_apply _ _ _),
        if_neg (by simpa using hhead)]

theorem readBounds_form_star {star : Token} (hstar : star.kind = .star) (r : List Token) :
    readBounds (form (star :: r)) ⟨star :: r, size⟩ = readMaximum 0 ⟨star :: r, size⟩ := by
  rw [form_star hstar, readMaximum_apply hstar]
  split <;> rfl

/-- Three tokens in view show nothing that the next token does not show in its turn. -/
theorem readBounds_form (hblank : headKind? tokens ≠ some .whitespace) :
    readBounds (form tokens) ⟨tokens, size⟩ = readCount ⟨tokens, size⟩ := by
  rw [readCount, Reader.bind_of_ok (Reader.isAt_apply _ _ _)]
  by_cases hnumber : headKind? tokens = some .number
  · rw [if_pos (decide_eq_true hnumber)]
    cases tokens with
    | nil => cases hnumber
    | cons first r => exact readBounds_form_number (Option.some.inj hnumber) r
  · rw [if_neg (by simpa using hnumber), Reader.bind_of_ok (Reader.isAt_apply _ _ _)]
    by_cases hstar : headKind? tokens = some .star
    · rw [if_pos (decide_eq_true hstar)]
      cases tokens with
      | nil => cases hstar
      | cons star r => exact readBounds_form_star (Option.some.inj hstar) r
    · rw [if_neg (by simpa using hstar), form_other hblank hnumber hstar, readBounds]

theorem readRepetition_eq (inside : Reader Expression) :
    readRepetition inside = (do
      Reader.skip [.whitespace]
      let bounds ← readCount
      let operand ← readElement inside
      return repetition bounds operand.simplify) := by
  funext ⟨tokens, size⟩
  have hblank := headKind?_past_ne (List.mem_singleton_self Token.Kind.whitespace) tokens
  rw [readRepetition, Reader.bind_of_ok (Reader.skip_apply _ _ _),
    Reader.bind_of_ok (Reader.get_apply _), Reader.bind_of_ok (Reader.skip_apply _ _ _)]
  exact Reader.bind_congr_left (readBounds_form hblank)

end Counts

section Levels

theorem related_readNumber : Related Aligned Respaced Eq readNumber readNumber := by
  refine .consume_text (by decide) fun text => ?_
  cases Text.unsigned? 10 Text.limit64 text with
  | none => exact .throw rfl
  | some n => exact .pure rfl

theorem related_readMinimum : Related Aligned Near Eq readMinimum readMinimum :=
  .bind_eq related_readNumber fun _ => .bind_eq .skipBlanks fun _ => .pure rfl

theorem related_readStar : Related Aligned Near Eq readStar readStar :=
  .consume_bind .star .skipBlanks

theorem related_readMaximum (min : Nat) :
    Related Aligned Respaced Eq (readMaximum min) (readMaximum min) := by
  refine .bind_eq related_readStar fun _ => .isAt_bind_near (by decide) (by decide) ?_ ?_
  · exact .bind_eq related_readNumber fun _ => .pure rfl
  · exact .near (.pure rfl)

theorem related_readCount : Related Near Respaced Eq readCount readCount := by
  refine .isAt_bind_near (by decide) (by decide) ?_ ?_
  · refine .bind_eq related_readMinimum fun min => ?_
    exact .isAt_bind_near (by decide) (by decide) (related_readMaximum min) (.near (.pure rfl))
  · exact .isAt_bind_near (by decide) (by decide) (related_readMaximum 0) (.near (.pure rfl))

variable {inside : Reader Expression}

theorem related_readEnclosed (hinside : LayoutFree inside) (left right : Token.Kind) :
    Related Aligned Respaced Eq (readEnclosed inside left right)
      (readEnclosed inside left right) := by
  refine .consume_bind left (.bind_eq hinside fun inner => .bind_eq .skipTrivia fun _ => ?_)
  exact .consume_bind right (.pure rfl)

/-- Which element is read is decided by the first token behind the blanks and comments. -/
theorem layoutFree_readElement (hinside : LayoutFree inside) : LayoutFree (readElement inside) := by
  refine .bind_eq .skipInline fun _ => ?_
  rintro ⟨as, size⟩ ⟨bs, size'⟩ (hq : Aligned as bs)
  rw [Reader.bind_of_ok (Reader.get_apply _), Reader.bind_of_ok (Reader.get_apply _)]
  cases hq with
  | nil => exact .error rfl
  | @cons a b as bs alike indent rest =>
    have hq : Aligned (a :: as) (b :: bs) := .cons alike indent rest
    dsimp only [TokenStream.peek?, List.head?_cons]
    rw [← alike.kind]
    split
    · exact Related.bind_eq Literal.related_read (fun _ => .pure rfl) _ _ hq
    · cases a.kind with
      | ident => exact Related.consume_text (by decide) (fun _ => .pure rfl) _ _ hq
      | prose => exact Related.consume_text (by decide) (fun _ => .pure rfl) _ _ hq
      | leftParen =>
        exact Related.bind_eq (related_readEnclosed hinside _ _) (fun _ => .pure rfl) _ _ hq
      | leftBracket =>
        exact Related.bind_eq (related_readEnclosed hinside _ _) (fun _ => .pure rfl) _ _ hq
      | _ => exact .error rfl

theorem layoutFree_readRepetition (hinside : LayoutFree inside) :
    LayoutFree (readRepetition inside) := by
  unfold LayoutFree
  rw [readRepetition_eq]
  refine .bind_eq .skipBlanks fun _ => .bind_eq related_readCount fun bounds => ?_
  exact .bind_eq (layoutFree_readElement hinside) fun operand => .pure rfl

/-- A continued line is taken with its first blank, behind which the lists may differ again. -/
theorem related_fold {α : Type} {x y : Reader α} {as bs : List Token} {size size' : Nat}
    {R : α → α → Prop} (h : Related Respaced Respaced R x y) (hq : Aligned as bs)
    (hturn : turn as = .fold) :
    Reader.Agree Respaced R
      ((Reader.consume .lineBreak >>= fun _ => Reader.consume .whitespace >>= fun _ => x) ⟨as, size⟩)
      ((Reader.consume .lineBreak >>= fun _ => Reader.consume .whitespace >>= fun _ => y)
        ⟨bs, size'⟩) := by
  obtain ⟨line, indent, as, rfl, hline, hindent⟩ := turn_eq_fold_iff.mp hturn
  obtain ⟨line', indent', bs, rfl, hline', hindent'⟩ := turn_eq_fold_iff.mp (hq.turn_eq ▸ hturn)
  rw [Reader.bind_of_ok (Reader.consume_cons hline _ _),
    Reader.bind_of_ok (Reader.consume_cons hindent _ _),
    Reader.bind_of_ok (Reader.consume_cons hline' _ _),
    Reader.bind_of_ok (Reader.consume_cons hindent' _ _)]
  cases hq with
  | cons _ _ rest => exact h _ _ (rest.of_blanks hindent hindent')

theorem layoutFree_readOperands (hinside : LayoutFree inside) (count : Nat) :
    LayoutFree (readOperands inside count) := by
  induction count with
  | zero => exact .pure rfl
  | succ count ih =>
    refine .bind_eq .skipInline fun _ => ?_
    rintro ⟨as, size⟩ ⟨bs, size'⟩ (hq : Aligned as bs)
    rw [Reader.bind_of_ok (Reader.get_apply _), Reader.bind_of_ok (Reader.get_apply _)]
    have hturn : Turn.detect ((TokenStream.ahead ⟨as, size⟩ 2 []).map (·.kind)) =
        Turn.detect ((TokenStream.ahead ⟨bs, size'⟩ 2 []).map (·.kind)) := hq.turn_eq
    rw [← hturn]
    cases hgoes : Turn.detect ((TokenStream.ahead ⟨as, size⟩ 2 []).map (·.kind)) with
    | stop => exact .ok rfl hq.respaced
    | fold => exact related_fold ih hq hgoes
    | operand =>
      refine Related.bind_eq (layoutFree_readRepetition hinside) (fun operand => ?_) _ _ hq.respaced
      exact .bind_eq ih fun rest => .pure rfl

/-- The bounds on the steps are different numbers, but a number above both serves both. -/
theorem layoutFree_of_stepsLeft {α : Type} {x : Nat → Reader α}
    (hstable : ∀ {tokens size count count'}, tokens.length < count → tokens.length < count' →
      x count ⟨tokens, size⟩ = x count' ⟨tokens, size⟩)
    (h : ∀ count, LayoutFree (x count)) : LayoutFree (stepsLeft >>= x) := by
  rintro ⟨as, size⟩ ⟨bs, size'⟩ hq
  have hbound : as.length < as.length + bs.length + 1 := by omega
  have hbound' : bs.length < as.length + bs.length + 1 := by omega
  rw [Reader.bind_of_ok (stepsLeft_apply _ _), Reader.bind_of_ok (stepsLeft_apply _ _),
    hstable (Nat.lt_succ_self _) hbound, hstable (Nat.lt_succ_self _) hbound']
  exact h _ _ _ hq

theorem layoutFree_readConcatenation (hsound : Sound inside) (hinside : LayoutFree inside) :
    LayoutFree (readConcatenation inside) := by
  refine layoutFree_of_stepsLeft ?_ fun count => ?_
  · intro tokens size count count' hcount hcount'
    exact Reader.bind_congr_left (readOperands_congr (fun _ _ _ => rfl) hsound hcount hcount')
  · exact .bind_eq (layoutFree_readOperands hinside count) fun _ => .pure rfl

theorem layoutFree_readAlternatives (hsound : Sound inside) (hinside : LayoutFree inside)
    (count : Nat) : LayoutFree (readAlternatives inside count) := by
  induction count with
  | zero => exact .pure rfl
  | succ count ih =>
    refine .bind_eq .skipInline fun _ => .isAt_bind fun slash => ?_
    cases slash with
    | true =>
      refine .consume_bind .slash (.bind_eq .skipInline fun _ => ?_)
      refine .bind_eq (layoutFree_readConcatenation hsound hinside).aligned fun operand => ?_
      exact .bind_eq ih fun rest => .pure rfl
    | false => exact .aligned (.pure rfl)

theorem layoutFree_readAlternation (hsound : Sound inside) (hinside : LayoutFree inside) :
    LayoutFree (readAlternation inside) := by
  refine .bind_eq (layoutFree_readConcatenation hsound hinside) fun first => ?_
  refine layoutFree_of_stepsLeft ?_ fun count => ?_
  · intro tokens size count count' hcount hcount'
    exact Reader.bind_congr_left (readAlternatives_congr (fun _ _ _ => rfl) hsound hcount hcount')
  · exact .bind_eq (layoutFree_readAlternatives hsound hinside count) fun _ => .pure rfl

theorem layoutFree_readNested (depth : Nat) : LayoutFree (readNested depth) := by
  induction depth with
  | zero => exact .throw rfl
  | succ depth ih =>
    exact .bind_eq (layoutFree_readAlternation (sound_readNested depth) ih) fun _ => .pure rfl

theorem layoutFree_read : LayoutFree read :=
  layoutFree_of_stepsLeft (fun hdepth hdepth' => readNested_congr hdepth hdepth') layoutFree_readNested

theorem layoutFree_readMore (existing : Expression) : LayoutFree (readMore existing) :=
  .bind_eq .skipTrivia fun _ => .bind_eq layoutFree_read.aligned fun _ => .pure rfl

end Levels

end Expression

end AugmentedBnf
