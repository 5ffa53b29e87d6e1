import AugmentedBnf.Token.IndexedStream
import AugmentedBnf.Proofs.Token.Cuts

/-! # Reading by index

Whatever the tokens are, a reader by index does not go back and does not come past their end. An index
inside stands for the stream of the tokens that follow it. Where the tokens are cuts of the source, a
reader by index ends like a reader of that stream, so all that it cuts is there. Readers that are made of
such readers in the same way are such readers again.
-/
namespace AugmentedBnf

namespace IndexedStream

/-- The stream of the tokens from the index on. -/
def toStream (s : IndexedStream) : TokenStream := ⟨s.tokens.drop s.index, s.source.byteSize⟩

/-- The index is not past the end, and the tokens are cuts of the source. -/
structure Sound (s : IndexedStream) : Prop where
  index_le : s.index ≤ s.tokens.length
  cuts : ∀ token ∈ s.tokens, token.CutFrom s.source

/-- The other place is among the same tokens and not before this one, and its index is not past their
end. -/
structure Reaches (s s' : IndexedStream) : Prop where
  source : s'.source = s.source
  tokens : s'.tokens = s.tokens
  forward : s.index ≤ s'.index
  inside : s'.index ≤ s'.tokens.length

namespace Reaches

variable {s s' s'' : IndexedStream}

theorem refl (h : s.index ≤ s.tokens.length) : s.Reaches s := ⟨rfl, rfl, le_rfl, h⟩

theorem trans (h : s.Reaches s') (h' : s'.Reaches s'') : s.Reaches s'' :=
  ⟨h'.source.trans h.source, h'.tokens.trans h.tokens, h.forward.trans h'.forward, h'.inside⟩

theorem sound (h : s.Reaches s') (hs : s.Sound) : s'.Sound where
  index_le := h.inside
  cuts := by
    rw [h.source, h.tokens]
    exact hs.cuts

end Reaches

section Place

variable {s : IndexedStream} {token : Token}

@[simp] theorem peek?_toStream (s : IndexedStream) : s.toStream.peek? = s.peek? := List.head?_drop

@[simp] theorem length_tokens_toStream (s : IndexedStream) :
    s.toStream.tokens.length = s.remaining := List.length_drop

@[simp] theorem isOpen_toStream (s : IndexedStream) : s.toStream.isOpen = s.isOpen := by
  rw [TokenStream.isOpen, isOpen, Bool.eq_iff_iff]
  simp [toStream]

@[simp] theorem isAt_toStream (s : IndexedStream) (kind : Token.Kind) :
    s.toStream.isAt kind = s.isAt kind := by
  rw [isAt, ← peek?_toStream, TokenStream.isAt, TokenStream.peek?]
  cases s.toStream.tokens <;> rfl

/-- The slice from the index on is out of range exactly where the index is past the end. -/
theorem ahead?_eq_none_iff {amount : Nat} {passing : List Token.Kind} :
    s.ahead? amount passing = none ↔ s.tokens.length < s.index := by
  simp [ahead?, rest?]

theorem aheadIn_eq (passing : List Token.Kind) (amount : Nat) (tokens : List Token) :
    TokenStream.aheadIn passing amount tokens =
      (tokens.filter fun token => !passing.contains token.kind).take amount := by
  induction tokens generalizing amount with
  | nil => cases amount <;> rfl
  | cons token rest ih =>
    cases amount with
    | zero => rfl
    | succ amount =>
      rw [TokenStream.aheadIn, List.filter_cons]
      cases passing.contains token.kind with
      | true => exact ih (amount + 1)
      | false => exact congrArg (token :: ·) (ih amount)

theorem ahead?_eq (h : s.index ≤ s.tokens.length) (amount : Nat) (passing : List Token.Kind) :
    s.ahead? amount passing = some (s.toStream.ahead amount passing) := by
  rw [ahead?, rest?, if_pos h, Option.map_some, TokenStream.ahead, aheadIn_eq, toStream]

/-- Where a token comes next, the index is in front of it. -/
theorem of_peek? (h : s.peek? = some token) : s.index < s.tokens.length ∧ token ∈ s.tokens ∧
    s.toStream = ⟨token :: s.tokens.drop (s.index + 1), s.source.byteSize⟩ := by
  obtain ⟨hindex, htoken⟩ := List.getElem?_eq_some_iff.mp h
  refine ⟨hindex, List.mem_of_getElem? h, ?_⟩
  rw [toStream, List.drop_eq_getElem_cons hindex, htoken]

theorem toStream_of_peek?_eq_none (h : s.peek? = none) : s.toStream = ⟨[], s.source.byteSize⟩ := by
  rw [toStream, List.drop_eq_nil_of_le (List.getElem?_eq_none_iff.mp h)]

theorem reaches_advance (h : s.peek? = some token) : s.Reaches s.advance :=
  ⟨rfl, rfl, Nat.le_succ _, (of_peek? h).1⟩

theorem reaches_skip (h : s.index ≤ s.tokens.length) (kinds : List Token.Kind) :
    s.Reaches (s.skip kinds) := by
  fun_induction skip kinds s with
  | case1 s => exact .refl h
  | case2 s token hnext _ ih => exact (reaches_advance hnext).trans (ih (of_peek? hnext).1)
  | case3 s => exact .refl h

/-- Passing over tokens moves the index to where the stream goes on. -/
theorem toStream_skip (s : IndexedStream) (kinds : List Token.Kind) :
    (s.skip kinds).toStream = s.toStream.skip kinds := by
  fun_induction skip kinds s with
  | case1 s hnext => rw [toStream_of_peek?_eq_none hnext, TokenStream.skip, List.dropWhile_nil]
  | case2 s token hnext hkind ih =>
    simp only [ih, (of_peek? hnext).2.2, TokenStream.skip, List.dropWhile_cons, if_pos hkind]
    rfl
  | case3 s token hnext hkind =>
    simp only [(of_peek? hnext).2.2, TokenStream.skip, List.dropWhile_cons, if_neg hkind]

end Place

end IndexedStream

namespace IndexedReader

open IndexedStream (Reaches Sound)

variable {α β γ : Type}

section Runs

/-- Where a reader stops, at its end or before. -/
def stop : EStateM.Result Halt IndexedStream α → IndexedStream
  | .ok _ s => s
  | .error _ s => s

theorem bind_of_ok {x : IndexedReader α} {a : α} {s s' : IndexedStream} (h : x s = .ok a s')
    (f : α → IndexedReader β) : (x >>= f) s = f a s' := by
  simp only [Bind.bind, EStateM.bind, h]

theorem bind_of_error {x : IndexedReader α} {halt : Halt} {s s' : IndexedStream}
    (h : x s = .error halt s') (f : α → IndexedReader β) : (x >>= f) s = .error halt s' := by
  simp only [Bind.bind, EStateM.bind, h]

theorem bind_eq_ok {x : IndexedReader α} {f : α → IndexedReader β} {b : β} {s s' : IndexedStream}
    (h : (x >>= f) s = .ok b s') : ∃ a middle, x s = .ok a middle ∧ f a middle = .ok b s' := by
  cases hx : x s with
  | ok a middle =>
    rw [bind_of_ok hx] at h
    exact ⟨a, middle, rfl, h⟩
  | error halt middle =>
    rw [bind_of_error hx] at h
    cases h

theorem get_apply (s : IndexedStream) : (get : IndexedReader IndexedStream) s = .ok s s := rfl

theorem skip_apply (kinds : List Token.Kind) (s : IndexedStream) :
    skip kinds s = .ok () (s.skip kinds) := rfl

theorem consume_apply (kind : Token.Kind) (s : IndexedStream) :
    consume kind s = match s.peek? with
      | none => .error (.refused (.expected kind none s.source.byteSize)) s
      | some token =>
        if token.kind = kind then cut (s.source.slice? token.offset token.stop) s.advance
        else .error (.refused (.expected kind (some token.kind) token.offset)) s := by
  rw [consume, bind_of_ok (get_apply s)]
  cases s.peek? with
  | none => rfl
  | some token =>
    dsimp only
    split <;> rfl

/-- Where the index is not past the end, looking ahead gives what the stream gives. -/
theorem ahead_apply {s : IndexedStream} (hs : s.index ≤ s.tokens.length) (amount : Nat)
    (passing : List Token.Kind) :
    ahead amount passing s = .ok (s.toStream.ahead amount passing) s := by
  rw [ahead, bind_of_ok (get_apply s), IndexedStream.ahead?_eq hs]
  rfl

/-- Where a token comes next, its text is cut out of the source. -/
theorem consume_of_peek? {s : IndexedStream} {token : Token} (hs : s.Sound)
    (h : s.peek? = some token) : consume token.kind s = .ok token.text s.advance := by
  have hcut := (hs.cuts token (IndexedStream.of_peek? h).2.1).text
  simp only [consume_apply, h, hcut, if_true]
  rfl

end Runs

/-- From an index that is not past the end, the reader stops at such an index and does not go back,
whatever the tokens are. -/
def Forward (r : IndexedReader α) : Prop :=
  ∀ s : IndexedStream, s.index ≤ s.tokens.length → s.Reaches (stop (r s))

namespace Forward

variable {r : IndexedReader α} {f : α → IndexedReader β}

theorem of_ok {a : α} {s s' : IndexedStream} (h : Forward r) (hs : s.index ≤ s.tokens.length)
    (hr : r s = .ok a s') : s.Reaches s' := by
  have hstop := h s hs
  rwa [hr] at hstop

theorem pure (a : α) : Forward (Pure.pure a) := fun _ hs => .refl hs

theorem refuse (cause : CompileError) : Forward (α := α) (refuse cause) := fun _ hs => .refl hs

theorem cut (a : Option α) : Forward (cut a) := by
  cases a <;> exact fun _ hs => .refl hs

theorem accept (result : Except CompileError α) : Forward (accept result) := by
  cases result <;> exact fun _ hs => .refl hs

theorem bind (h : Forward r) (hf : ∀ a, Forward (f a)) : Forward (r >>= f) := by
  intro s hs
  cases hr : r s with
  | ok a s' =>
    have hreached := h.of_ok hs hr
    rw [bind_of_ok hr]
    exact hreached.trans (hf a s' hreached.inside)
  | error halt s' =>
    have hstop := h s hs
    rw [hr] at hstop
    rw [bind_of_error hr]
    exact hstop

theorem get {f : IndexedStream → IndexedReader β} (h : ∀ s, Forward (f s)) :
    Forward (MonadState.get >>= f) := fun s hs => h s s hs

theorem skip (kinds : List Token.Kind) : Forward (skip kinds) :=
  fun _ hs => IndexedStream.reaches_skip hs kinds

theorem consume (kind : Token.Kind) : Forward (consume kind) := by
  intro s hs
  rw [consume_apply]
  cases hnext : s.peek? with
  | none => exact .refl hs
  | some token =>
    dsimp only
    split
    · have hadvance := IndexedStream.reaches_advance hnext
      exact hadvance.trans (cut _ _ hadvance.inside)
    · exact .refl hs

end Forward

/-- The reader goes forward, and where it comes to its end it has moved the index on. -/
structure Moves (r : IndexedReader α) : Prop where
  forward : Forward r
  index_lt : ∀ s a s', s.index ≤ s.tokens.length → r s = .ok a s' → s.index < s'.index

namespace Moves

variable {r : IndexedReader α} {f : α → IndexedReader β}

theorem refuse (cause : CompileError) : Moves (α := α) (refuse cause) := ⟨.refuse cause, nofun⟩

theorem consume (kind : Token.Kind) : Moves (consume kind) where
  forward := .consume kind
  index_lt s text s' hs h := by
    rw [consume_apply] at h
    split at h
    · cases h
    · split at h
      · cases hcut : s.source.slice? _ _ with
        | none =>
          rw [hcut] at h
          cases h
        | some _ =>
          rw [hcut] at h
          cases h
          exact Nat.lt_succ_self _
      · cases h

/-- What reads on behind a reader that moves the index moves it too. -/
theorem bind (h : Moves r) (hf : ∀ a, Forward (f a)) : Moves (r >>= f) where
  forward := h.forward.bind hf
  index_lt s b s' hs hread := by
    obtain ⟨a, middle, hfirst, hrest⟩ := bind_eq_ok hread
    have hreached := h.forward.of_ok hs hfirst
    exact Nat.lt_of_lt_of_le (h.index_lt s a middle hs hfirst)
      ((hf a).of_ok hreached.inside hrest).forward

theorem of_bind (h : Forward r) (hf : ∀ a, Moves (f a)) : Moves (r >>= f) where
  forward := h.bind fun a => (hf a).forward
  index_lt s b s' hs hread := by
    obtain ⟨a, middle, hfirst, hrest⟩ := bind_eq_ok hread
    have hreached := h.of_ok hs hfirst
    exact Nat.lt_of_le_of_lt hreached.forward ((hf a).index_lt middle b s' hreached.inside hrest)

theorem map (h : Moves r) (value : α → β) : Moves (value <$> r) := by
  rw [map_eq_pure_bind]
  exact h.bind fun a => .pure (value a)

theorem get {f : IndexedStream → IndexedReader β} (h : ∀ s, Moves (f s)) :
    Moves (MonadState.get >>= f) where
  forward := .get fun s => (h s).forward
  index_lt s a s' hs hread := (h s).index_lt s a s' hs hread

end Moves

/-- Reading by index ends like reading a stream, with the same result or for the same cause and in front
of the same tokens. Nothing was out of range. -/
inductive Answers : EStateM.Result Halt IndexedStream α →
    EStateM.Result CompileError TokenStream α → Prop where
  | ok {a : α} {s : IndexedStream} : Answers (.ok a s) (.ok a s.toStream)
  | refused {cause : CompileError} {s : IndexedStream} :
      Answers (.error (.refused cause) s) (.error cause s.toStream)

theorem Answers.of_toStream {cause : CompileError} {s : IndexedStream} {stream : TokenStream}
    (h : s.toStream = stream) :
    Answers (α := α) (.error (.refused cause) s) (.error cause stream) := by
  rw [← h]
  exact .refused

/-- The reader by index goes forward, and where the tokens are cuts of the source it ends like the reader
of streams. -/
structure Follows (r : IndexedReader α) (reader : Reader α) : Prop where
  forward : Forward r
  answers : ∀ s : IndexedStream, s.Sound → Answers (r s) (reader s.toStream)

namespace Follows

variable {r : IndexedReader α} {reader : Reader α}

theorem pure (a : α) : Follows (Pure.pure a) (Pure.pure a) := ⟨.pure a, fun _ _ => .ok⟩

theorem refuse (cause : CompileError) : Follows (α := α) (refuse cause) (throw cause) :=
  ⟨.refuse cause, fun _ _ => .refused⟩

/-- The reader by index may give at once the value that the other makes of its result later. -/
theorem bind_map {value : γ → α} {reader : Reader γ} {f : α → IndexedReader β} {g : γ → Reader β}
    (h : Follows r (value <$> reader)) (hforward : ∀ a, Forward (f a))
    (hf : ∀ c, Follows (f (value c)) (g c)) : Follows (r >>= f) (reader >>= g) where
  forward := h.forward.bind hforward
  answers s hs := by
    have hreached := h.forward s hs.index_le
    have hfirst := h.answers s hs
    simp only [Functor.map, EStateM.map] at hfirst
    simp only [Bind.bind, EStateM.bind]
    generalize r s = result at hreached hfirst ⊢
    cases hreader : reader s.toStream with
    | ok c rest =>
      rw [hreader] at hfirst
      cases hfirst with
      | ok => exact (hf c).answers _ (hreached.sound hs)
    | error cause rest =>
      rw [hreader] at hfirst
      cases hfirst with
      | refused => exact .refused

theorem bind {f : α → IndexedReader β} {g : α → Reader β} (h : Follows r reader)
    (hf : ∀ a, Follows (f a) (g a)) : Follows (r >>= f) (reader >>= g) := by
  have hid : Follows r (id <$> reader) := by rwa [id_map]
  exact hid.bind_map (fun a => (hf a).forward) hf

theorem map (h : Follows r reader) (value : α → β) : Follows (value <$> r) (value <$> reader) := by
  rw [map_eq_pure_bind, map_eq_pure_bind]
  exact h.bind fun a => pure (value a)

/-- Both may look at where they are. -/
theorem get {f : IndexedStream → IndexedReader β} {g : TokenStream → Reader β}
    (h : ∀ s, Follows (f s) (g s.toStream)) :
    Follows (MonadState.get >>= f) (MonadState.get >>= g) :=
  ⟨.get fun s => (h s).forward, fun s hs => (h s).answers s hs⟩

theorem skip (kinds : List Token.Kind) : Follows (skip kinds) (Reader.skip kinds) where
  forward := .skip kinds
  answers s _ := by
    change Answers _ (.ok () (s.toStream.skip kinds))
    rw [skip_apply, ← IndexedStream.toStream_skip]
    exact .ok

theorem isAt (kind : Token.Kind) : Follows (isAt kind) (Reader.isAt kind) :=
  get fun s => by
    rw [IndexedStream.isAt_toStream]
    exact pure _

/-- What goes on with the tokens ahead may look at them in the stream. -/
theorem ahead {amount : Nat} {passing : List Token.Kind} {f : List Token → IndexedReader β}
    {g : TokenStream → Reader β} (h : ∀ stream, Follows (f (stream.ahead amount passing)) (g stream)) :
    Follows (IndexedReader.ahead amount passing >>= f) (MonadState.get >>= g) where
  forward s hs := by
    rw [bind_of_ok (ahead_apply hs amount passing)]
    exact (h s.toStream).forward s hs
  answers s hs := by
    rw [bind_of_ok (ahead_apply hs.index_le amount passing)]
    exact (h s.toStream).answers s hs

/-- What goes on with the text of the token taken may use that it is one of the kind. -/
theorem consume_bind {kind : Token.Kind} {f : Text → IndexedReader β} {g : Text → Reader β}
    (hforward : ∀ text, Forward (f text))
    (h : ∀ source (token : Token), token.CutFrom source → token.kind = kind →
      Follows (f token.text) (g token.text)) :
    Follows (IndexedReader.consume kind >>= f) (Reader.consume kind >>= g) where
  forward := (Forward.consume kind).bind hforward
  answers s hs := by
    cases hnext : s.peek? with
    | none =>
      have hstream := IndexedStream.toStream_of_peek?_eq_none hnext
      simp only [Bind.bind, EStateM.bind, consume_apply, hnext, hstream, Reader.consume]
      exact .of_toStream hstream
    | some token =>
      obtain ⟨-, hmem, hstream⟩ := IndexedStream.of_peek? hnext
      by_cases hkind : token.kind = kind
      · subst hkind
        rw [bind_of_ok (consume_of_peek? hs hnext), hstream]
        simp only [Bind.bind, EStateM.bind, Reader.consume, if_true]
        exact (h s.source token (hs.cuts token hmem) rfl).answers s.advance
          ((IndexedStream.reaches_advance hnext).sound hs)
      · simp only [Bind.bind, EStateM.bind, consume_apply, hnext, hstream, Reader.consume, if_neg hkind]
        exact .of_toStream hstream

theorem consume (kind : Token.Kind) : Follows (IndexedReader.consume kind) (Reader.consume kind) := by
  rw [← bind_pure (IndexedReader.consume kind), ← bind_pure (Reader.consume kind)]
  exact consume_bind .pure fun _ token _ _ => pure token.text

end Follows

end IndexedReader

end AugmentedBnf
