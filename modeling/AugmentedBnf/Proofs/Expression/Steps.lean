import AugmentedBnf.Proofs.Expression.Reading

/-! # The bounds on steps and nesting never show

The readers of lists count their steps, and the reader of right-hand sides counts how deep brackets
are nested. What tokens spell is found whatever these bounds are, as long as they exceed the number of
tokens. Here is the same for everything else that a reader can do: with any two such bounds it returns
the same phrase, or is refused for the same cause and stops at the same token.
-/
namespace AugmentedBnf

open Token (past headKind? length_past_le)

namespace Reader

variable {α β : Type} {x y : Reader α} {f g : α → Reader β} {start start' : TokenStream}

theorem bind_congr_left (h : x start = y start') : (x >>= f) start = (y >>= f) start' := by
  simp only [bind, EStateM.bind, h]

theorem bind_congr (h : ∀ a rest, x start = .ok a rest → f a rest = g a rest) :
    (x >>= f) start = (x >>= g) start := by
  simp only [bind, EStateM.bind]
  cases hx : x start with
  | ok a rest => exact h a rest hx
  | error cause rest => rfl

theorem bind_of_error {cause : CompileError} {rest : TokenStream} (h : x start = .error cause rest)
    (f : α → Reader β) : (x >>= f) start = .error cause rest := by
  simp only [bind, EStateM.bind, h]

end Reader

namespace Expression

/-- The two readers do the same wherever fewer tokens are left than this. -/
def SameBelow (inside inside' : Reader Expression) (bound : Nat) : Prop :=
  ∀ tokens size, tokens.length < bound → inside ⟨tokens, size⟩ = inside' ⟨tokens, size⟩

section Congruence

variable {inside inside' : Reader Expression} {tokens : List Token} {size : Nat}

theorem SameBelow.mono {bound bound' : Nat} (h : SameBelow inside inside' bound)
    (hle : bound' ≤ bound) : SameBelow inside inside' bound' :=
  fun tokens size hlt => h tokens size (Nat.lt_of_lt_of_le hlt hle)

theorem readEnclosed_congr (h : SameBelow inside inside' tokens.length) (left right : Token.Kind) :
    readEnclosed inside left right ⟨tokens, size⟩ =
      readEnclosed inside' left right ⟨tokens, size⟩ := by
  refine Reader.bind_congr fun text rest hleft => ?_
  obtain ⟨token, r, rfl, -, -, rfl⟩ := Reader.consume_eq_ok_iff.mp hleft
  exact Reader.bind_congr_left (h r size (Nat.lt_succ_self _))

/-- What stands inside brackets is shorter than the element. -/
theorem readElement_congr (h : SameBelow inside inside' tokens.length) :
    readElement inside ⟨tokens, size⟩ = readElement inside' ⟨tokens, size⟩ := by
  cases hpast : past Token.Kind.inlineTrivia tokens with
  | nil =>
    rw [readElement, readElement, Reader.bind_of_ok (Reader.skip_apply _ _ _),
      Reader.bind_of_ok (Reader.skip_apply _ _ _), Reader.bind_of_ok (Reader.get_apply _),
      Reader.bind_of_ok (Reader.get_apply _), hpast]
    rfl
  | cons token r =>
    have hshort : (token :: r).length ≤ tokens.length := hpast ▸ length_past_le _ tokens
    have hinside := h.mono hshort
    rw [readElement_of_past hpast, readElement_of_past hpast]
    by_cases hliteral : token.kind.isLiteral = true
    · rw [if_pos hliteral, if_pos hliteral]
    · rw [if_neg hliteral, if_neg hliteral]
      cases token.kind with
      | leftParen => exact Reader.bind_congr_left (readEnclosed_congr hinside _ _)
      | leftBracket => exact Reader.bind_congr_left (readEnclosed_congr hinside _ _)
      | _ => rfl

theorem readRepetition_congr (h : SameBelow inside inside' tokens.length) :
    readRepetition inside ⟨tokens, size⟩ = readRepetition inside' ⟨tokens, size⟩ := by
  rw [readRepetition, readRepetition, Reader.bind_of_ok (Reader.skip_apply _ _ _),
    Reader.bind_of_ok (Reader.skip_apply _ _ _), Reader.bind_of_ok (Reader.get_apply _),
    Reader.bind_of_ok (Reader.get_apply _)]
  refine Reader.bind_congr fun bounds stream hbounds => ?_
  have hblank := headKind?_past_ne (List.mem_singleton_self Token.Kind.whitespace) tokens
  obtain ⟨r, rfl, hcounts⟩ := counts_of_readBounds hblank hbounds
  have hshort : r.length ≤ tokens.length :=
    Nat.le_trans hcounts.suffix.length_le (length_past_le _ tokens)
  exact Reader.bind_congr_left (readElement_congr (h.mono hshort))

/-- Each step of a sequence takes a token, so no count above the number of tokens is used up. -/
theorem readOperands_congr (h : SameBelow inside inside' tokens.length)
    (hsound : Sound inside) {count count' : Nat} (hcount : tokens.length < count)
    (hcount' : tokens.length < count') :
    readOperands inside count ⟨tokens, size⟩ = readOperands inside' count' ⟨tokens, size⟩ := by
  induction count generalizing tokens count' with
  | zero => omega
  | succ count ih =>
    obtain ⟨count', rfl⟩ := Nat.exists_eq_add_one_of_ne_zero (Nat.ne_zero_of_lt hcount')
    have hshort := length_past_le Token.Kind.inlineTrivia tokens
    rw [readOperands_succ, readOperands_succ]
    cases hturn : turn (past Token.Kind.inlineTrivia tokens) with
    | stop => rfl
    | fold =>
      obtain ⟨line, indent, r, hpast, hline, hindent⟩ := turn_eq_fold_iff.mp hturn
      rw [hpast] at hshort ⊢
      simp only [List.length_cons] at hshort
      dsimp only
      rw [Reader.bind_of_ok (Reader.consume_cons hline _ _),
        Reader.bind_of_ok (Reader.consume_cons hindent _ _),
        Reader.bind_of_ok (Reader.consume_cons hline _ _),
        Reader.bind_of_ok (Reader.consume_cons hindent _ _)]
      exact ih (h.mono (by omega)) (by omega) (by omega)
    | operand =>
      have hfirst : readRepetition inside ⟨past Token.Kind.inlineTrivia tokens, size⟩ = _ :=
        readRepetition_congr (h.mono hshort)
      refine Eq.trans (Reader.bind_congr fun operand stream hoperand => ?_)
        (Reader.bind_congr_left hfirst)
      obtain ⟨r, rfl, hspells⟩ := operand_of_readRepetition hsound hoperand
      have hless := hspells.operand_length_lt
      exact Reader.bind_congr_left (ih (h.mono (by omega)) (by omega) (by omega))

theorem readConcatenation_congr (h : SameBelow inside inside' tokens.length)
    (hsound : Sound inside) :
    readConcatenation inside ⟨tokens, size⟩ = readConcatenation inside' ⟨tokens, size⟩ := by
  rw [readConcatenation, readConcatenation, Reader.bind_of_ok (stepsLeft_apply _ _),
    Reader.bind_of_ok (stepsLeft_apply _ _)]
  exact Reader.bind_congr_left
    (readOperands_congr h hsound (Nat.lt_succ_self _) (Nat.lt_succ_self _))

theorem readAlternatives_congr (h : SameBelow inside inside' tokens.length)
    (hsound : Sound inside) {count count' : Nat} (hcount : tokens.length < count)
    (hcount' : tokens.length < count') :
    readAlternatives inside count ⟨tokens, size⟩ =
      readAlternatives inside' count' ⟨tokens, size⟩ := by
  induction count generalizing tokens count' with
  | zero => omega
  | succ count ih =>
    obtain ⟨count', rfl⟩ := Nat.exists_eq_add_one_of_ne_zero (Nat.ne_zero_of_lt hcount')
    by_cases hslash : headKind? (past Token.Kind.inlineTrivia tokens) = some .slash
    · obtain ⟨mark, r, hpast, hkind⟩ := Token.exists_of_headKind? hslash
      have hshort := (Token.suffix_of_past hpast).2
      have hless := length_past_le Token.Kind.inlineTrivia r
      rw [readAlternatives_of_slash hpast hkind, readAlternatives_of_slash hpast hkind]
      have hbranch : readConcatenation inside ⟨past Token.Kind.inlineTrivia r, size⟩ = _ :=
        readConcatenation_congr (h.mono (by omega)) hsound
      refine Eq.trans (Reader.bind_congr fun branch stream hread => ?_)
        (Reader.bind_congr_left hbranch)
      obtain ⟨es, r', -, rfl, hspells⟩ := operands_of_readConcatenation hsound hread
      have hlength := hspells.length_le
      exact Reader.bind_congr_left (ih (h.mono (by omega)) (by omega) (by omega))
    · rw [readAlternatives_of_ne hslash, readAlternatives_of_ne hslash]

theorem readAlternation_congr (h : SameBelow inside inside' tokens.length)
    (hsound : Sound inside) :
    readAlternation inside ⟨tokens, size⟩ = readAlternation inside' ⟨tokens, size⟩ := by
  refine Eq.trans (Reader.bind_congr fun first stream hfirst => ?_)
    (Reader.bind_congr_left (readConcatenation_congr h hsound))
  obtain ⟨es, r, -, rfl, hspells⟩ := operands_of_readConcatenation hsound hfirst
  have hshort := hspells.length_le
  rw [Reader.bind_of_ok (stepsLeft_apply _ _), Reader.bind_of_ok (stepsLeft_apply _ _)]
  exact Reader.bind_congr_left
    (readAlternatives_congr (h.mono (by omega)) hsound (Nat.lt_succ_self _) (Nat.lt_succ_self _))

end Congruence

/-- A bracket takes a token, so no depth above the number of tokens is used up. -/
theorem readNested_congr {depth depth' : Nat} {tokens : List Token} {size : Nat}
    (hdepth : tokens.length < depth) (hdepth' : tokens.length < depth') :
    readNested depth ⟨tokens, size⟩ = readNested depth' ⟨tokens, size⟩ := by
  induction depth generalizing depth' tokens size with
  | zero => omega
  | succ depth ih =>
    obtain ⟨depth', rfl⟩ := Nat.exists_eq_add_one_of_ne_zero (Nat.ne_zero_of_lt hdepth')
    have hinside : SameBelow (readNested depth) (readNested depth') tokens.length :=
      fun r size hless => ih (by omega) (by omega)
    exact Reader.bind_congr_left (readAlternation_congr hinside (sound_readNested depth))

theorem readNested_eq_read {depth : Nat} {tokens : List Token} (h : tokens.length < depth)
    (size : Nat) : readNested depth ⟨tokens, size⟩ = read ⟨tokens, size⟩ :=
  readNested_congr h (Nat.lt_succ_self _)

end Expression

end AugmentedBnf
