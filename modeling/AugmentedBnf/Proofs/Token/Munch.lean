import AugmentedBnf.Proofs.Text.Cut
import AugmentedBnf.Proofs.Token.Pattern
import AugmentedBnf.Proofs.Token.Seam

/-! # The longest match

The tokens of a source tile it, and each of them is the longest match of a pattern at its place.
Where the scan stops, the tokens in front tile the source up to there and no pattern matches. Offsets
count from the start of the source, so what is put behind a complete line has its own tokens, moved by
the size of the front.
-/
namespace AugmentedBnf

/-- The same cause, some bytes further on. -/
def CompileError.shift (n : Nat) : CompileError → CompileError
  | unexpectedCharacter offset => unexpectedCharacter (offset + n)
  | expected wanted found offset => expected wanted found (offset + n)
  | unexpectedEnd => unexpectedEnd
  | unsupportedToken kind offset => unsupportedToken kind (offset + n)
  | invalidRange literal => invalidRange literal
  | invalidNumber text => invalidNumber text

namespace Token

/-- The same token, some bytes further on. -/
def shift (n : Nat) (token : Token) : Token := { token with offset := token.offset + n }

/-- Tokens that are not empty lie side by side from one offset to another. -/
def Tiles (start : Nat) : List Token → (stop : Nat) → Prop
  | [], stop => start = stop
  | token :: tokens, stop =>
    token.offset = start ∧ 0 < token.length ∧ Tiles token.stop tokens stop

/-- The token covers its text in the source. No pattern matches more there, and only the pattern of
its kind matches as much. -/
structure Longest (source : Text) (token : Token) : Prop where
  place : source.Spans token.offset token.length token.text
  pattern : token.text ∈ token.kind.pattern
  longest : ∀ (kind : Kind) n w, source.Spans token.offset n w → w ∈ kind.pattern → n ≤ token.length
  alone : ∀ kind : Kind, token.text ∈ kind.pattern → kind = token.kind

/-- The tokens are the longest matches in the source from an offset to another. -/
def Munches (source : Text) (start stop : Nat) (tokens : List Token) : Prop :=
  Tiles start tokens stop ∧ ∀ token ∈ tokens, token.Longest source

/-- No pattern matches at an offset in front of the end. -/
structure Stuck (source : Text) (offset : Nat) : Prop where
  boundary : source.IsBoundary offset
  before_end : offset < source.byteSize
  unmatched : ∀ (kind : Kind) n w, source.Spans offset n w → w ∉ kind.pattern

section Place

variable {t l rest : Text} {kind : Kind}

theorem longest_ofLexeme (before : Text) (h : lexeme? (l ++ rest) = some (kind, l)) :
    (ofLexeme kind before.byteSize l).Longest (before ++ (l ++ rest)) where
  place := ⟨before, rest, rfl, rfl, rfl⟩
  pattern := mem_pattern_of_lexeme? h
  longest := by
    intro kind' n w hw hpattern
    obtain ⟨hfront, rfl⟩ := hw.isPrefix
    exact Text.byteSize_le_of_isPrefix (longest_of_lexeme? h hfront hpattern).2
  alone := fun _ hpattern => (longest_of_lexeme? h (List.prefix_append l rest) hpattern).1

theorem stuck_of_none (before : Text) (hne : t ≠ []) (h : lexeme? t = none) :
    Stuck (before ++ t) before.byteSize where
  boundary := ⟨before, t, rfl, rfl⟩
  before_end := by
    have := Text.byteSize_pos hne
    rw [Text.byteSize_append]
    omega
  unmatched := fun _ _ _ hw => not_mem_pattern_of_none h hw.isPrefix.1

theorem Munches.cons {source : Text} {token : Token} {tokens : List Token} {stop : Nat}
    (hpos : 0 < token.length) (htoken : token.Longest source)
    (h : Munches source token.stop stop tokens) :
    Munches source token.offset stop (token :: tokens) :=
  ⟨⟨rfl, hpos, h.1⟩, List.forall_mem_cons.mpr ⟨htoken, h.2⟩⟩

end Place

/-- From any front of a source on, the scan takes longest matches to the end or to where it is
stuck. -/
theorem munches_scanAt (before t : Text) :
    (∃ tokens, scanAt before.byteSize t = .ok tokens ∧
      Munches (before ++ t) before.byteSize (before ++ t).byteSize tokens) ∨
    ∃ offset tokens, scanAt before.byteSize t = .error (.unexpectedCharacter offset) ∧
      Munches (before ++ t) before.byteSize offset tokens ∧ Stuck (before ++ t) offset := by
  induction t using lexeme_induction generalizing before with
  | nil =>
    refine .inl ⟨[], rfl, ?_, nofun⟩
    rw [List.append_nil]
    rfl
  | none t hne hnone =>
    exact .inr ⟨_, [], scanAt_of_none _ hne hnone, ⟨rfl, nofun⟩, stuck_of_none before hne hnone⟩
  | some kind l rest hlexeme ih =>
    have hpos : 0 < (ofLexeme kind before.byteSize l).length :=
      Text.byteSize_pos (lexeme?_isPrefix hlexeme).1
    have hlongest := longest_ofLexeme before hlexeme
    have hrest := ih (before ++ l)
    rw [Text.byteSize_append, List.append_assoc] at hrest
    rw [scanAt_of_lexeme? _ hlexeme]
    rcases hrest with ⟨tokens, hscan, hmunches⟩ | ⟨offset, tokens, hscan, hmunches, hstuck⟩
    · exact .inl ⟨_, by rw [hscan]; rfl, hmunches.cons hpos hlongest⟩
    · exact .inr ⟨offset, _, by rw [hscan]; rfl, hmunches.cons hpos hlongest, hstuck⟩

theorem munches_of_scan {source : Text} {tokens : List Token} (h : scan source = .ok tokens) :
    Munches source 0 source.byteSize tokens := by
  have hscan : scanAt 0 source = .ok tokens := h
  rcases munches_scanAt [] source with ⟨tokens', hok, hmunches⟩ | ⟨_, _, herror, -⟩
  · cases hscan.symm.trans hok
    exact hmunches
  · cases hscan.symm.trans herror

theorem stuck_of_scan {source : Text} {cause : CompileError} (h : scan source = .error cause) :
    ∃ offset tokens, cause = .unexpectedCharacter offset ∧ Munches source 0 offset tokens ∧
      Stuck source offset := by
  have hscan : scanAt 0 source = .error cause := h
  rcases munches_scanAt [] source with ⟨_, hok, -⟩ | ⟨offset, tokens, herror, hstop⟩
  · cases hscan.symm.trans hok
  · cases hscan.symm.trans herror
    exact ⟨offset, tokens, rfl, hstop⟩

/-- The same text further on has the same tokens further on. -/
theorem scanAt_add (t : Text) (offset n : Nat) :
    scanAt (offset + n) t = match scanAt offset t with
      | .ok tokens => .ok (tokens.map (shift n))
      | .error cause => .error (cause.shift n) := by
  induction t using lexeme_induction generalizing offset with
  | nil => rfl
  | none t hne hnone =>
    rw [scanAt_of_none _ hne hnone, scanAt_of_none _ hne hnone]
    rfl
  | some kind l rest hlexeme ih =>
    rw [scanAt_of_lexeme? _ hlexeme, scanAt_of_lexeme? _ hlexeme, Nat.add_right_comm, ih]
    cases scanAt (offset + l.byteSize) rest <;> rfl

/-- A scan takes longest matches side by side, to the end or to the place where nothing matches. What
follows a complete line is scanned as on its own. -/
theorem munches_scan (source : Text) :
    (∀ tokens, scan source = .ok tokens → Munches source 0 source.byteSize tokens) ∧
    (∀ cause, scan source = .error cause → ∃ offset tokens, cause = .unexpectedCharacter offset ∧
      Munches source 0 offset tokens ∧ Stuck source offset) ∧
    ∀ tokens t, scan source = .ok tokens → source.getLast? = some '\n' →
      scan (source ++ t) = match scan t with
        | .ok others => .ok (tokens ++ others.map (shift source.byteSize))
        | .error cause => .error (cause.shift source.byteSize) := by
  refine ⟨fun _ => munches_of_scan, fun _ => stuck_of_scan, fun tokens t htokens hlast => ?_⟩
  have hscan : ∀ t, scan t = scanAt 0 t := fun _ => rfl
  rw [hscan, scanAt_append (.inr hlast) htokens, scanAt_add, ← hscan]
  cases scan t <;> rfl

/-- A name on a line of its own, and a percent sign that introduces nothing in the next line. -/
theorem munches_line_then_stuck :
    (∃ tokens, scan ['a', '\n'] = .ok tokens ∧ Munches ['a', '\n'] 0 2 tokens) ∧
    (∃ tokens, Munches ['a', '\n', '%'] 0 2 tokens ∧ Stuck ['a', '\n', '%'] 2) ∧
    scan (['a', '\n'] ++ ['%']) = .error (.unexpectedCharacter 2) := by
  have hline : scan ['a', '\n'] = .ok [⟨.ident, 0, 1, ['a']⟩, ⟨.lineBreak, 1, 1, ['\n']⟩] := by
    decide
  have hstop : scan ['a', '\n', '%'] = .error (.unexpectedCharacter 2) := by decide
  obtain ⟨hok, -, happend⟩ := munches_scan ['a', '\n']
  refine ⟨⟨_, hline, hok _ hline⟩, ?_, happend _ ['%'] hline rfl⟩
  obtain ⟨offset, tokens, hoffset, hmunches, hstuck⟩ := (munches_scan _).2.1 _ hstop
  cases hoffset
  exact ⟨tokens, hmunches, hstuck⟩

end Token

end AugmentedBnf
