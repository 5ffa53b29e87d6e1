import AugmentedBnf.Grammar.Indexed
import AugmentedBnf.Proofs.Token.Index

/-! # Compiling by index

Each reader by index follows the reader of streams for the same part of the notation: single elements,
then the levels one after the other, which start again inside brackets, then rules and tables. So
compiling by index ends like compiling, and nothing is ever out of range. On any tokens, elements and
rules move the index on.
-/
namespace AugmentedBnf

namespace Expression

/-- How many levels there are from a level down to elements. -/
def Level.height : Level → Nat
  | alternation => 4
  | concatenation => 3
  | repetition => 2
  | element => 1

/-- The reader of streams for a level, given how to read what stands inside brackets. -/
def readLevel (inside : Reader Expression) : Level → Reader Expression
  | .alternation => readAlternation inside
  | .concatenation => readConcatenation inside
  | .repetition => readRepetition inside
  | .element => readElement inside

end Expression

namespace IndexedReader

open Expression (Level)
open IndexedStream (of_peek?)

section Lexemes

variable {s : IndexedStream} {token : Token}

theorem inside_of_slice? {front : Nat} {lexeme body : Text}
    (h : lexeme.slice? front (lexeme.byteSize - 1) = some body) :
    inside front lexeme = pure (lexeme.inside front 1) := by
  rw [inside, Text.inside, h]
  rfl

/-- What stands inside the marks of a numeric token is behind the mark of its base. -/
theorem numeric_of_slice? {lexeme body : Text} (radix : Nat)
    (h : lexeme.slice? 2 (lexeme.byteSize - 0) = some body) :
    numeric radix lexeme = accept (Literal.numeric radix lexeme) := by
  have hcut : lexeme.dropBytes? 2 ≠ none := by
    intro hnone
    rw [Text.slice?, hnone] at h
    split at h <;> cases h
  obtain ⟨rest, hrest⟩ := Option.ne_none_iff_exists'.mp hcut
  rw [numeric, hrest]
  rfl

theorem answers_accept {α : Type} (s : IndexedStream) (result : Except CompileError α) :
    Answers (accept result s) (match result with
      | .ok a => .ok a s.toStream
      | .error cause => .error cause s.toStream) := by
  cases result with
  | ok a => exact .ok
  | error cause => exact .refused

theorem literal_of_peek? (hs : s.Sound) (h : s.peek? = some token) :
    literal s = match Literal.ofLexeme? token.kind token.text with
      | none => .error (.refused (.unsupportedToken token.kind token.offset)) s
      | some result => accept result s.advance := by
  have hcut := (hs.cuts token (of_peek? h).2.1).inside
  have htaken := consume_of_peek? hs h
  obtain ⟨kind, offset, length, text⟩ := token
  rw [literal, bind_of_ok (get_apply s), h]
  dsimp only
  cases kind with
  | binary | decimal | hexadecimal =>
    obtain ⟨body, hbody⟩ := hcut 2 0 rfl
    dsimp only
    rw [bind_of_ok htaken, numeric_of_slice? _ hbody]
    rfl
  | quoted =>
    obtain ⟨body, hbody⟩ := hcut 1 1 rfl
    dsimp only
    rw [bind_of_ok htaken, inside_of_slice? hbody]
    rfl
  | insensitiveQuoted | sensitiveQuoted =>
    obtain ⟨body, hbody⟩ := hcut 3 1 rfl
    dsimp only
    rw [bind_of_ok htaken, inside_of_slice? hbody]
    rfl
  | _ => rfl

theorem answers_literal (hs : s.Sound) : Answers (literal s) (Literal.read s.toStream) := by
  cases hnext : s.peek? with
  | none =>
    have hstream := IndexedStream.toStream_of_peek?_eq_none hnext
    rw [literal, bind_of_ok (get_apply s), hnext]
    simp only [Literal.read, hstream]
    exact .of_toStream hstream
  | some token =>
    obtain ⟨-, -, hstream⟩ := of_peek? hnext
    rw [literal_of_peek? hs hnext]
    simp only [Literal.read, hstream]
    cases Literal.ofLexeme? token.kind token.text with
    | none => exact .of_toStream hstream
    | some result => cases result <;> exact answers_accept s.advance _

/-- Every literal begins with the token that it takes. -/
theorem moves_literal : Moves literal := by
  refine .get fun s => ?_
  cases s.peek? with
  | none => exact .refuse _
  | some token =>
    dsimp only
    cases token.kind with
    | binary | decimal | hexadecimal =>
      exact (Moves.consume _).bind fun _ => (Forward.cut _).bind fun _ => .accept _
    | quoted | insensitiveQuoted | sensitiveQuoted =>
      exact (Moves.consume _).bind fun _ => (Forward.cut _).bind fun _ => .pure _
    | _ => exact .refuse _

end Lexemes

namespace Follows

section Elements

variable {operand : IndexedReader Expression} {inner : Reader Expression}

theorem literal : Follows literal Literal.read := ⟨moves_literal.forward, fun _ => answers_literal⟩

theorem enclosed (h : Follows operand inner) (left right : Token.Kind) :
    Follows (enclosed operand left right) (Expression.readEnclosed inner left right) :=
  (consume left).bind fun _ => h.bind fun _ => (skip _).bind fun _ => (consume right).bind fun _ => pure _

theorem element (h : Follows operand inner) :
    Follows (element operand) (Expression.readElement inner) := by
  refine (skip _).bind fun _ => get fun s => ?_
  rw [IndexedStream.peek?_toStream]
  cases s.peek? with
  | none => exact refuse _
  | some token =>
    dsimp only
    by_cases hliteral : token.kind.isLiteral = true
    · rw [if_pos hliteral, if_pos hliteral]
      exact literal.bind fun _ => pure _
    · rw [if_neg hliteral, if_neg hliteral]
      cases token.kind with
      | ident => exact (consume _).bind fun _ => pure _
      | leftParen => exact (h.enclosed _ _).bind fun _ => pure _
      | leftBracket => exact (h.enclosed _ _).bind fun _ => pure _
      | prose =>
        refine consume_bind (fun text => (Forward.cut _).bind fun _ => .pure _) fun _ token hcut hkind => ?_
        obtain ⟨body, hbody⟩ := hcut.inside 1 1 (by rw [hkind]; rfl)
        rw [inside_of_slice? hbody, pure_bind]
        exact pure _
      | _ => exact refuse _

end Elements

section Counts

theorem number : Follows number Expression.readNumber := by
  refine (consume _).bind fun text => ?_
  cases Text.unsigned? 10 Text.limit64 text with
  | none => exact refuse _
  | some n => exact pure n

theorem minimum : Follows minimum Expression.readMinimum :=
  number.bind fun _ => (skip _).bind fun _ => pure _

theorem star : Follows star Expression.readStar := (consume _).bind fun _ => skip _

theorem bounds (count : Expression.Count) : Follows (bounds count) (Expression.readBounds count) := by
  cases count with
  | between => exact minimum.bind fun _ => star.bind fun _ => number.bind fun _ => pure _
  | atLeast => exact minimum.bind fun _ => star.bind fun _ => pure _
  | exactly => exact minimum.bind fun _ => pure _
  | atMost => exact star.bind fun _ => number.bind fun _ => pure _
  | anyNumber => exact star.bind fun _ => pure _
  | single => exact pure _

end Counts

section Levels

variable {operand : IndexedReader Expression} {inner : Reader Expression}

theorem repetition (h : Follows operand (Expression.simplify <$> Expression.readElement inner)) :
    Follows (repetition operand) (Expression.readRepetition inner) :=
  (skip _).bind fun _ => ahead fun _ => (bounds _).bind fun _ =>
    h.bind_map (fun _ => .pure _) fun _ => pure _

theorem operands (h : Follows operand (Expression.simplify <$> Expression.readRepetition inner))
    (count : Nat) : Follows (operands operand count) (Expression.readOperands inner count) := by
  induction count with
  | zero => exact pure []
  | succ count ih =>
    refine (skip _).bind fun _ => ahead fun stream => ?_
    cases Expression.Turn.detect ((stream.ahead 2 []).map (·.kind)) with
    | stop => exact pure []
    | fold => exact (consume _).bind fun _ => (consume _).bind fun _ => ih
    | operand =>
      exact h.bind_map (fun _ => ih.forward.bind fun _ => .pure _) fun _ => ih.bind fun _ => pure _

theorem stepsLeft : Follows stepsLeft Expression.stepsLeft :=
  get fun s => by
    rw [IndexedStream.length_tokens_toStream]
    exact pure _

theorem concatenation (h : Follows operand (Expression.simplify <$> Expression.readRepetition inner)) :
    Follows (concatenation operand) (Expression.readConcatenation inner) :=
  stepsLeft.bind fun _ => (operands h _).bind fun _ => pure _

theorem alternatives
    (h : Follows operand (Expression.simplify <$> Expression.readConcatenation inner)) (count : Nat) :
    Follows (alternatives operand count) (Expression.readAlternatives inner count) := by
  induction count with
  | zero => exact pure []
  | succ count ih =>
    refine (skip _).bind fun _ => (isAt _).bind fun follows => ?_
    cases follows with
    | false => exact pure []
    | true =>
      exact (consume _).bind fun _ => (skip _).bind fun _ =>
        h.bind_map (fun _ => ih.forward.bind fun _ => .pure _) fun _ => ih.bind fun _ => pure _

theorem alternation
    (h : Follows operand (Expression.simplify <$> Expression.readConcatenation inner)) :
    Follows (alternation operand) (Expression.readAlternation inner) := by
  have hrest (first : Expression) := stepsLeft.bind fun count => (alternatives h count).bind fun rest =>
    pure (Expression.alternation (first :: rest))
  exact h.bind_map (fun first => (hrest first).forward) fun _ => hrest _

/-- Behind brackets that are nested so deep, each level follows the reader of streams for it. -/
theorem ofNested {depth : Nat}
    (h : Follows (Expression.simplify <$> IndexedReader.readAt (Level.all.length * depth) .alternation)
      (Expression.readNested depth)) (level : Level) :
    Follows (IndexedReader.readAt (Level.all.length * depth + level.height) level)
      (Expression.readLevel (Expression.readNested depth) level) := by
  have helement := element h
  have hrepetition := repetition (helement.map _)
  have hconcatenation := concatenation (hrepetition.map _)
  cases level with
  | alternation => exact alternation (hconcatenation.map _)
  | concatenation => exact hconcatenation
  | repetition => exact hrepetition
  | element => exact helement

theorem nested (depth : Nat) :
    Follows (Expression.simplify <$> IndexedReader.readAt (Level.all.length * depth) .alternation)
      (Expression.readNested depth) := by
  induction depth with
  | zero => exact refuse _
  | succ depth ih =>
    rw [Expression.readNested, ← map_eq_pure_bind]
    exact (ofNested ih .alternation).map _

theorem readAt (depth : Nat) (level : Level) :
    Follows (IndexedReader.readAt (Level.all.length * depth + level.height) level)
      (Expression.readLevel (Expression.readNested depth) level) :=
  ofNested (nested depth) level

theorem expression : Follows expression Expression.read := stepsLeft.bind fun _ => nested _

theorem further (existing : Expression) :
    Follows (further existing) (Expression.readMore existing) :=
  (skip _).bind fun _ => expression.bind fun _ => pure _

end Levels

section Rules

theorem skipIncrement : Follows skipIncrement Rule.skipIncrement := by
  refine (skip _).bind fun _ => (isAt _).bind fun follows => ?_
  cases follows with
  | false => exact pure ()
  | true => exact (consume _).bind fun _ => pure ()

theorem body (existing : Option Rule) : Follows (body existing) (Rule.readBody existing) := by
  cases existing with
  | none => exact expression
  | some existing => exact further existing.body

theorem rule (rules : RuleTable) : Follows (rule rules) (Rule.read rules) :=
  (consume _).bind fun _ => (skip _).bind fun _ => (consume _).bind fun _ =>
    skipIncrement.bind fun _ => (body _).bind fun _ => (skip _).bind fun _ => pure _

theorem definitions (count : Nat) (rules : RuleTable) :
    Follows (definitions count rules) (RuleTable.readAll count rules) := by
  induction count generalizing rules with
  | zero => exact pure rules
  | succ count ih =>
    refine get fun s => ?_
    rw [IndexedStream.isOpen_toStream]
    cases s.isOpen with
    | false => exact pure rules
    | true => exact (rule rules).bind fun _ => (skip _).bind fun _ => ih _

theorem table : Follows table RuleTable.read := by
  refine (skip _).bind fun _ => get fun s => ?_
  rw [IndexedStream.length_tokens_toStream]
  exact definitions _ _

end Rules

end Follows

namespace Moves

variable {operand : IndexedReader Expression}

theorem enclosed (h : Forward operand) (left right : Token.Kind) : Moves (enclosed operand left right) :=
  (consume left).bind fun _ => h.bind fun _ => (Forward.skip _).bind fun _ =>
    (Forward.consume right).bind fun _ => .pure _

theorem element (h : Forward operand) : Moves (element operand) := by
  refine .of_bind (.skip _) fun _ => .get fun s => ?_
  cases s.peek? with
  | none => exact .refuse _
  | some token =>
    dsimp only
    by_cases hliteral : token.kind.isLiteral = true
    · rw [if_pos hliteral]
      exact moves_literal.bind fun _ => .pure _
    · rw [if_neg hliteral]
      cases token.kind with
      | ident => exact (consume _).bind fun _ => .pure _
      | leftParen => exact (enclosed h _ _).bind fun _ => .pure _
      | leftBracket => exact (enclosed h _ _).bind fun _ => .pure _
      | prose => exact (consume _).bind fun _ => (Forward.cut _).bind fun _ => .pure _
      | _ => exact .refuse _

theorem repetition (h : Moves operand) : Moves (repetition operand) :=
  .of_bind (.skip _) fun _ => .of_bind (.get fun _ => .cut _) fun _ =>
    .of_bind (Follows.bounds _).forward fun _ => h.bind fun _ => .pure _

/-- An element moves the index on, with or without a count. -/
theorem readAt {depth : Nat} {level : Level} (h : level = .repetition ∨ level = .element) :
    Moves (IndexedReader.readAt (Level.all.length * depth + level.height) level) := by
  have helement := element (Follows.nested depth).forward
  rcases h with rfl | rfl
  · exact repetition (helement.map _)
  · exact helement

/-- A rule takes its name at least. -/
theorem rule (rules : RuleTable) : Moves (rule rules) :=
  (consume _).bind fun _ => (Forward.skip _).bind fun _ => (Forward.consume _).bind fun _ =>
    Follows.skipIncrement.forward.bind fun _ => (Follows.body _).forward.bind fun _ =>
      (Forward.skip _).bind fun _ => .pure _

end Moves

end IndexedReader

namespace Grammar

open IndexedStream (Sound)

theorem sound_of_scan {source : Text} {tokens : List Token} (h : Token.scan source = .ok tokens) :
    Sound ⟨source, tokens, 0⟩ :=
  ⟨Nat.zero_le _, Token.cutFrom_of_scan h⟩

/-- Compiling by index ends like compiling: nothing is out of range. -/
theorem compileByIndex_eq (mode : Mode) (text : Text) :
    compileByIndex mode text = (compile mode text).mapError .refused := by
  unfold compileByIndex compile ofSource RuleTable.ofSource TokenStream.ofSource
  cases hscan : Token.scan (mode.normalize text) with
  | error cause => rfl
  | ok tokens =>
    have hanswers := IndexedReader.Follows.table.answers _ (sound_of_scan hscan)
    simp only [IndexedStream.toStream, List.drop_zero] at hanswers
    simp only [bind, Except.bind, pure, Except.pure]
    generalize IndexedReader.table ⟨mode.normalize text, tokens, 0⟩ = result at hanswers ⊢
    generalize RuleTable.read ⟨tokens, (mode.normalize text).byteSize⟩ = result' at hanswers ⊢
    cases hanswers <;> rfl

end Grammar

end AugmentedBnf
