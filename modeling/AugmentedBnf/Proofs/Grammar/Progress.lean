import Mathlib.Data.Prod.Lex
import AugmentedBnf.Proofs.Grammar.Index
import AugmentedBnf.Proofs.Grammar.Refusal

/-! # Compiling comes to an end

From every place where reading stands, the places that it goes on to have fewer tokens left, or as
many and a smaller part of the notation to read. So reading ends on any tokens, and what it ends with
is the one derivation that the tokens have, of a table or of a refusal. The tokens of a source are
cuts of it between characters, and what stands inside their marks is a cut of them.
-/
namespace AugmentedBnf

open Token (past headKind? past_suffix length_past_le)
open Expression (Level Part Spells Counts turn)
open IndexedReader (readAt)

section Stages

/-- Where reading stands: in front of the next definition, with the rules before it, or in front of a
part of a right-hand side. -/
inductive Stage where
  | table (rules : RuleTable) (tokens : List Token)
  | part (part : Part) (tokens : List Token)

namespace Stage

/-- The tokens that are still to be read. -/
def tokens : Stage → List Token
  | table _ tokens => tokens
  | part _ tokens => tokens

/-- The levels of the notation, from elements up to tables. -/
def rank : Stage → Nat
  | part .element _ => 0
  | part .operand _ => 1
  | part .operands _ => 2
  | part .alternatives _ => 3
  | part .whole _ => 4
  | table _ _ => 5

/-- From one place, reading goes on to another: to a part of what it reads, or to the next round of a
loop behind what it has read. -/
inductive Leads : Stage → Stage → Prop where
  | body {rules : RuleTable} {tokens b : List Token} {name : Text}
      (begins : Rule.Begins tokens name b) :
      Leads (.table rules tokens) (.part .whole (Rule.bodyTokens (rules.find? name).isSome b))
  | definition {rules : RuleTable} {tokens r : List Token} {name : Text} {e : Expression}
      (first : Rule.Defines (rules.find? name).isSome tokens name e r) :
      Leads (.table rules tokens) (.table (rules.define name e) r)
  | branch {tokens : List Token} : Leads (.part .whole tokens) (.part .operands tokens)
  | alternatives {tokens r : List Token} {es : List Expression}
      (branch : Spells (.operands es) tokens r) :
      Leads (.part .whole tokens) (.part .alternatives r)
  | slash {tokens r : List Token} {mark : Token}
      (first : past Token.Kind.inlineTrivia tokens = mark :: r) (kind : mark.kind = .slash) :
      Leads (.part .alternatives tokens) (.part .operands (past Token.Kind.inlineTrivia r))
  | alternative {tokens r r' : List Token} {mark : Token} {es : List Expression}
      (first : past Token.Kind.inlineTrivia tokens = mark :: r) (kind : mark.kind = .slash)
      (branch : Spells (.operands es) (past Token.Kind.inlineTrivia r) r') :
      Leads (.part .alternatives tokens) (.part .alternatives r')
  | fold {tokens r : List Token} {line indent : Token}
      (first : past Token.Kind.inlineTrivia tokens = line :: indent :: r)
      (kind : line.kind = .lineBreak) (kind' : indent.kind = .whitespace) :
      Leads (.part .operands tokens) (.part .operands r)
  | operand {tokens : List Token} (goes : turn (past Token.Kind.inlineTrivia tokens) = .operand) :
      Leads (.part .operands tokens) (.part .operand (past Token.Kind.inlineTrivia tokens))
  | next {tokens r : List Token} {e : Expression}
      (goes : turn (past Token.Kind.inlineTrivia tokens) = .operand)
      (first : Spells (.operand e) (past Token.Kind.inlineTrivia tokens) r) :
      Leads (.part .operands tokens) (.part .operands r)
  | element {tokens r : List Token} {bounds : Bounds}
      (count : Counts bounds (past [.whitespace] tokens) r) :
      Leads (.part .operand tokens) (.part .element r)
  | inside {tokens r : List Token} {left : Token}
      (first : past Token.Kind.inlineTrivia tokens = left :: r) (kind : left.kind.opens = true) :
      Leads (.part .element tokens) (.part .whole r)

end Stage

namespace Stage

variable {s t : Stage}

/-- No token comes back. A place that is not of a smaller part has a token less. -/
theorem Leads.progress (h : Leads s t) :
    t.tokens <:+ s.tokens ∧ (t.rank < s.rank ∨ t.tokens.length < s.tokens.length) := by
  cases h with
  | body begins =>
    obtain ⟨hsuffix, -⟩ := begins.suffix
    exact ⟨(Rule.passes_bodyTokens _ _).suffix.trans hsuffix, .inl (by simp [rank])⟩
  | definition first => exact ⟨first.suffix, .inr first.length_lt⟩
  | branch => exact ⟨List.suffix_rfl, .inl (by simp [rank])⟩
  | alternatives branch => exact ⟨branch.suffix, .inl (by simp [rank])⟩
  | slash first kind =>
    exact ⟨(past_suffix _ _).trans (Token.suffix_of_past first).1, .inl (by simp [rank])⟩
  | alternative first kind branch =>
    obtain ⟨hsuffix, hless⟩ := Token.suffix_of_past first
    have hafter := branch.suffix.trans (past_suffix _ _)
    exact ⟨hafter.trans hsuffix, .inr (Nat.lt_of_le_of_lt hafter.length_le hless)⟩
  | fold first kind kind' =>
    obtain ⟨hsuffix, hless⟩ := Token.suffix_of_past first
    have hafter := List.suffix_cons _ _ |>.trans hsuffix
    refine ⟨hafter, .inr (Nat.lt_of_le_of_lt ?_ hless)⟩
    exact Nat.le_succ _
  | operand goes => exact ⟨past_suffix _ _, .inl (by simp [rank])⟩
  | next goes first =>
    exact ⟨first.suffix.trans (past_suffix _ _),
      .inr (Nat.lt_of_lt_of_le first.operand_length_lt (length_past_le _ _))⟩
  | element count => exact ⟨count.suffix.trans (past_suffix _ _), .inl (by simp [rank])⟩
  | inside first kind =>
    obtain ⟨hsuffix, hless⟩ := Token.suffix_of_past first
    exact ⟨hsuffix, .inr hless⟩

/-- Reading cannot go on for ever. -/
theorem wellFounded_leads : WellFounded fun t s : Stage => Leads s t := by
  have hlex := WellFounded.prod_lex Nat.lt_wfRel.wf Nat.lt_wfRel.wf
  refine Subrelation.wf (fun {t s} h => ?_)
    (InvImage.wf (fun s : Stage => (s.tokens.length, s.rank)) hlex)
  obtain ⟨hsuffix, hprogress⟩ := h.progress
  refine Prod.lex_iff.mpr ?_
  rcases Nat.lt_or_eq_of_le hsuffix.length_le with hless | heq
  · exact .inl hless
  · exact .inr ⟨heq, hprogress.resolve_right (Nat.not_lt_of_le (Nat.le_of_eq heq.symm))⟩

end Stage

end Stages

section Endings

/-- The front of the tokens spells some phrase of the part, and the rest is left. -/
def Expression.Part.Spelled : Part → List Token → List Token → Prop
  | element, tokens, rest => ∃ e, Spells (.element e) tokens rest
  | operand, tokens, rest => ∃ e, Spells (.operand e) tokens rest
  | operands, tokens, rest => ∃ es, Spells (.operands es) tokens rest
  | alternatives, tokens, rest => ∃ es, Spells (.alternatives es) tokens rest
  | whole, tokens, rest => ∃ e, Spells (.whole e) tokens rest

namespace Stage

/-- What is read from there on comes to an end, with a result or with a refusal. -/
def Ends (size : Nat) : Stage → Prop
  | table rules tokens => (∃ result, RuleTable.Reads rules tokens result) ∨
      ∃ cause left, RuleTable.Refuses size rules tokens cause left
  | part p tokens => (∃ rest, p.Spelled tokens rest) ∨
      ∃ cause left, Expression.Refuses size p tokens cause left

variable {size : Nat} {rules : RuleTable} {tokens : List Token}

/-- A bracketed part is a group or an option, whichever its first bracket says. -/
theorem spelled_enclosed {r r' rest : List Token} {left last : Token} {right : Token.Kind}
    {e : Expression} (first : past Token.Kind.inlineTrivia tokens = left :: r)
    (kind : left.kind.closer? = some right) (inner : Spells (.whole e) r r')
    (hlast : past Token.Kind.trivia r' = last :: rest) (hright : last.kind = right) :
    Part.Spelled .element tokens rest := by
  cases hleft : left.kind with
  | leftParen =>
    rw [hleft] at kind
    cases kind
    exact ⟨_, .group first hleft inner hlast hright⟩
  | leftBracket =>
    rw [hleft] at kind
    cases kind
    exact ⟨_, .option first hleft inner hlast hright⟩
  | _ =>
    rw [hleft] at kind
    cases kind

theorem ends_of_leaf {r : List Token} {token : Token}
    (hpast : past Token.Kind.inlineTrivia tokens = token :: r) (hleaf : token.kind.isLeaf = true) :
    Ends size (.part .element tokens) := by
  cases hlexeme : Literal.ofLexeme? token.kind token.text with
  | some result =>
    cases result with
    | ok value => exact .inl ⟨r, _, .literal hpast hlexeme⟩
    | error cause => exact .inr ⟨cause, r, .literal hpast hlexeme⟩
  | none =>
    cases hkind : token.kind with
    | ident => exact .inl ⟨r, _, .reference hpast hkind⟩
    | prose => exact .inl ⟨r, _, .prose hpast hkind⟩
    | binary | decimal | hexadecimal | quoted | insensitiveQuoted | sensitiveQuoted =>
      exact absurd hlexeme (Expression.ofLexeme?_ne_none (by rw [hkind]; rfl) _)
    | _ =>
      rw [hkind] at hleaf
      cases hleaf

theorem ends_element (h : ∀ t, Leads (.part .element tokens) t → t.Ends size) :
    Ends size (.part .element tokens) := by
  cases hpast : past Token.Kind.inlineTrivia tokens with
  | nil => exact .inr ⟨_, _, .ended hpast⟩
  | cons token r =>
    by_cases hopens : token.kind.opens = true
    · obtain ⟨right, hright⟩ := Option.isSome_iff_exists.mp hopens
      rcases h _ (.inside hpast hopens) with ⟨r', e, hspells⟩ | ⟨cause, left, hrefuses⟩
      · by_cases hlast : headKind? (past Token.Kind.trivia r') = some right
        · obtain ⟨last, rest, hafter, hkind⟩ := Token.exists_of_headKind? hlast
          exact .inl ⟨rest, spelled_enclosed hpast hright hspells hafter hkind⟩
        · exact .inr ⟨_, _, .unclosed hpast hright hspells hlast⟩
      · exact .inr ⟨cause, left, .inside hpast hright hrefuses⟩
    · by_cases hleaf : token.kind.isLeaf = true
      · exact ends_of_leaf hpast hleaf
      · have hstarts : token.kind.starts = false := by
          rw [Token.Kind.starts, Bool.eq_false_of_not_eq_true hopens,
            Bool.eq_false_of_not_eq_true hleaf]
          rfl
        exact .inr ⟨_, _, .unsupported hpast hstarts⟩

theorem ends_operand (h : ∀ t, Leads (.part .operand tokens) t → t.Ends size) :
    Ends size (.part .operand tokens) := by
  have hblank := Expression.headKind?_past_ne (List.mem_singleton_self Token.Kind.whitespace) tokens
  cases hcount : Expression.readCount ⟨past [.whitespace] tokens, size⟩ with
  | error cause stream =>
    obtain ⟨left, -, hrefused⟩ := Expression.countRefused_of_readCount hcount
    exact .inr ⟨cause, left, .count hrefused⟩
  | ok bounds stream =>
    rw [← Expression.readBounds_form hblank] at hcount
    obtain ⟨r, -, hcounts⟩ := Expression.counts_of_readBounds hblank hcount
    rcases h _ (.element hcounts) with ⟨rest, e, hspells⟩ | ⟨cause, left, hrefuses⟩
    · exact .inl ⟨rest, _, .operand hcounts hspells⟩
    · exact .inr ⟨cause, left, .counted hcounts hrefuses⟩

theorem ends_operands (h : ∀ t, Leads (.part .operands tokens) t → t.Ends size) :
    Ends size (.part .operands tokens) := by
  cases hturn : turn (past Token.Kind.inlineTrivia tokens) with
  | stop => exact .inl ⟨_, [], .stop hturn⟩
  | fold =>
    obtain ⟨line, indent, r, hpast, hline, hindent⟩ := Expression.turn_eq_fold_iff.mp hturn
    rcases h _ (.fold hpast hline hindent) with ⟨rest, es, hspells⟩ | ⟨cause, left, hrefuses⟩
    · exact .inl ⟨rest, es, .fold hpast hline hindent hspells⟩
    · exact .inr ⟨cause, left, .fold hpast hline hindent hrefuses⟩
  | operand =>
    rcases h _ (.operand hturn) with ⟨r, e, hfirst⟩ | ⟨cause, left, hrefuses⟩
    · rcases h _ (.next hturn hfirst) with ⟨rest, es, hnext⟩ | ⟨cause, left, hrefuses⟩
      · exact .inl ⟨rest, e :: es, .another hturn hfirst hnext⟩
      · exact .inr ⟨cause, left, .later hturn hfirst hrefuses⟩
    · exact .inr ⟨cause, left, .first hturn hrefuses⟩

theorem ends_alternatives (h : ∀ t, Leads (.part .alternatives tokens) t → t.Ends size) :
    Ends size (.part .alternatives tokens) := by
  by_cases hslash : headKind? (past Token.Kind.inlineTrivia tokens) = some .slash
  · obtain ⟨mark, r, hpast, hkind⟩ := Token.exists_of_headKind? hslash
    rcases h _ (.slash hpast hkind) with ⟨r', es, hbranch⟩ | ⟨cause, left, hrefuses⟩
    · rcases h _ (.alternative hpast hkind hbranch) with
        ⟨rest, others, hnext⟩ | ⟨cause, left, hrefuses⟩
      · exact .inl ⟨rest, _, .slash hpast hkind hbranch hnext⟩
      · exact .inr ⟨cause, left, .others hpast hkind hbranch hrefuses⟩
    · exact .inr ⟨cause, left, .branch hpast hkind hrefuses⟩
  · exact .inl ⟨_, [], .last hslash⟩

theorem ends_whole (h : ∀ t, Leads (.part .whole tokens) t → t.Ends size) :
    Ends size (.part .whole tokens) := by
  rcases h _ .branch with ⟨r, es, hbranch⟩ | ⟨cause, left, hrefuses⟩
  · rcases h _ (.alternatives hbranch) with ⟨rest, others, hnext⟩ | ⟨cause, left, hrefuses⟩
    · exact .inl ⟨rest, _, .whole hbranch hnext⟩
    · exact .inr ⟨cause, left, .rest hbranch hrefuses⟩
  · exact .inr ⟨cause, left, .start hrefuses⟩

theorem ends_table (h : ∀ t, Leads (.table rules tokens) t → t.Ends size) :
    Ends size (.table rules tokens) := by
  by_cases hopen : tokens = []
  · rw [hopen]
    exact .inl ⟨rules, .done⟩
  by_cases hname : headKind? tokens = some .ident
  · obtain ⟨name, r, rfl, hident⟩ := Token.exists_of_headKind? hname
    by_cases hsign : headKind? (past Token.Kind.trivia r) = some .equal
    · obtain ⟨equal, r', hnext, hequal⟩ := Token.exists_of_headKind? hsign
      have hbegins : Rule.Begins (name :: r) name.text.upper (Token.afterIncrement r') :=
        .intro hident hnext hequal
      rcases h _ (.body hbegins) with ⟨rest, e, hspells⟩ | ⟨cause, left, hrefuses⟩
      · have hdefines := hbegins.defines hspells
        rcases h _ (.definition hdefines) with ⟨result, hreads⟩ | ⟨cause, left, hrefuses⟩
        · exact .inl ⟨result, .next hdefines hreads⟩
        · exact .inr ⟨cause, left, .later hdefines hrefuses⟩
      · exact .inr ⟨cause, left, .here hopen (.body hbegins hrefuses)⟩
    · exact .inr ⟨_, _, .here hopen (.equal hident hsign)⟩
  · exact .inr ⟨_, _, .here hopen (.name hname)⟩

/-- Reading ends at a place if it does at all places that it goes on to from there. -/
theorem ends_of_leads {s : Stage} (h : ∀ t, Leads s t → t.Ends size) : s.Ends size := by
  cases s with
  | table rules tokens => exact ends_table h
  | part p tokens =>
    cases p with
    | element => exact ends_element h
    | operand => exact ends_operand h
    | operands => exact ends_operands h
    | alternatives => exact ends_alternatives h
    | whole => exact ends_whole h

theorem ends (size : Nat) (s : Stage) : s.Ends size :=
  wellFounded_leads.induction s fun _ h => ends_of_leads h

end Stage

end Endings

section Compiling

/-- What reading a table of rules makes of the tokens: there is one derivation, of a table that takes
all tokens or of a refusal that leaves some. -/
inductive RuleTable.Settles (size : Nat) (tokens : List Token) :
    EStateM.Result CompileError TokenStream RuleTable → Prop where
  | read {rules : RuleTable}
      (reads : ∀ result, Reads empty (past Token.Kind.trivia tokens) result ↔ result = rules)
      (refuses : ∀ cause left, ¬ Refuses size empty (past Token.Kind.trivia tokens) cause left) :
      Settles size tokens (.ok rules ⟨[], size⟩)
  | refused {cause : CompileError} {left : List Token}
      (reads : ∀ result, ¬ Reads empty (past Token.Kind.trivia tokens) result)
      (refuses : ∀ cause' left', Refuses size empty (past Token.Kind.trivia tokens) cause' left' ↔
        cause' = cause ∧ left' = left) : Settles size tokens (.error cause ⟨left, size⟩)

theorem RuleTable.settles_read (tokens : List Token) (size : Nat) :
    Settles size tokens (read ⟨tokens, size⟩) := by
  have hreads : ∀ {result}, Reads empty (past Token.Kind.trivia tokens) result →
      read ⟨tokens, size⟩ = .ok result ⟨[], size⟩ := fun h => read_eq_ok_iff.mpr ⟨h, rfl⟩
  have hrefuses : ∀ {cause left}, Refuses size empty (past Token.Kind.trivia tokens) cause left →
      read ⟨tokens, size⟩ = .error cause ⟨left, size⟩ := fun h => read_eq_error_iff.mpr ⟨_, rfl, h⟩
  cases hread : read ⟨tokens, size⟩ with
  | ok rules stream =>
    obtain ⟨hrules, rfl⟩ := read_eq_ok_iff.mp hread
    refine .read (fun result => ⟨fun h => ?_, fun h => h ▸ hrules⟩) fun cause left h => ?_
    · cases hread.symm.trans (hreads h)
      rfl
    · cases hread.symm.trans (hrefuses h)
  | error cause stream =>
    obtain ⟨left, rfl, hleft⟩ := read_eq_error_iff.mp hread
    refine .refused (fun result h => ?_) fun cause' left' => ⟨fun h => ?_, ?_⟩
    · cases hread.symm.trans (hreads h)
    · cases hread.symm.trans (hrefuses h)
      exact ⟨rfl, rfl⟩
    · rintro ⟨rfl, rfl⟩
      exact hleft

/-- The tokens are those of the source, and they are cut out of it. -/
structure Grammar.CutInto (source : Text) (tokens : List Token) : Prop where
  scan : Token.scan source = .ok tokens
  cuts : ∀ token ∈ tokens, token.CutFrom source

/-- What compiling a source ends with: the place where no token starts, the refusal of its tokens, or
the table that they define. -/
inductive Grammar.Outcome (source : Text) : Except CompileError Grammar → Prop where
  | uncut {offset : Nat} (stuck : Token.Stuck source offset) :
      Outcome source (.error (.unexpectedCharacter offset))
  | refused {tokens left : List Token} {cause : CompileError} (cut : CutInto source tokens)
      (refuses : RuleTable.Refuses source.byteSize .empty (past Token.Kind.trivia tokens) cause left) :
      Outcome source (.error cause)
  | compiled {tokens : List Token} {rules : RuleTable} (cut : CutInto source tokens)
      (reads : RuleTable.Reads .empty (past Token.Kind.trivia tokens) rules) :
      Outcome source (.ok ⟨source, rules⟩)

theorem Grammar.cutInto_of_scan {source : Text} {tokens : List Token}
    (h : Token.scan source = .ok tokens) : CutInto source tokens :=
  ⟨h, Token.cutFrom_of_scan h⟩

theorem Grammar.outcome_ofSource (source : Text) : Outcome source (ofSource source) := by
  unfold ofSource
  cases hrules : RuleTable.ofSource source with
  | ok rules =>
    obtain ⟨tokens, hscan, hreads⟩ := RuleTable.ofSource_eq_ok_iff.mp hrules
    exact .compiled (cutInto_of_scan hscan) hreads
  | error cause =>
    rcases RuleTable.ofSource_eq_error_iff.mp hrules with hscan | ⟨tokens, left, hscan, hrefuses⟩
    · obtain ⟨offset, _, rfl, -, hstuck⟩ := Token.stuck_of_scan hscan
      exact .uncut hstuck
    · exact .refused (cutInto_of_scan hscan) hrefuses

/-- Compiling ends on every text in every mode. Reading cannot go on for ever on any tokens: each step
to a larger part takes a token, elements and counted elements take one, and no token comes back. By
index, only an index past the end leaves nothing to look ahead at. No reader comes to such an index or
goes back, whatever the tokens are, and elements, counted elements and rules move the index on. From the
tokens of a source each ends like the reader of streams, so nothing that is cut is out of range. -/
theorem compile_total :
    (WellFounded fun t s : Stage => s.Leads t) ∧
    (∀ s t : Stage, s.Leads t → t.tokens <:+ s.tokens ∧
      (t.rank < s.rank ∨ t.tokens.length < s.tokens.length)) ∧
    (∀ (s : Stage) size, s.Ends size) ∧
    (∀ e tokens rest, Spells (.element e) tokens rest ∨ Spells (.operand e) tokens rest →
      rest <:+ tokens ∧ rest.length < tokens.length) ∧
    (∀ tokens size, RuleTable.Settles size tokens (RuleTable.read ⟨tokens, size⟩)) ∧
    (∀ mode text, Grammar.Outcome (mode.normalize text) (Grammar.compile mode text)) ∧
    (∀ (s : IndexedStream) amount passing,
      s.ahead? amount passing = none ↔ s.tokens.length < s.index) ∧
    (∀ depth level, level = .repetition ∨ level = .element →
      (readAt (Level.all.length * depth + level.height) level).Moves) ∧
    (∀ rules, (IndexedReader.rule rules).Moves) ∧
    (∀ source tokens, Token.scan source = .ok tokens → IndexedStream.Sound ⟨source, tokens, 0⟩) ∧
    (∀ depth level, (readAt (Level.all.length * depth + level.height) level).Follows
      (Expression.readLevel (Expression.readNested depth) level)) ∧
    (∀ rules, (IndexedReader.rule rules).Follows (Rule.read rules)) ∧
    IndexedReader.table.Follows RuleTable.read ∧
    ∀ mode text, Grammar.compileByIndex mode text = (Grammar.compile mode text).mapError .refused := by
  refine ⟨Stage.wellFounded_leads, fun _ _ h => h.progress, fun s size => Stage.ends size s, ?_,
    RuleTable.settles_read, fun mode text => Grammar.outcome_ofSource (mode.normalize text),
    fun _ _ _ => IndexedStream.ahead?_eq_none_iff, fun _ _ => IndexedReader.Moves.readAt,
    IndexedReader.Moves.rule, fun _ _ => Grammar.sound_of_scan, IndexedReader.Follows.readAt,
    IndexedReader.Follows.rule, IndexedReader.Follows.table, Grammar.compileByIndex_eq⟩
  rintro e tokens rest (hspells | hspells)
  · exact ⟨hspells.suffix, hspells.element_length_lt⟩
  · exact ⟨hspells.suffix, hspells.operand_length_lt⟩

/-- A name is an element that takes its token and moves the index behind it, and a bracket that stays
open is refused at the end. -/
theorem compile_total_open_bracket :
    ([] : List Token).length < [(⟨.ident, 0, 1, ['a']⟩ : Token)].length ∧
    Grammar.Outcome ['a', '=', '('] (.error (.expected .rightParen none 3)) ∧
    (∃ s', readAt 5 .element ⟨['a'], [⟨.ident, 0, 1, ['a']⟩], 0⟩ = .ok (.reference ['A']) s' ∧
      0 < s'.index) ∧
    (⟨['a'], [⟨.ident, 0, 1, ['a']⟩], 2⟩ : IndexedStream).ahead? 1 [] = none ∧
    IndexedStream.Sound ⟨['a'], [⟨.ident, 0, 1, ['a']⟩], 0⟩ ∧
    Grammar.compileByIndex .strict ['a', '=', '('] =
      .error (.refused (.expected .rightParen none 3)) := by
  obtain ⟨-, -, -, htakes, -, hends, hahead, hmoves, -, hsound, -, -, -, hindex⟩ := compile_total
  let name : Token := ⟨.ident, 0, 1, ['a']⟩
  have hname : Spells (.element (.reference name.text.upper)) [name] [] := .reference rfl rfl
  have hskip : IndexedReader.skip Token.Kind.inlineTrivia ⟨['a'], [name], 0⟩ =
      .ok () ⟨['a'], [name], 0⟩ := by
    rw [IndexedReader.skip_apply, IndexedStream.skip]
    rfl
  have hread : readAt 5 .element ⟨['a'], [name], 0⟩ =
      .ok (.reference ['A']) ⟨['a'], [name], 1⟩ := by
    rw [readAt, IndexedReader.ofLevel, IndexedReader.element, IndexedReader.bind_of_ok hskip]
    rfl
  have hrefused : Grammar.compile .strict ['a', '=', '('] =
      .error (.expected .rightParen none 3) := by decide
  refine ⟨(htakes _ _ _ (.inl hname)).2, hrefused ▸ hends .strict ['a', '=', '('],
    ⟨_, hread, (hmoves 1 .element (.inr rfl)).index_lt _ _ _ (Nat.zero_le _) hread⟩,
    (hahead _ _ _).mpr (by decide), hsound _ _ (by decide), ?_⟩
  rw [hindex, hrefused]
  rfl

end Compiling

end AugmentedBnf
