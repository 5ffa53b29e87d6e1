import AugmentedBnf.Proofs.Evaluation.Printed
import AugmentedBnf.Proofs.Grammar.LineEndings
import AugmentedBnf.Proofs.Grammar.Merge
import AugmentedBnf.Proofs.Grammar.NormalForm

/-! # Compiling a listing

A listing has one line for each rule. If the notation has a place for everything in the right-hand
sides and none of them starts with a slash, the listing compiles to a grammar with the same names in
the same order, and each rule matches the same length of every input as before. The conditions
matter: nothing holds a repeated string together in print, a slash behind the equal sign is taken
for that of an assignment, and numeric values do not spell every character.
-/
namespace AugmentedBnf

open Matcher (SameLength)

/-- A rule with what its printed right-hand side is read as. -/
def Rule.reread (rule : Rule) : Rule := { rule with body := rule.body.reread }

namespace RuleTable

variable {rules : RuleTable}

/-- A table with what the printed right-hand sides are read as. -/
def reread (rules : RuleTable) : RuleTable :=
  ⟨rules.entries.map fun entry => (entry.1, entry.2.reread)⟩

/-- The right-hand sides are regular and printable throughout. -/
def Printable (rules : RuleTable) : Prop :=
  ∀ key rule, (key, rule) ∈ rules.entries →
    Expression.Everywhere Expression.Regular rule.body ∧
      Expression.Everywhere Expression.Printable rule.body

theorem keys_reread (rules : RuleTable) : rules.reread.keys = rules.keys := by
  rw [keys, reread, List.map_map]
  rfl

theorem find?_reread (rules : RuleTable) (key : Text) :
    rules.reread.find? key = (rules.find? key).map Rule.reread :=
  lookup_map (fun _ => Rule.reread) key rules.entries

end RuleTable

namespace Expression

/-- The second table is what the first one is read as. -/
def RereadTables (rules rules' : RuleTable) : Prop := rules' = rules.reread ∧ rules.Printable

/-- The induction is on the depth of rules: references enter the body of the one rule and what it is
read as of the other. -/
theorem sameLength_evaluateWithin (depth : Nat) {e : Expression} (h : Everywhere Regular e)
    (hprintable : Everywhere Printable e) :
    SameLength RereadTables (evaluateWithin depth e) (evaluateWithin depth e.reread) := by
  induction depth generalizing e with
  | zero =>
    intro c d _
    rfl
  | succ depth ih =>
    refine (sameMatches_of_printable ?_ h hprintable).whole
    intro name
    refine .reference ?_
    rintro rules _ ⟨rfl, hrules⟩
    rw [rules.find?_reread]
    cases hfind : rules.find? name with
    | none => exact .inl ⟨rfl, rfl⟩
    | some rule =>
      obtain ⟨hregular, hbody⟩ := hrules name rule (RuleTable.mem_of_find? hfind)
      exact .inr ⟨rule, rule.reread, rfl, rfl, rfl, ih hregular hbody⟩

theorem sameLength_evaluate {e : Expression} (h : Everywhere Regular e)
    (hprintable : Everywhere Printable e) :
    SameLength RereadTables e.evaluate e.reread.evaluate := by
  intro c d hcd
  have hsize : d.context.rules.size = c.context.rules.size := by
    rw [hcd.rules.1, RuleTable.reread, RuleTable.size, List.length_map, RuleTable.size]
  rw [evaluate, evaluate, nestingBound, nestingBound, hsize, ← hcd.remaining]
  exact sameLength_evaluateWithin _ h hprintable c d hcd

end Expression

theorem Grammar.length?_evaluate_reread {grammar listed : Grammar}
    (hlisted : listed.rules = grammar.rules.reread) (h : grammar.rules.Printable)
    (name input : Text) :
    (listed.evaluate name input).map Node.length? =
      (grammar.evaluate name input).map Node.length? := by
  unfold evaluate rule
  rw [hlisted, RuleTable.find?_reread]
  cases hfind : grammar.rules.find? name.upper with
  | none => rfl
  | some rule =>
    obtain ⟨hregular, hbody⟩ := h _ rule (RuleTable.mem_of_find? hfind)
    have hstart : Cursor.Beside Expression.RereadTables
        (.start rule.name ⟨input, grammar.rules⟩)
        (.start rule.name ⟨input, grammar.rules.reread⟩) :=
      ⟨rfl, rfl, rfl, rfl, h⟩
    have hlength := Expression.sameLength_evaluate hregular hbody _ _ hstart
    exact congrArg Except.ok hlength.symm

section Lines

open Token (Shows Stops visible Unfolded past isBlank)

/-- The notation has a place for everything in the expression, and its printed form does not start
with a slash. -/
def Expression.Listable (e : Expression) : Prop :=
  Everywhere Printable e ∧ (e.render.dropWhile isBlank).head? ≠ some '/'

theorem Expression.printable_string {pattern : Text}
    (h : ∀ c ∈ pattern, c.toNat ≤ Literal.maxCode) :
    (Expression.literal (.sensitive pattern)).Printable := by
  intro set hset c hc
  obtain ⟨d, hd, rfl⟩ := List.mem_map.mp hset
  rw [List.mem_singleton.mp (Charset.mem_ofList.mp hc)]
  exact h d hd

namespace RuleTable

variable {entries : List (Text × Rule)} {tokens : List Token}

/-- The lexemes in the line of a rule. -/
def shownLine (entry : Text × Rule) : List (Token.Kind × Text) :=
  (.ident, entry.1) :: (.equal, ['=']) :: (entry.2.body.shown ++ [(.lineBreak, ['\n'])])

theorem shows_line {key : Text} {rule : Rule} (hkey : key.isName = true)
    (hbody : Expression.Everywhere Expression.Regular rule.body) {rest : Text}
    {ws : List (Token.Kind × Text)} (hrest : ∀ c ∈ rest.head?, isBlank c = false)
    (h : Shows rest ws) :
    Shows (key ++ [' ', '=', ' '] ++ rule.body.render ++ ['\n'] ++ rest)
      (shownLine (key, rule) ++ ws) := by
  have hline : Shows ('\n' :: rest) ((.lineBreak, ['\n']) :: ws) :=
    Shows.lexeme (l := ['\n']) (Token.lexeme?_lf rest) (by decide) (fun _ => hrest) h
  have hstops : Stops ('\n' :: rest) := by
    rintro c ⟨⟩
    exact .inr (.inr (.inr rfl))
  have hshows := Expression.printed_render hbody _ _ hstops hline
  have hname : ∀ t : Text, ∀ c ∈ (' ' :: t).head?, Token.isNameChar c = false := by
    rintro t c ⟨⟩
    decide
  have hequal := Shows.mark Token.lexeme?_equal ⟨by decide, by decide⟩ (hshows.blank (c := ' ') rfl)
  have hwhole := Shows.ident hkey (hname _) (hequal.blank (c := ' ') rfl)
  simpa [shownLine] using hwhole

/-- A listing shows the lines of its rules, and no line is indented. -/
theorem shows_lines (h : ∀ entry ∈ entries, entry.1.isName = true ∧
    Expression.Everywhere Expression.Regular entry.2.body) :
    Shows (entries.flatMap fun entry =>
      entry.1 ++ [' ', '=', ' '] ++ entry.2.body.render ++ ['\n']) (entries.flatMap shownLine) := by
  induction entries with
  | nil => exact .nil
  | cons entry entries ih =>
    obtain ⟨⟨hkey, hbody⟩, hothers⟩ := List.forall_mem_cons.mp h
    rw [List.flatMap_cons, List.flatMap_cons]
    refine shows_line hkey hbody ?_ (ih hothers)
    intro c hc
    cases entries with
    | nil => cases hc
    | cons next more =>
      obtain ⟨first, rest, hname, hletter, -⟩ :=
        Text.exists_of_isName (hothers next List.mem_cons_self).1
      rw [List.flatMap_cons, hname] at hc
      cases hc
      exact Token.isBlank_of_isNameChar (Token.isNameChar_of_isLetter hletter)

theorem head?_lines (entries : List (Text × Rule)) :
    ∀ v ∈ (entries.flatMap shownLine).head?, v.1 ∉ Token.Kind.trivia := by
  cases entries with
  | nil => nofun
  | cons entry entries =>
    rintro v ⟨⟩ hmem
    exact absurd hmem (show Token.Kind.ident ∉ Token.Kind.trivia by decide)

end RuleTable

/-- The printed form is not taken for an assignment that adds alternatives. -/
theorem Expression.Listable.afterIncrement {e : Expression} (h : e.Listable)
    (hregular : Everywhere Regular e) {tokens : List Token} {text : Text}
    {ws : List (Token.Kind × Text)}
    (hvisible : visible tokens = e.shown ++ (.lineBreak, text) :: ws) :
    Token.afterIncrement tokens = past Token.Kind.inlineTrivia tokens ∧
      visible (past Token.Kind.inlineTrivia tokens) = e.shown ++ (.lineBreak, text) :: ws := by
  obtain ⟨kind, l, us, hfirst, hslash, hcomment⟩ : ∃ kind l us,
      e.shown ++ (.lineBreak, text) :: ws = (kind, l) :: us ∧ kind ≠ .slash ∧ kind ≠ .comment := by
    cases hshown : e.shown with
    | nil => exact ⟨.lineBreak, text, ws, rfl, by decide, by decide⟩
    | cons v vs =>
      obtain ⟨kind, l⟩ := v
      have husual : Usual (kind, l) := usual_shown e _ (hshown ▸ List.mem_cons_self)
      refine ⟨kind, l, _, rfl, ?_, husual.1⟩
      rintro rfl
      have hshows := printed_render hregular [] [] nofun .nil
      rw [List.append_nil, List.append_nil, hshown] at hshows
      obtain ⟨rest, hrest⟩ := hshows.exists_of_cons
      apply h.2
      rw [hrest, show l = ['/'] from husual.2 rfl]
      rfl
  rw [hfirst] at hvisible ⊢
  obtain ⟨token, others, hpast, rfl, hstill⟩ := visible_past_of_first hvisible hcomment
  refine ⟨?_, hstill⟩
  rw [Token.afterIncrement, hpast]
  exact if_neg hslash

/-- What is asked of the rules of a listing. -/
structure RuleTable.Listed (entry : Text × Rule) : Prop where
  isName : entry.1.isName = true
  name : entry.2.name = entry.1
  regular : Expression.Everywhere Expression.Regular entry.2.body
  listable : entry.2.body.Listable

namespace RuleTable

variable {entries : List (Text × Rule)} {tokens : List Token} {rules : RuleTable}

/-- A line of a listing defines its name anew. -/
theorem Listed.defines {entry : Text × Rule} (h : Listed entry) {ws : List (Token.Kind × Text)}
    (hvisible : visible tokens = shownLine entry ++ ws)
    (hpast : past Token.Kind.trivia tokens = tokens) (hunfolded : Unfolded tokens)
    (hws : ∀ v ∈ ws.head?, v.1 ∉ Token.Kind.trivia) :
    ∃ rest, Rule.Defines false tokens entry.1 entry.2.body.reread rest ∧ visible rest = ws ∧
      Unfolded rest := by
  obtain ⟨key, rule⟩ := entry
  rw [shownLine, List.cons_append, List.cons_append, List.append_assoc, List.singleton_append]
    at hvisible
  obtain ⟨name, r, hname, -, hident, htext, hr, hsuffix⟩ :=
    Token.exists_of_visible hvisible (by decide)
  obtain ⟨equal, r', hequal, -, hsign, -, hr', hsuffix'⟩ := Token.exists_of_visible hr (by decide)
  have htokens : tokens = name :: r := by
    rw [← hpast]
    exact Expression.past_trivia_eq hname (by rw [hident]; decide)
  have hnext : past Token.Kind.trivia r = equal :: r' :=
    Expression.past_trivia_eq hequal (by rw [hsign]; decide)
  obtain ⟨hbody, hstill⟩ := h.listable.afterIncrement h.regular hr'
  have hbehind : past Token.Kind.inlineTrivia r' <:+ tokens :=
    (Token.past_suffix _ _).trans (hsuffix'.trans hsuffix)
  obtain ⟨rest, hrest, hspells⟩ := (Expression.reread_of_printable h.regular h.listable.1).whole _ _
    hstill (Expression.closing_of_unfolded (hunfolded.suffix hbehind) _ ws)
  obtain ⟨line, others, hline, -, hkind, -, hothers, -⟩ := Token.exists_of_visible hrest (by decide)
  have hpastRest : past Token.Kind.trivia rest = past Token.Kind.trivia others := by
    have htrivia : line.kind ∈ Token.Kind.trivia := by
      rw [hkind]
      decide
    rw [← Expression.past_trivia_past_inline, hline, Token.past_cons, if_pos htrivia]
  refine ⟨past Token.Kind.trivia rest, ?_, ?_, ?_⟩
  · have hdefines : Rule.Defines false (name :: r) name.text.upper rule.body.reread
        (past Token.Kind.trivia rest) := by
      refine .intro hident hnext hsign ?_
      rw [Rule.bodyTokens, if_neg (by decide), hbody]
      exact hspells
    rwa [htext, Text.upper_of_isName h.isName, ← htokens] at hdefines
  · rw [hpastRest, Token.visible_past_trivia (by rw [hothers]; exact hws), hothers]
  · exact hunfolded.suffix ((Token.past_suffix _ _).trans (hspells.suffix.trans hbehind))

theorem define_of_not_mem {name : Text} (h : name ∉ rules.keys) (e : Expression) :
    rules.define name e = ⟨rules.entries ++ [(name, ⟨name, e⟩)]⟩ := by
  have hnone : rules.find? name = none := by
    rw [← Option.not_isSome_iff_eq_none, find?_isSome_iff]
    exact h
  have hplace := place_append name ⟨name, e⟩ rules.entries []
  have hkeys : name ∉ rules.entries.map (·.1) := h
  rw [List.append_nil, if_neg hkeys] at hplace
  rw [define, bodyWith, hnone, insert, hplace]
  rfl

/-- The lines of a listing define their rules one after the other. -/
theorem reads_of_lines (h : ∀ entry ∈ entries, Listed entry)
    (hvisible : visible tokens = entries.flatMap shownLine)
    (hpast : past Token.Kind.trivia tokens = tokens) (hunfolded : Unfolded tokens)
    (hnodup : (rules.keys ++ entries.map (·.1)).Nodup) :
    Reads rules tokens ⟨rules.entries ++ entries.map fun entry => (entry.1, entry.2.reread)⟩ := by
  induction entries generalizing rules tokens with
  | nil =>
    have hnil : tokens = [] := by
      rw [← hpast, ← Expression.past_trivia_past_inline, Token.past_of_visible_nil hvisible]
      rfl
    rw [hnil, List.map_nil, List.append_nil]
    exact .done
  | cons entry entries ih =>
    obtain ⟨hentry, hothers⟩ := List.forall_mem_cons.mp h
    rw [List.flatMap_cons] at hvisible
    obtain ⟨rest, hdefines, hrest, hunfoldedRest⟩ :=
      hentry.defines hvisible hpast hunfolded (head?_lines entries)
    have hfresh : entry.1 ∉ rules.keys := by
      intro hmem
      exact (List.nodup_append.mp hnodup).2.2 _ hmem _ List.mem_cons_self rfl
    have hunknown : (rules.find? entry.1).isSome = false := by
      rw [← Bool.not_eq_true, find?_isSome_iff]
      exact hfresh
    have hnodup' :
        ((rules.define entry.1 entry.2.body.reread).keys ++ entries.map (·.1)).Nodup := by
      rw [keys_define, if_neg hfresh, List.append_assoc]
      exact hnodup
    have hfixed : past Token.Kind.trivia rest = rest := hdefines.past_eq
    have hreads := ih hothers hrest hfixed hunfoldedRest hnodup'
    have hline : (⟨entry.1, entry.2.body.reread⟩ : Rule) = entry.2.reread := by
      rw [Rule.reread, hentry.name]
    rw [define_of_not_mem hfresh, hline, List.append_assoc] at hreads
    refine .next (hunknown ▸ hdefines) ?_
    rw [define_of_not_mem hfresh, hline]
    exact hreads

theorem ofSource_lines {entries : List (Text × Rule)} (h : ∀ entry ∈ entries, Listed entry)
    (hnodup : (entries.map (·.1)).Nodup) :
    ofSource (entries.flatMap fun entry =>
      entry.1 ++ [' ', '=', ' '] ++ entry.2.body.render ++ ['\n']) = .ok (reread ⟨entries⟩) := by
  have hshows := shows_lines fun entry hmem => ⟨(h entry hmem).isName, (h entry hmem).regular⟩
  obtain ⟨tokens, hscan, hvisible, hunfolded⟩ := hshows.scanAt 0
  refine ofSource_eq_ok_iff.mpr ⟨tokens, hscan, ?_⟩
  have hstill : visible (past Token.Kind.trivia tokens) = entries.flatMap shownLine := by
    rw [Token.visible_past_trivia (by rw [hvisible]; exact head?_lines entries), hvisible]
  exact reads_of_lines h hstill (Token.past_past _ _) (hunfolded.suffix (Token.past_suffix _ _))
    hnodup

end RuleTable

namespace Grammar

variable {grammar : Grammar}

/-- The listing of a compiled grammar whose right-hand sides can be listed is a grammar text of the
same rules, each with what its printed right-hand side is read as. -/
theorem Compiled.compile_listing_eq (h : Compiled grammar)
    (hlistable : ∀ key rule, (key, rule) ∈ grammar.rules.entries → rule.body.Listable)
    (mode : Mode) :
    Grammar.compile mode grammar.listing =
      .ok ⟨mode.normalize grammar.listing, grammar.rules.reread⟩ := by
  have hlisted : ∀ entry ∈ grammar.rules.entries, RuleTable.Listed entry := by
    rintro ⟨key, rule⟩ hmem
    obtain ⟨hname, hkey, hregular⟩ := h.regular key rule hmem
    exact ⟨hkey, hname, hregular, hlistable key rule hmem⟩
  have hlines : RuleTable.ofSource grammar.listing = .ok grammar.rules.reread :=
    RuleTable.ofSource_lines hlisted h.nodup_keys
  -- neither mode changes what the lines are read as
  have hmode := RuleTable.ofSource_of_normalizeLines_eq
    (Mode.normalizeLines_normalize mode grammar.listing)
  rw [hlines] at hmode
  refine ofSource_eq_ok_iff.mpr ⟨rfl, ?_⟩
  cases hsource : RuleTable.ofSource (mode.normalize grammar.listing) with
  | ok rules =>
    rw [hsource] at hmode
    exact congrArg Except.ok hmode
  | error cause =>
    rw [hsource] at hmode
    exact False.elim hmode

/-- Compiling the listing of a compiled grammar succeeds and gives the same names in the same order,
and every rule matches the same length of every input or fails where the original fails, if the
notation has a place for all that the right-hand sides hold and none of them starts with a slash. -/
theorem Compiled.compile_listing (h : Compiled grammar)
    (hlistable : ∀ key rule, (key, rule) ∈ grammar.rules.entries → rule.body.Listable)
    (mode : Mode) :
    ∃ listed, Grammar.compile mode grammar.listing = .ok listed ∧
      listed.rules.keys = grammar.rules.keys ∧
      ∀ name input, (listed.evaluate name input).map Node.length? =
        (grammar.evaluate name input).map Node.length? := by
  have hprintable : grammar.rules.Printable := by
    intro key rule hmem
    exact ⟨(h.regular key rule hmem).2.2, (hlistable key rule hmem).1⟩
  refine ⟨_, h.compile_listing_eq hlistable mode, grammar.rules.keys_reread, ?_⟩
  exact length?_evaluate_reread rfl hprintable

open Expression (everywhere_iff everywhere_of_leaf everywhere_of_inner) in
-- A literal of two positions becomes two operands of the sequence that it stands in.
theorem Compiled.compile_listing_split :
    let pair : Expression := .literal (.sensitive ['c', 'd'])
    let sequence : Expression := .concatenation [pair, .option (.reference ['B'])]
    let choice : Expression :=
      .alternation [.reference ['A'], .repetition ⟨2, some 2⟩ (.literal (.sensitive ['e']))]
    let grammar : Grammar := ⟨['a', '=', '%', 'x', '6', '3', '.', '6', '4', '[', 'b', ']', '\n',
      'b', '=', 'a', '/', '2', '%', 'x', '6', '5'],
      ⟨[(['A'], ⟨['A'], sequence⟩), (['B'], ⟨['B'], choice⟩)]⟩⟩
    Grammar.compile .strict grammar.source = .ok grammar ∧ sequence.Listable ∧ choice.Listable ∧
    ∃ listed, Grammar.compile .lenient grammar.listing = .ok listed ∧
      listed.rules.keys = grammar.rules.keys ∧
      ∀ name input, (listed.evaluate name input).map Node.length? =
        (grammar.evaluate name input).map Node.length? := by
  intro pair sequence choice grammar
  have hgrammar : Grammar.compile .strict grammar.source = .ok grammar := by decide
  have hsequence : sequence.Listable := by
    refine ⟨everywhere_iff.mpr ⟨trivial, ?_⟩, by decide⟩
    refine List.forall_mem_cons.mpr ⟨?_, List.forall_mem_singleton.mpr ?_⟩
    · exact everywhere_of_leaf rfl (Expression.printable_string (by simp [Literal.maxCode]))
    · exact everywhere_of_inner rfl trivial (everywhere_of_leaf rfl trivial)
  have hchoice : choice.Listable := by
    refine ⟨everywhere_iff.mpr ⟨trivial, ?_⟩, by decide⟩
    refine List.forall_mem_cons.mpr ⟨everywhere_of_leaf rfl trivial, ?_⟩
    refine List.forall_mem_singleton.mpr ?_
    refine everywhere_of_inner rfl rfl (everywhere_of_leaf rfl ?_)
    exact Expression.printable_string (by simp [Literal.maxCode])
  have hrules : ∀ key rule, (key, rule) ∈ grammar.rules.entries → rule.body.Listable := by
    intro key rule hmem
    rcases List.mem_cons.mp hmem with heq | hmem
    · cases heq
      exact hsequence
    · cases List.mem_singleton.mp hmem
      exact hchoice
  exact ⟨hgrammar, hsequence, hchoice, Compiled.compile_listing (.compile hgrammar) hrules .lenient⟩

-- A count stands in front of the first character of a printed string only.
theorem compile_listing_repeated_string :
    let repeated : Expression := .repetition ⟨2, some 2⟩ (.literal (.sensitive ['a', 'b']))
    let grammar : Grammar := ⟨['a', '=', '2', '%', 's', '"', 'a', 'b', '"', '\n'],
      ⟨[(['A'], ⟨['A'], repeated⟩)]⟩⟩
    let drifted : Expression := .concatenation
      [.repetition ⟨2, some 2⟩ (.literal (.sensitive ['a'])), .literal (.sensitive ['b'])]
    let listed : Grammar :=
      ⟨['A', ' ', '=', ' ', '2', '%', 'x', '6', '1', ' ', '%', 'x', '6', '2', '\n'], ⟨[(['A'], ⟨['A'], drifted⟩)]⟩⟩
    Grammar.compile .strict grammar.source = .ok grammar ∧ grammar.listing = listed.source ∧
    Grammar.compile .strict listed.source = .ok listed ∧
    (grammar.evaluate ['a'] ['a', 'b', 'a', 'b']).map Node.length? = .ok (some 4) ∧
    (listed.evaluate ['a'] ['a', 'b', 'a', 'b']).map Node.length? = .ok none := by
  intro repeated grammar drifted listed
  have hlisted : Grammar.compile .strict listed.source = .ok listed := by decide
  exact ⟨rfl, by decide, hlisted, rfl, rfl⟩

-- The slash behind an empty first alternative is taken for that of the assignment.
example :
    let grammar : Grammar := ⟨['a', '=', '"', '"', '/', 'b'],
      ⟨[(['A'], ⟨['A'], .alternation [.literal ⟨[]⟩, .reference ['B']]⟩)]⟩⟩
    let listed : Grammar := ⟨['A', ' ', '=', ' ', ' ', '/', ' ', 'B', '\n'],
      ⟨[(['A'], ⟨['A'], .reference ['B']⟩)]⟩⟩
    Grammar.compile .strict grammar.source = .ok grammar ∧ grammar.listing = listed.source ∧
    Grammar.compile .strict listed.source = .ok listed := by
  decide

-- A numeric value cannot spell what a string can hold.
example :
    let grammar : Grammar := ⟨['a', '=', '%', 's', '"', 'Ā', '"'],
      ⟨[(['A'], ⟨['A'], .literal (.sensitive ['Ā'])⟩)]⟩⟩
    Grammar.compile .strict grammar.source = .ok grammar ∧
    grammar.listing = ['A', ' ', '=', ' ', '%', 'x', '1', '0', '0', '\n'] ∧
    Grammar.compile .strict grammar.listing = .error (.invalidRange ['%', 'x', '1', '0', '0']) := by
  decide

end Grammar

end Lines

end AugmentedBnf
