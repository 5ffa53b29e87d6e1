import AugmentedBnf.Proofs.Charset.Runs
import AugmentedBnf.Proofs.Evaluation.Recognition
import AugmentedBnf.Proofs.Grammar.Names

/-! # The core rules

The text of the core rules compiles, and its rules match what RFC 5234, appendix B.1, says. Most of
them match one character of a set, which their bodies show. Linear white space is a repetition of
strings that make up a prefix code, so its greedy rounds take the longest front.
-/
namespace AugmentedBnf.Grammar

open Expression (Recognizes)
open Token (oneOf mem_oneOf mem_oneOf_mul)
open scoped Computability

/-- A character with a code point from the first to the last. -/
def codes (first last : Nat) : Expression := .literal ⟨[.range first last]⟩

/-- A character in either case. -/
def anyCase (c : Char) : Expression := .literal (.insensitive [c])

/-- The rules that the text of the core rules defines. -/
def coreRules : RuleTable where
  entries := [
    ("ALPHA", .alternation [codes 0x41 0x5A, codes 0x61 0x7A]),
    ("BIT", .alternation [anyCase '0', anyCase '1']),
    ("CHAR", codes 0x01 0x7F),
    ("CR", codes 0x0D 0x0D),
    ("CRLF", .concatenation [.reference "CR".toList, .reference "LF".toList]),
    ("CTL", .alternation [codes 0x00 0x1F, codes 0x7F 0x7F]),
    ("DIGIT", codes 0x30 0x39),
    ("DQUOTE", codes 0x22 0x22),
    ("HEXDIG", .alternation (.reference "DIGIT".toList :: ['A', 'B', 'C', 'D', 'E', 'F'].map anyCase)),
    ("HTAB", codes 0x09 0x09),
    ("LF", codes 0x0A 0x0A),
    ("LWSP", .repetition ⟨0, none⟩ (.group (.alternation [.reference "WSP".toList,
      .concatenation [.reference "CRLF".toList, .reference "WSP".toList]]))),
    ("OCTET", codes 0x00 0xFF),
    ("SP", codes 0x20 0x20),
    ("VCHAR", codes 0x21 0x7E),
    ("WSP", .alternation [.reference "SP".toList, .reference "HTAB".toList])
  ].map fun (name, body) => (name.toList, ⟨name.toList, body⟩)

/-- The rules that match one character, with the code points they admit. -/
def coreCharacters : List (String × List (Nat × Nat)) := [
  ("ALPHA", [(0x41, 0x5A), (0x61, 0x7A)]),
  ("BIT", [(0x30, 0x31)]),
  ("CHAR", [(0x01, 0x7F)]),
  ("CR", [(0x0D, 0x0D)]),
  ("CTL", [(0x00, 0x1F), (0x7F, 0x7F)]),
  ("DIGIT", [(0x30, 0x39)]),
  ("DQUOTE", [(0x22, 0x22)]),
  ("HEXDIG", [(0x30, 0x39), (0x41, 0x46), (0x61, 0x66)]),
  ("HTAB", [(0x09, 0x09)]),
  ("LF", [(0x0A, 0x0A)]),
  ("OCTET", [(0x00, 0xFF)]),
  ("SP", [(0x20, 0x20)]),
  ("VCHAR", [(0x21, 0x7E)]),
  ("WSP", [(0x09, 0x09), (0x20, 0x20)])]

/-- What linear white space is made of: a blank, which a line ending may stand in front of. -/
def linearBlank : Language Char := {[' '], ['\t'], ['\r', '\n', ' '], ['\r', '\n', '\t']}

section Compilation

set_option maxRecDepth 100000 in
theorem exists_coreText : ∃ text : Text, coreText = String.ofList text ∧
    (RuleTable.ofSource (Mode.normalizeLines text)).toOption = some coreRules :=
  ⟨_, rfl, by decide +kernel⟩

/-- The grammar of the core rules, with its text as it is read. -/
def coreGrammar : Grammar := ⟨Mode.normalizeLines coreSource, coreRules⟩

theorem core_eq : core = .ok coreGrammar := by
  obtain ⟨text, htext, hrules⟩ := exists_coreText
  have hsource : coreSource = text := by rw [coreSource, htext, String.toList_ofList]
  rw [core, compile, coreGrammar, ofSource_eq_ok_iff, hsource]
  refine ⟨rfl, ?_⟩
  cases hread : RuleTable.ofSource (Mode.normalizeLines text) with
  | error cause => simp [hread, Except.toOption] at hrules
  | ok rules =>
    rw [hread] at hrules
    exact hread.trans (congrArg Except.ok (Option.some.inj hrules))

theorem coherent_coreRules : coreRules.Coherent := (Compiled.compile core_eq).keyed.coherent

end Compilation

section Recognition

variable {name : Text} {rule : Rule} {L : Language Char}

theorem evaluate_core (hrule : coreRules.find? name.upper = some rule) (input : Text) :
    coreGrammar.evaluate name input = .ok (rule.evaluateIn coreRules input) :=
  evaluate_eq_ok_iff.mpr ⟨rule, rule_eq_ok_iff.mpr hrule, rfl⟩

theorem length?_evaluateIn (h : rule.body.Recognizes coreRules L) (input : Text) (n : Nat) :
    (rule.evaluateIn coreRules input).length? = some n ↔
      ∃ w : Text, w ∈ L ∧ w <+: input ∧ w.byteSize = n := by
  rw [Rule.evaluateIn, h.length?_evaluate coherent_coreRules rfl rfl, Cursor.reads_iff, Cursor.start,
    Cursor.remaining_new]

theorem recognizes_reference {cs : List Char} (h : coreRules.lone? 2 name = some (.ofList cs)) :
    Recognizes coreRules (.reference name) (oneOf cs.contains) := by
  obtain ⟨rule, hrule, hbody⟩ := RuleTable.recognizes_of_lone? h
  rw [Charset.contains_ofList] at hbody
  exact .reference hrule hbody

theorem mem_lineEnd {w : Text} : w ∈ ({['\r', '\n']} : Language Char) ↔ w = ['\r', '\n'] := Iff.rfl

theorem recognizes_lineEnd : Recognizes coreRules
    (.concatenation [.reference "CR".toList, .reference "LF".toList]) {['\r', '\n']} := by
  have hreturn : Recognizes coreRules (.reference "CR".toList) (oneOf ['\r'].contains) :=
    recognizes_reference (by decide +kernel)
  have hline : Recognizes coreRules (.reference "LF".toList) (oneOf ['\n'].contains) :=
    recognizes_reference (by decide +kernel)
  have hwords : [oneOf ['\r'].contains, oneOf ['\n'].contains].prod = {['\r', '\n']} := by
    ext w
    simp [mem_oneOf_mul, mem_oneOf, mem_lineEnd]
  exact hwords ▸ .concatenation (.cons hreturn (.cons hline .nil))

theorem mem_linearBlank {w : Text} : w ∈ linearBlank ↔
    w = [' '] ∨ w = ['\t'] ∨ w = ['\r', '\n', ' '] ∨ w = ['\r', '\n', '\t'] := Iff.rfl

theorem prefixCode_linearBlank : PrefixCode linearBlank := by
  rw [prefixCode_iff]
  rintro v (rfl | rfl | rfl | rfl) w (rfl | rfl | rfl | rfl) <;> decide

theorem recognizes_linearBlank : Recognizes coreRules (.group (.alternation [.reference "WSP".toList,
    .concatenation [.reference "CRLF".toList, .reference "WSP".toList]])) linearBlank := by
  have hblank : Recognizes coreRules (.reference "WSP".toList) (oneOf ['\t', ' '].contains) :=
    recognizes_reference (by decide +kernel)
  have hend : Recognizes coreRules (.reference "CRLF".toList) {['\r', '\n']} :=
    .reference (by rfl) recognizes_lineEnd
  have hsecond := Recognizes.concatenation (.cons hend (.cons hblank .nil))
  have hblanks (v : Text) : v ∈ oneOf ['\t', ' '].contains ↔ v = ['\t'] ∨ v = [' '] := by
    simp [mem_oneOf]
  have hwords : [oneOf ['\t', ' '].contains,
      [{['\r', '\n']}, oneOf ['\t', ' '].contains].prod].sum = linearBlank := by
    ext w
    rw [List.sum_cons, List.sum_singleton, List.prod_cons, List.prod_singleton]
    simp only [Language.mem_add, Language.mem_mul, hblanks, mem_lineEnd, mem_linearBlank]
    grind
  have hcode : PrefixCode [oneOf ['\t', ' '].contains,
      [{['\r', '\n']}, oneOf ['\t', ' '].contains].prod].sum := hwords ▸ prefixCode_linearBlank
  exact hwords ▸ .group (.alternation (.cons hblank (.cons hsecond .nil)) hcode)

end Recognition

/-- The rules for single characters show their sets: where one refers to another, that one refers to
none. -/
theorem lone?_core : ∀ entry ∈ coreCharacters,
    (coreRules.lone? 2 entry.1.toList).map Charset.runs = some entry.2 ∧
      Text.upper entry.1.toList = entry.1.toList := by decide +kernel

theorem evaluate_character {name : String} {codes : List (Nat × Nat)}
    (h : (name, codes) ∈ coreCharacters) (input : Text) :
    ∃ node, coreGrammar.evaluate name.toList input = .ok node ∧
      ∀ n, node.length? = some n ↔ ∃ c rest, input = c :: rest ∧
        (∃ run ∈ codes, Charset.Covers run c.toNat) ∧ n = c.utf8Size := by
  obtain ⟨hruns, hupper⟩ := lone?_core _ h
  obtain ⟨set, hset, rfl⟩ := Option.map_eq_some_iff.mp hruns
  obtain ⟨rule, hrule, hbody⟩ := RuleTable.recognizes_of_lone? hset
  refine ⟨_, evaluate_core (by rwa [hupper]) input, fun n => ?_⟩
  rw [length?_evaluateIn hbody]
  constructor
  · rintro ⟨_, ⟨c, hc, rfl⟩, ⟨rest, rfl⟩, rfl⟩
    refine ⟨c, rest, rfl, Charset.mem_iff_covers.mp (Charset.contains_iff.mp hc), ?_⟩
    simp
  · rintro ⟨c, rest, rfl, hc, rfl⟩
    refine ⟨[c], ⟨c, Charset.contains_iff.mpr (Charset.mem_iff_covers.mpr hc), rfl⟩, ⟨rest, rfl⟩, ?_⟩
    simp

theorem evaluate_lineEnd (input : Text) :
    ∃ node, coreGrammar.evaluate "CRLF".toList input = .ok node ∧
      ∀ n, node.length? = some n ↔ ['\r', '\n'] <+: input ∧ n = 2 := by
  refine ⟨_, evaluate_core (by rfl) input, fun n => ?_⟩
  rw [length?_evaluateIn recognizes_lineEnd]
  constructor
  · rintro ⟨_, rfl, hfront, rfl⟩
    exact ⟨hfront, rfl⟩
  · rintro ⟨hfront, rfl⟩
    exact ⟨_, rfl, hfront, rfl⟩

theorem evaluate_linearBlank (input : Text) :
    ∃ node, coreGrammar.evaluate "LWSP".toList input = .ok node ∧
      ∃ blank ∈ linearBlank∗, blank <+: input ∧
        (∀ front ∈ linearBlank∗, front <+: input → front <+: blank) ∧
        node.length? = some (Text.byteSize blank) := by
  refine ⟨_, evaluate_core (by rfl) input, ?_⟩
  have hnil : [] ∉ linearBlank := by
    rw [mem_linearBlank]
    decide
  have hgreedy := recognizes_linearBlank.evaluate_repetition coherent_coreRules
    (c := .start "LWSP".toList ⟨input, coreRules⟩) rfl rfl hnil
  rwa [Cursor.start, Cursor.remaining_new] at hgreedy

/-- The core rules match what the standard says, on every input. Linear white space always succeeds
and takes the longest front that is made of blanks and of line endings with a blank behind them. A
line ending is a carriage return and a line feed. Every other rule matches the first character if it
is one of its own. -/
theorem core_conforms : ∃ grammar, core = .ok grammar ∧ ∀ input : Text,
    (∃ node, grammar.evaluate "LWSP".toList input = .ok node ∧
      ∃ blank ∈ linearBlank∗, blank <+: input ∧
        (∀ front ∈ linearBlank∗, front <+: input → front <+: blank) ∧
        node.length? = some (Text.byteSize blank)) ∧
    (∃ node, grammar.evaluate "CRLF".toList input = .ok node ∧
      ∀ n, node.length? = some n ↔ ['\r', '\n'] <+: input ∧ n = 2) ∧
    ∀ name codes, (name, codes) ∈ coreCharacters →
      ∃ node, grammar.evaluate name.toList input = .ok node ∧
        ∀ n, node.length? = some n ↔ ∃ c rest, input = c :: rest ∧
          (∃ run ∈ codes, Charset.Covers run c.toNat) ∧ n = c.utf8Size :=
  ⟨coreGrammar, core_eq, fun input =>
    ⟨evaluate_linearBlank input, evaluate_lineEnd input, fun _ _ h => evaluate_character h input⟩⟩

/-- A folded line: the blank behind the line ending belongs to the white space. -/
theorem core_conforms_folded : ∃ grammar, core = .ok grammar ∧
    (∃ node, grammar.evaluate "LWSP".toList ['\r', '\n', ' ', 'x'] = .ok node ∧
      ∃ blank, ['\r', '\n', ' '] <+: blank ∧ blank <+: ['\r', '\n', ' ', 'x'] ∧
        node.length? = some (Text.byteSize blank)) ∧
    (∃ node, grammar.evaluate "CRLF".toList ['\r', '\n', ' ', 'x'] = .ok node ∧
      node.length? = some 2) ∧
    ∃ node, grammar.evaluate "CTL".toList ['\r', '\n', ' ', 'x'] = .ok node ∧
      node.length? = some 1 := by
  obtain ⟨grammar, hcore, hmatches⟩ := core_conforms
  obtain ⟨⟨space, hspace, blank, -, hblank, hlongest, hsize⟩, ⟨line, hline, hend⟩, hcharacters⟩ :=
    hmatches ['\r', '\n', ' ', 'x']
  obtain ⟨control, hcontrol, hlength⟩ :=
    hcharacters "CTL" [(0x00, 0x1F), (0x7F, 0x7F)] (by decide)
  have hfront : ['\r', '\n', ' '] ∈ linearBlank∗ :=
    (le_kstar : linearBlank ≤ linearBlank∗) (.inr (.inr (.inl rfl)))
  refine ⟨grammar, hcore, ⟨space, hspace, blank, hlongest _ hfront (by decide), hblank, hsize⟩,
    ⟨line, hline, (hend 2).mpr (by decide)⟩, control, hcontrol, (hlength 1).mpr ?_⟩
  exact ⟨'\r', ['\n', ' ', 'x'], rfl, ⟨(0x00, 0x1F), by decide, by decide, by decide⟩, rfl⟩

end AugmentedBnf.Grammar
