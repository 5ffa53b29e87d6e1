import Mathlib.Data.List.Forall2
import AugmentedBnf.Evaluation.Query
import AugmentedBnf.Proofs.Evaluation.Paths
import AugmentedBnf.Proofs.Grammar.NormalForm

/-! # What a name stands for

A name is met in four places: it looks a rule up, it is written in a grammar as a reference, it is asked
for in a query, and it is one of the names of a path that is asked for. The keys of a compiled grammar
are in upper case and the names on the paths of its trees are keys, so in all of these places a name
stands for the rule whose key is the name in upper case.
-/
namespace AugmentedBnf

open Token (past)

namespace RuleTable

variable {rules : RuleTable} {key : Text} {rule : Rule}

theorem mem_keys_iff : key ∈ rules.keys ↔ ∃ rule, rules.find? key = some rule := by
  rw [← find?_isSome_iff, Option.isSome_iff_exists]

/-- Where no key is repeated, a key finds every rule that stands under it. -/
theorem find?_eq_some_iff_mem (h : rules.keys.Nodup) :
    rules.find? key = some rule ↔ (key, rule) ∈ rules.entries := by
  refine ⟨mem_of_find?, fun hmem => ?_⟩
  obtain ⟨before, after, hentries⟩ := List.append_of_mem hmem
  rw [keys, hentries, List.map_append, List.map_cons] at h
  refine List.lookup_eq_some_iff.mpr ⟨before, after, hentries, fun entry hentry => ?_⟩
  rw [bne_iff_ne]
  exact ((List.nodup_append.mp h).2.2 entry.1 (List.mem_map_of_mem hentry) key
    List.mem_cons_self).symm

end RuleTable

/-- The path goes through rules of the table only. -/
def Path.Within (rules : RuleTable) (path : Path) : Prop := ∀ name ∈ path.segments, name ∈ rules.keys

theorem Path.Within.fork {rules : RuleTable} {path : Path} {name : Text} (h : path.Within rules)
    (hname : name ∈ rules.keys) : (path.fork name).Within rules := by
  intro other hother
  rw [segments_fork, List.mem_append, List.mem_singleton] at hother
  rcases hother with hother | rfl
  · exact h other hother
  · exact hname

theorem Path.mem_segments_of_tail? {path : Path} {tail : Text} (h : path.tail? = some tail) :
    tail ∈ path.segments :=
  List.mem_reverse.mpr (List.mem_of_mem_head? h)

namespace Attempt

variable {x start : Attempt} {above : List Attempt}

theorem within_node (hkeyed : x.cursor.context.rules.Keyed)
    (h : x.cursor.path.Within x.cursor.context.rules) :
    x.node.path.Within x.cursor.context.rules := by
  rcases x.node_cases with ⟨-, hcursor⟩ | ⟨name, rule, -, hrule, -, hnode⟩
  · rw [Node.path, hcursor]
    exact h
  · have hkey : rule.name ∈ x.cursor.context.rules.keys := by
      rw [hkeyed name rule hrule]
      exact RuleTable.mem_keys_iff.mpr ⟨rule, hrule⟩
    rw [hnode, Node.path, Node.cursor_entered]
    exact h.fork hkey

theorem within_of_lineage (hkeyed : start.cursor.context.rules.Keyed)
    (h : start.cursor.path.Within start.cursor.context.rules) (walk : Lineage Makes start above x) :
    x.node.path.Within start.cursor.context.rules := by
  induction walk with
  | root => exact within_node hkeyed h
  | @next above x y walk hstep ih =>
    have hcontext : y.cursor.context = start.cursor.context := by
      rw [hstep.context_eq, context_of_lineage walk]
    have hnode := within_node (x := y) (by rwa [hcontext]) (by rwa [hcontext, hstep.path_eq.1])
    rwa [hcontext] at hnode

end Attempt

/-- The nodes of the tree of a rule stand on paths through rules of its table. -/
theorem Rule.within_of_mem_preorder {rule : Rule} {rules : RuleTable} (hkeyed : rules.Keyed)
    (hrule : rule.name ∈ rules.keys) {input : Text} {node : Node}
    (hnode : node ∈ (rule.evaluateIn rules input).preorder) : node.path.Within rules := by
  obtain ⟨above, x, hwalk, rfl⟩ :=
    Attempt.exists_of_mem_preorder (x := rule.attempt rules input) hnode
  have hempty : Path.empty.Within rules := nofun
  exact Attempt.within_of_lineage hkeyed (hempty.fork hrule) hwalk

theorem Path.sameNames_iff {names others : List Text} : sameNames names others = true ↔
    List.Forall₂ (fun name other => Text.sameName name other = true) names others := by
  rw [sameNames, Bool.and_eq_true, List.all_eq_true, beq_iff_eq, List.forall₂_iff_zip]
  constructor
  · rintro ⟨hlength, hzip⟩
    exact ⟨hlength, fun {name other} hmem => hzip (name, other) hmem⟩
  · rintro ⟨hlength, hzip⟩
    exact ⟨hlength, fun _ hmem => hzip hmem⟩

theorem Path.matchesSegments_iff {path : Path} {names : List Text} :
    path.matchesSegments names = true ↔
      List.Forall₂ (fun segment name => Text.sameName segment name = true) path.segments names := by
  rw [matchesSegments, sameNames_iff, ← List.forall₂_reverse_iff, List.reverse_reverse, segments]

namespace Expression

/-- An identifier is read as a reference to its upper case. -/
theorem readElement_ident (inside : Reader Expression) {token : Token} (h : token.kind = .ident)
    (rest : List Token) (size : Nat) :
    readElement inside ⟨token :: rest, size⟩ = .ok (.reference token.text.upper) ⟨rest, size⟩ := by
  have hpast : past Token.Kind.inlineTrivia (token :: rest) = token :: rest := by
    rw [Token.past_cons, h]
    rfl
  rw [readElement_of_past hpast, h, if_neg (by decide)]
  exact Reader.bind_of_ok (Reader.consume_cons h rest size) _

/-- What a reference does by the rule that is found for it. -/
theorem evaluate_reference_eq (name : Text) (c : Cursor) :
    (reference name).evaluate c = match c.context.rule? name with
      | none => .failure c .reference .referenceNotFound []
      | some rule =>
        if c.isActive rule.name then .failure c .reference .referenceCyclicRecursion []
        else .entered (c.label rule.name) (rule.body.evaluate (c.label rule.name)) := by
  rw [evaluate_reference]
  rfl

end Expression

namespace Grammar

variable {grammar : Grammar} {q key : Text} {rule : Rule}

/-- The rule under a key is the one that a name looks up. -/
def Names (grammar : Grammar) (key name : Text) : Prop :=
  ∃ rule, grammar.rules.find? key = some rule ∧ grammar.rule name = .ok rule

theorem rule_eq_ok_iff : grammar.rule q = .ok rule ↔ grammar.rules.find? q.upper = some rule := by
  unfold Grammar.rule
  cases grammar.rules.find? q.upper <;> simp

theorem evaluate_eq_ok_iff {input : Text} {root : Node} : grammar.evaluate q input = .ok root ↔
    ∃ rule, grammar.rule q = .ok rule ∧ root = rule.evaluateIn grammar.rules input := by
  unfold Grammar.evaluate
  cases grammar.rule q with
  | error cause => simp [bind, Except.bind]
  | ok rule => simp [bind, Except.bind, pure, Except.pure, eq_comm]

theorem Compiled.keyed (h : Compiled grammar) : grammar.rules.Keyed :=
  RuleTable.keyed_ofSource h.ofSource_source

theorem Compiled.isName_of_mem_keys (h : Compiled grammar) (hkey : key ∈ grammar.rules.keys) :
    key.isName = true := by
  obtain ⟨entry, hentry, rfl⟩ := List.mem_map.mp hkey
  exact (h.regular entry.1 entry.2 hentry).2.1

/-- The nodes of the tree of a rule stand on paths through rules of the grammar. -/
theorem Compiled.within_of_mem_preorder (h : Compiled grammar)
    (hrule : grammar.rules.find? key = some rule) {input : Text} {node : Node}
    (hnode : node ∈ (rule.evaluateIn grammar.rules input).preorder) :
    node.path.Within grammar.rules := by
  refine Rule.within_of_mem_preorder h.keyed ?_ hnode
  rw [h.keyed key rule hrule]
  exact RuleTable.mem_keys_iff.mpr ⟨rule, hrule⟩

/-- A key is the same name as another if it is the upper case of it. -/
theorem Compiled.sameName_iff (h : Compiled grammar) (hkey : key ∈ grammar.rules.keys) :
    Text.sameName key q = true ↔ q.upper = key := by
  rw [Text.sameName, beq_iff_eq, Text.upper_of_isName (h.isName_of_mem_keys hkey), eq_comm]

theorem Compiled.rule_eq_ok_iff_mem (h : Compiled grammar) : grammar.rule q = .ok rule ↔
    ∃ key, (key, rule) ∈ grammar.rules.entries ∧ Text.sameName key q = true := by
  rw [rule_eq_ok_iff, RuleTable.find?_eq_some_iff_mem h.nodup_keys]
  constructor
  · intro hmem
    exact ⟨q.upper, hmem, (h.sameName_iff (List.mem_map_of_mem hmem)).mpr rfl⟩
  · rintro ⟨key, hmem, hsame⟩
    rwa [(h.sameName_iff (List.mem_map_of_mem hmem)).mp hsame]

/-- A key and a name stand for one rule if and only if they are the same name. -/
theorem Compiled.names_iff (h : Compiled grammar) (hkey : key ∈ grammar.rules.keys) :
    grammar.Names key q ↔ Text.sameName key q = true := by
  rw [h.sameName_iff hkey]
  constructor
  · rintro ⟨rule, hfound, hrule⟩
    rw [rule_eq_ok_iff] at hrule
    rw [← h.keyed _ _ hrule, h.keyed _ _ hfound]
  · rintro rfl
    obtain ⟨rule, hfound⟩ := RuleTable.mem_keys_iff.mp hkey
    exact ⟨rule, hfound, rule_eq_ok_iff.mpr hfound⟩

theorem Compiled.matchesSegments_iff (h : Compiled grammar) {path : Path}
    (hpath : path.Within grammar.rules) (names : List Text) :
    path.matchesSegments names = true ↔ List.Forall₂ grammar.Names path.segments names := by
  have hsame : (fun key name => key ∈ grammar.rules.keys ∧ Text.sameName key name = true) =
      fun key name => key ∈ grammar.rules.keys ∧ grammar.Names key name := by
    funext key name
    exact propext (and_congr_right fun hkey => (h.names_iff hkey).symm)
  have hboth := iff_of_eq (congrArg (fun R => List.Forall₂ R path.segments names) hsame)
  rw [List.forall₂_and_left, List.forall₂_and_left] at hboth
  rw [Path.matchesSegments_iff]
  exact (and_iff_right hpath).symm.trans (hboth.trans (and_iff_right hpath))

theorem Compiled.tail?_any_iff (h : Compiled grammar) {path : Path}
    (hpath : path.Within grammar.rules) (name : Text) :
    (path.tail?.any fun tail => Text.sameName tail name) = true ↔
      ∃ tail, path.tail? = some tail ∧ grammar.Names tail name := by
  rw [Option.any_eq_true]
  refine exists_congr fun tail => and_congr_right fun htail => ?_
  exact (h.names_iff (hpath tail (Path.mem_segments_of_tail? htail))).symm

/-- Names resolve in one way. A name, in any case, looks up the rule under the one key that is the same
name, and fails if there is none. Where an identifier of that name is written in a grammar, it is read
as a reference that enters the rule which the name looks up. On the nodes of the tree of a rule, asking
for a name is asking whether it looks up the rule at the end of the path, and asking for a path whether
its names look up the rules on the path, one for one. -/
theorem Compiled.names_agree (h : Compiled grammar) :
    (∀ name : Text,
      ((∃ rule, grammar.rule name = .ok rule) ↔
        ∃ entry ∈ grammar.rules.entries, Text.sameName entry.1 name = true) ∧
      (∀ entry ∈ grammar.rules.entries, Text.sameName entry.1 name = true →
        grammar.rule name = .ok entry.2 ∧
        ∀ other ∈ grammar.rules.entries, Text.sameName other.1 name = true → other = entry) ∧
      (∀ (inside : Reader Expression) (token : Token) (rest : List Token) (size : Nat),
        token.kind = .ident → Text.sameName token.text name = true →
        Expression.readElement inside ⟨token :: rest, size⟩ =
          .ok (.reference name.upper) ⟨rest, size⟩) ∧
      ∀ c : Cursor, c.context.rules = grammar.rules →
        (Expression.reference name.upper).evaluate c = match grammar.rule name with
          | .error _ => .failure c .reference .referenceNotFound []
          | .ok rule =>
            if c.isActive rule.name then .failure c .reference .referenceCyclicRecursion []
            else .entered (c.label rule.name) (rule.body.evaluate (c.label rule.name))) ∧
    (∀ entry ∈ grammar.rules.entries, ∀ input,
      ∀ node ∈ (entry.2.evaluateIn grammar.rules input).preorder,
        (∀ segment ∈ node.path.segments, ∃ rule, grammar.rules.find? segment = some rule ∧
          rule.name = segment) ∧
        (∀ name, Query.holds { Query.any with name := some name } node = true ↔
          ∃ tail, node.path.tail? = some tail ∧ grammar.Names tail name) ∧
        ∀ names, Query.holds { Query.any with path := some names } node = true ↔
          List.Forall₂ grammar.Names node.path.segments names) ∧
    ∀ (path : Path) (names : List Text),
      path.matchesSegments names = path.matchesPath (.ofSegments names) := by
  refine ⟨fun name => ⟨?_, ?_, ?_, ?_⟩, ?_, Path.matchesSegments_eq_matchesPath⟩
  · simp only [h.rule_eq_ok_iff_mem, Prod.exists]
    exact exists_comm
  · intro entry hentry hsame
    have hrule := h.rule_eq_ok_iff_mem.mpr ⟨entry.1, hentry, hsame⟩
    refine ⟨hrule, fun other hother hsame' => ?_⟩
    have hrule' := h.rule_eq_ok_iff_mem.mpr ⟨other.1, hother, hsame'⟩
    have hkey := (h.sameName_iff (List.mem_map_of_mem hentry)).mp hsame
    have hkey' := (h.sameName_iff (List.mem_map_of_mem hother)).mp hsame'
    rw [hrule, Except.ok.injEq] at hrule'
    exact Prod.ext (hkey'.symm.trans hkey) hrule'.symm
  · intro inside token rest size hident hsame
    rw [Expression.readElement_ident inside hident, eq_of_beq hsame]
  · intro c hrules
    rw [Expression.evaluate_reference_eq, Context.rule?, hrules, Grammar.rule]
    cases grammar.rules.find? name.upper <;> rfl
  · intro entry hentry input node hnode
    have hfound := (RuleTable.find?_eq_some_iff_mem h.nodup_keys).mpr hentry
    have hpath := h.within_of_mem_preorder hfound hnode
    refine ⟨fun segment hsegment => ?_, fun name => ?_, fun names => ?_⟩
    · obtain ⟨rule, hfound⟩ := RuleTable.mem_keys_iff.mp (hpath segment hsegment)
      exact ⟨rule, hfound, h.keyed _ _ hfound⟩
    · rw [← h.tail?_any_iff hpath]
      simp [Query.holds, Query.any]
    · rw [← h.matchesSegments_iff hpath]
      simp [Query.holds, Query.any]

/-- A name in other letters that has the upper case of a key: it looks the rule up, the reference to it
enters that rule, and it finds the node behind the rule. -/
theorem Compiled.names_agree_sharp_s :
    let source : Text := ['s', 's', '=', '"', 'x', '"', '\n', 'a', '=', 'S', 's', '\n']
    let inner : Rule := ⟨['S', 'S'], .literal (.insensitive ['x'])⟩
    let outer : Rule := ⟨['A'], .reference ['S', 'S']⟩
    let grammar : Grammar := ⟨source, ⟨[(['S', 'S'], inner), (['A'], outer)]⟩⟩
    let root := outer.evaluateIn grammar.rules ['X']
    let token : Token := ⟨.ident, 9, 2, ['S', 's']⟩
    Grammar.compile .strict source = .ok grammar ∧
      Text.sameName ['S', 'S'] ['ß'] = true ∧ grammar.rule ['ß'] = .ok inner ∧
      Text.sameName token.text ['ß'] = true ∧
      Expression.readElement Expression.read ⟨[token], 12⟩ =
        .ok (.reference (Text.upper ['ß'])) ⟨[], 12⟩ ∧
      root.path.segments = [['A'], ['S', 'S']] ∧ grammar.Names ['S', 'S'] ['ß'] ∧
      Query.holds { Query.any with name := some ['ß'] } root = true ∧
      Query.holds { Query.any with path := some [['a'], ['ß']] } root = true ∧
      Query.holds { Query.any with name := some ['a'] } root = false := by
  intro source inner outer grammar root token
  have hgrammar : Grammar.compile .strict source = .ok grammar := rfl
  obtain ⟨hnames, hnodes, -⟩ := Compiled.names_agree (.compile hgrammar)
  obtain ⟨-, hrule, hread, -⟩ := hnames ['ß']
  have hsame : Text.sameName ['S', 'S'] ['ß'] = true := by decide
  have hfound := (hrule (['S', 'S'], inner) (by decide) hsame).1
  have hsharp : grammar.Names ['S', 'S'] ['ß'] := ⟨inner, rfl, hfound⟩
  have hroot : root ∈ root.preorder := List.mem_cons_self
  obtain ⟨-, hname, hpath⟩ := hnodes (['A'], outer) (by decide) ['X'] root hroot
  refine ⟨hgrammar, hsame, hfound, by decide, hread _ token [] 12 rfl (by decide), by decide, hsharp,
    (hname ['ß']).mpr ⟨['S', 'S'], by decide, hsharp⟩, ?_, by decide⟩
  exact (hpath [['a'], ['ß']]).mpr (.cons ⟨outer, rfl, rfl⟩ (.cons hsharp .nil))

end Grammar

end AugmentedBnf
