import AugmentedBnf.Proofs.Evaluation.NodeLaws

/-! # The spans of nodes

A node that matched covers a span of the input, in whole characters, and its text is what the span
spells: looking at the input through a window never cuts a character and never runs past the end.
The texts of a sequence are those of its parts. A cursor that stands inside a character or past
the end finds nothing to match, so no offset ever exceeds both the cursor and the input.
-/
namespace AugmentedBnf

theorem Context.window_eq_of_spans {context : Context} {i n : Nat} {text : Text}
    (h : context.input.Spans i n text) : context.window i n = text := by
  have hstop : min (i + n) context.input.byteSize = i + n := Nat.min_eq_left h.stop_le
  simp only [window, hstop, Nat.min_eq_left (Nat.le_add_right i n), h.slice?_eq, Option.getD_some]

/-- If the node matched, its text is what its span of the input spells. -/
def Node.ExactIn (input : Text) (node : Node) : Prop :=
  ∀ n, node.length? = some n → ∃ text, node.text? = some text ∧ input.Spans node.index n text

/-- Nodes that follow one another spell the span from the first to the last. -/
theorem Node.Tiles.spans {input : Text} {start total : Nat} {nodes : List Node}
    (h : Tiles start nodes total) (hexact : ∀ node ∈ nodes, node.ExactIn input)
    (hstart : input.IsBoundary start) :
    ∃ texts : List Text, nodes.map Node.text? = texts.map some ∧
      input.Spans start total texts.flatten := by
  induction h with
  | nil => exact ⟨[], rfl, .nil hstart⟩
  | @cons start n total node rest place hit next ih =>
    rw [List.forall_mem_cons] at hexact
    obtain ⟨text, htext, hspan⟩ := hexact.1 n hit
    rw [place] at hspan
    obtain ⟨texts, htexts, hrest⟩ := ih hexact.2 hspan.isBoundary_stop
    refine ⟨text :: texts, ?_, hspan.append hrest⟩
    rw [List.map_cons, List.map_cons, htext, htexts]

namespace Attempt

/-- The attempts to which an attempt leads stand behind a front of what remains at its cursor. -/
theorem reaches_of_lineage {x y : Attempt} {above : List Attempt}
    (walk : Lineage Makes x above y) : x.cursor.Reaches y.cursor := by
  induction walk with
  | root => exact .refl x.cursor
  | next walk step ih =>
    obtain ⟨-, n, hcovers, hy⟩ | ⟨name, rule, -, -, -, -, hy⟩ := step.cursor_cases
    · rw [hy]
      exact ih.moveTo hcovers
    · rw [hy]
      exact ih.label rule.name

theorem index_node (x : Attempt) : x.node.index = x.cursor.index :=
  x.expression.evaluate_stays x.cursor

theorem covers_node {x : Attempt} {n : Nat} (h : x.node.length? = some n) : x.cursor.Covers n :=
  Expression.evaluate_covers h

theorem text?_node (x : Attempt) : x.node.text? = x.node.length?.map x.cursor.window := by
  rcases x.node_cases with ⟨-, hcursor⟩ | ⟨name, rule, -, -, -, hnode⟩
  · rw [Node.text?, hcursor]
  · -- entering a rule changes neither the input nor the offset
    have hcursor : x.node.cursor = x.cursor.label rule.name := by
      rw [hnode, Node.cursor_entered]
    rw [Node.text?, hcursor]
    rfl

theorem exactIn_node {x : Attempt} (h : x.cursor.context.input.IsBoundary x.cursor.index) :
    x.node.ExactIn x.cursor.context.input := by
  intro n hn
  obtain ⟨text, hspan⟩ := (covers_node hn).spans h
  refine ⟨text, ?_, by rwa [index_node]⟩
  rw [text?_node, hn, Option.map_some, Cursor.window, Context.window_eq_of_spans hspan]

variable {x y : Attempt} {above : List Attempt}

theorem isBoundary_of_lineage (walk : Lineage Makes x above y)
    (h : x.cursor.context.input.IsBoundary x.cursor.index) :
    x.cursor.context.input.IsBoundary y.cursor.index := by
  obtain ⟨n, hcovers, hindex⟩ := (reaches_of_lineage walk).covered
  obtain ⟨text, hspan⟩ := hcovers.spans h
  rw [hindex]
  exact hspan.isBoundary_stop

theorem exactIn_of_lineage (walk : Lineage Makes x above y)
    (h : x.cursor.context.input.IsBoundary x.cursor.index) :
    y.node.ExactIn x.cursor.context.input := by
  have hboundary := isBoundary_of_lineage walk h
  have hcontext := (reaches_of_lineage walk).context
  rw [← hcontext] at hboundary ⊢
  exact exactIn_node hboundary

/-- A sequence or repetition that matched spells the texts of its children one after the other. -/
theorem texts_of_lineage (walk : Lineage Makes x above y)
    (h : x.cursor.context.input.IsBoundary x.cursor.index) (hsuccess : y.node.isSuccess = true)
    (hkind : y.node.kind = .concatenation ∨ y.node.kind = .repetition) :
    ∃ texts : List Text, y.node.children.map Node.text? = texts.map some ∧
      y.node.text? = some texts.flatten := by
  have hlawful : y.node.Lawful := y.expression.lawful_evaluate y.cursor
  obtain ⟨n, hn⟩ : ∃ n, y.node.outcome = .success n := by
    unfold Node.isSuccess at hsuccess
    cases hout : y.node.outcome with
    | success n => exact ⟨n, rfl⟩
    | failure reason =>
      rw [hout] at hsuccess
      cases hsuccess
  have htiles : Node.Tiles y.node.index y.node.children n := by
    unfold Node.Lawful at hlawful
    rcases hkind with hkind | hkind
    · rwa [hkind, hn] at hlawful
    · rw [hkind, hn] at hlawful
      exact hlawful.1
  have hchildren : ∀ child ∈ y.node.children, child.ExactIn x.cursor.context.input := by
    intro child hchild
    obtain ⟨z, hmakes, rfl⟩ := keeps_of_mem_children hchild
    exact exactIn_of_lineage (.next walk hmakes) h
  have hindex : x.cursor.context.input.IsBoundary y.node.index := by
    rw [index_node]
    exact isBoundary_of_lineage walk h
  obtain ⟨texts, htexts, hspan⟩ := htiles.spans hchildren hindex
  obtain ⟨text, htext, hspan'⟩ :=
    exactIn_of_lineage walk h n (by rw [Node.length?, hn, Outcome.length?])
  exact ⟨texts, htexts, by rw [htext, hspan'.unique hspan]⟩

/-- No attempt ends behind both the cursor of the first one and the input. -/
theorem stop_le_of_lineage (walk : Lineage Makes x above y) {n : Nat}
    (hn : y.cursor.Covers n) :
    y.cursor.index + n ≤ max x.cursor.index x.cursor.context.input.byteSize := by
  obtain ⟨k, hk, hindex⟩ := ((reaches_of_lineage walk).moveTo hn).covered
  rw [Cursor.moveTo_index] at hindex
  rw [hindex]
  by_cases h : x.cursor.context.input.IsBoundary x.cursor.index
  · obtain ⟨text, hspan⟩ := hk.spans h
    exact hspan.stop_le.trans (le_max_right _ _)
  · rw [hk.eq_zero h]
    exact le_max_left _ _

end Attempt

namespace Expression

/-- Spans and texts are exact. From a boundary of the input on, all nodes stand at boundaries, those
that matched cover a span whose text is theirs, and sequences spell the texts of their children.
From any other offset on nothing is ever taken. So no sum of an offset and a length that any attempt
forms exceeds 64 bits if the cursor and the input do not. -/
theorem evaluate_spans (e : Expression) (c : Cursor) :
    (c.context.input.IsBoundary c.index → ∀ node ∈ (e.evaluate c).preorder,
      c.index ≤ node.index ∧ c.context.input.IsBoundary node.index ∧
      (∀ n, node.length? = some n →
        node.index + n ≤ c.context.input.byteSize ∧
        c.context.input.IsBoundary (node.index + n) ∧
        ∃ text, node.text? = some text ∧ c.context.input.Spans node.index n text) ∧
      (node.isSuccess = true → node.kind = .concatenation ∨ node.kind = .repetition →
        ∃ texts : List Text, node.children.map Node.text? = texts.map some ∧
          node.text? = some texts.flatten)) ∧
    (¬ c.context.input.IsBoundary c.index → ∀ node ∈ (e.evaluate c).preorder,
      node.index = c.index ∧ ∀ n, node.length? = some n → n = 0) ∧
    (c.index < 2 ^ 64 → c.context.input.byteSize < 2 ^ 64 →
      ∀ above x, Lineage Attempt.Makes ⟨e, c⟩ above x →
        x.cursor.index < 2 ^ 64 ∧
          ∀ n, x.node.length? = some n → x.cursor.index + n < 2 ^ 64) := by
  refine ⟨fun hindex node hnode => ?_, fun hindex node hnode => ?_, ?_⟩
  · obtain ⟨above, x, walk, rfl⟩ := Attempt.exists_of_mem_preorder (x := ⟨e, c⟩) hnode
    have hexact := Attempt.exactIn_of_lineage walk hindex
    obtain ⟨k, -, hk⟩ := (Attempt.reaches_of_lineage walk).covered
    refine ⟨?_, ?_, fun n hn => ?_, Attempt.texts_of_lineage walk hindex⟩
    · rw [x.index_node, hk]
      exact Nat.le_add_right _ _
    · rw [x.index_node]
      exact Attempt.isBoundary_of_lineage walk hindex
    · obtain ⟨text, htext, hspan⟩ := hexact n hn
      exact ⟨hspan.stop_le, hspan.isBoundary_stop, text, htext, hspan⟩
  · obtain ⟨above, x, walk, rfl⟩ := Attempt.exists_of_mem_preorder (x := ⟨e, c⟩) hnode
    obtain ⟨k, hk, hplace⟩ := (Attempt.reaches_of_lineage walk).covered
    have hstay : x.cursor.index = c.index := by
      rw [hplace, hk.eq_zero hindex, Nat.add_zero]
    refine ⟨x.index_node.trans hstay, fun n hn => ?_⟩
    refine (Attempt.covers_node hn).eq_zero ?_
    rwa [(Attempt.reaches_of_lineage walk).context, hstay]
  · intro hcursor hinput above x walk
    have hmax : max c.index c.context.input.byteSize < 2 ^ 64 := max_lt hcursor hinput
    have hbound := fun n hn =>
      (Attempt.stop_le_of_lineage (n := n) walk hn).trans_lt hmax
    exact ⟨hbound 0 (Cursor.Covers.zero _), fun n hn => hbound n (Attempt.covers_node hn)⟩

/-- Two-byte characters behind the first byte of an input, and a cursor inside one of them. -/
theorem evaluate_spans_accents :
    let e := repetition ⟨0, none⟩ (literal (.sensitive ['é']))
    let c := Cursor.new ⟨['x', 'é', 'é'], .empty⟩ 1 0 .empty
    let inside := c.moveTo 2
    let node := e.evaluate c
    c.context.input.IsBoundary c.index ∧ ¬ inside.context.input.IsBoundary inside.index ∧
      node.length? = some 4 ∧
      (∃ text, node.text? = some text ∧ c.context.input.Spans node.index 4 text) ∧
      (∃ texts : List Text, node.children.map Node.text? = texts.map some ∧
        node.text? = some texts.flatten) ∧
      (∀ n, (e.evaluate inside).length? = some n → n = 0) ∧
      c.index + 4 < 2 ^ 64 := by
  intro e c inside node
  have hstart : c.context.input.IsBoundary c.index := ⟨['x'], ['é', 'é'], rfl, rfl⟩
  have hinside : ¬ inside.context.input.IsBoundary inside.index :=
    Text.dropBytes?_eq_none_iff.mp rfl
  have hlength : node.length? = some 4 := by decide
  have hroot : ∀ d, e.evaluate d ∈ (e.evaluate d).preorder :=
    fun d => Node.mem_preorder_iff.mpr (.inl rfl)
  obtain ⟨-, -, htext, htexts⟩ := (evaluate_spans e c).1 hstart node (hroot c)
  have hidle := (evaluate_spans e inside).2.1 hinside _ (hroot inside)
  have hbound := (evaluate_spans e c).2.2 (by decide) (by decide) [] ⟨e, c⟩ .root
  exact ⟨hstart, hinside, hlength, (htext 4 hlength).2.2, htexts (by decide) (.inr rfl), hidle.2,
    hbound.2 4 hlength⟩

end Expression

end AugmentedBnf
