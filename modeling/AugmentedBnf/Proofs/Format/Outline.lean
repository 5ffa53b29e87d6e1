import Mathlib.Data.List.Induction
import AugmentedBnf.Format.Outline
import AugmentedBnf.Proofs.Evaluation.Address
import AugmentedBnf.Proofs.Grammar.Names
import AugmentedBnf.Proofs.Text.Numeral

/-! # What outlines show

An outline has one line for each node that is visible, in preorder, and the margin of a line says of each
node above whether it is the last child that is shown. A line is cut into its margin, the kind of its
node, the offset and what came of the evaluation in one way only, whatever text was matched. So the
outline of a tree determines the shape of what is visible, and all of this at each of its nodes.
-/
namespace AugmentedBnf

theorem Text.not_mem_quoted (t : Text) : '\n' ∉ quoted t := by
  have hdigit : ∀ d, d < 16 → '\n' ≠ d.digitChar := by decide
  have hcode : ∀ c, '\n' ∉ codeEscape c := by
    intro c hmem
    rcases List.mem_append.mp hmem with hmem | hmem
    · rcases List.mem_append.mp hmem with hmem | hmem
      · exact absurd hmem (by decide)
      · obtain ⟨d, hd, heq⟩ := exists_of_mem_toDigits (by decide) hmem
        exact hdigit d hd heq
    · exact absurd hmem (by decide)
  have hchar : ∀ c, '\n' ∉ escapeChar c := by
    intro c
    fun_cases escapeChar c with
    | case1 | case2 | case3 | case4 | case5 | case6 => decide
    | case7 => exact hcode c
    -- a character that stands for itself is not one of those that have an escape of their own
    | case8 _ _ _ hline => exact fun hmem => hline (List.mem_singleton.mp hmem).symm
    | case9 => exact hcode c
  intro hmem
  rcases List.mem_append.mp hmem with hmem | hmem
  · rcases List.mem_cons.mp hmem with hmem | hmem
    · exact absurd hmem (by decide)
    · obtain ⟨c, -, hc⟩ := List.mem_flatMap.mp hmem
      exact hchar c hc
  · exact absurd hmem (by decide)

namespace Expression.Kind

theorem ofName?_name (kind : Kind) : ofName? kind.name = some kind := by cases kind <;> rfl

theorem name_inj {kind kind' : Kind} (h : kind.name = kind'.name) : kind = kind' :=
  Option.some.inj (by rw [← ofName?_name, h, ofName?_name])

end Expression.Kind

namespace Reason

theorem ofName?_name (reason : Reason) : ofName? reason.name = some reason := by
  cases reason <;> rfl

theorem name_inj {reason reason' : Reason} (h : reason.name = reason'.name) : reason = reason' :=
  Option.some.inj (by rw [← ofName?_name, h, ofName?_name])

end Reason

namespace Outline

section Visible

variable {style : OutlineStyle} {node : Node} {nodes : List Node}

mutual
/-- What an outline shows of a tree: its root, and of the trees below it those that are shown. -/
def visible (style : OutlineStyle) : Node → Node
  | ⟨cursor, kind, outcome, children⟩ => ⟨cursor, kind, outcome, visibleAll style children⟩

/-- What an outline shows of some children. -/
def visibleAll (style : OutlineStyle) : List Node → List Node
  | [] => []
  | node :: rest =>
    if style.showFailures || node.isSuccess then visible style node :: visibleAll style rest
    else visibleAll style rest
end

/-- The style with failures shown. -/
def full (style : OutlineStyle) : OutlineStyle := { style with showFailures := true }

theorem visibleAll_eq (style : OutlineStyle) (nodes : List Node) : visibleAll style nodes =
    (nodes.filter fun node => style.showFailures || node.isSuccess).map (visible style) := by
  induction nodes with
  | nil => rfl
  | cons node rest ih =>
    rw [visibleAll, List.filter_cons, ih]
    split <;> rfl

theorem exists_of_mem_preorder_visible {root : Node} (h : node ∈ (visible style root).preorder) :
    ∃ m ∈ root.preorder, node = visible style m := by
  induction root using Node.induction with
  | node cursor kind outcome children ih =>
    rcases Node.mem_preorder_iff.mp h with rfl | ⟨child, hchild, hnode⟩
    · exact ⟨_, Node.mem_preorder_iff.mpr (.inl rfl), rfl⟩
    · rw [visible, visibleAll_eq] at hchild
      obtain ⟨child, hkept, rfl⟩ := List.mem_map.mp hchild
      have hmem := (List.mem_filter.mp hkept).1
      obtain ⟨m, hm, rfl⟩ := ih child hmem hnode
      exact ⟨m, Node.mem_preorder_iff.mpr (.inr ⟨child, hmem, hm⟩), rfl⟩

theorem all_hidden_eq (style : OutlineStyle) (nodes : List Node) :
    (nodes.all fun node => !(style.showFailures || node.isSuccess)) =
      (visibleAll style nodes).isEmpty := by
  induction nodes with
  | nil => rfl
  | cons node rest ih =>
    rw [List.all_cons, ih, visibleAll]
    split
    · rename_i hshown
      rw [hshown]
      rfl
    · rename_i hhidden
      rw [Bool.eq_false_of_not_eq_true hhidden]
      rfl

theorem childLines_full_cons (style : OutlineStyle) (margin : Text) (node : Node) (rest : List Node) :
    childLines (full style) margin (node :: rest) =
      nodeLines (full style) margin rest.isEmpty node ++ childLines (full style) margin rest := by
  have hlast : (rest.all fun other => !((full style).showFailures || other.isSuccess)) =
      rest.isEmpty := by
    cases rest <;> rfl
  rw [childLines, hlast]
  exact if_pos rfl

theorem childLines_visible (h : ∀ node ∈ nodes, ∀ margin isLast,
      nodeLines style margin isLast node = nodeLines (full style) margin isLast (visible style node))
    (margin : Text) :
    childLines style margin nodes = childLines (full style) margin (visibleAll style nodes) := by
  induction nodes with
  | nil => rfl
  | cons node rest ih =>
    obtain ⟨hnode, hrest⟩ := List.forall_mem_cons.mp h
    rw [childLines, visibleAll, ih hrest, all_hidden_eq]
    split
    · rw [childLines_full_cons, ← hnode]
    · rfl

/-- An outline is that of what is visible, with failures shown. -/
theorem nodeLines_visible (style : OutlineStyle) (margin : Text) (isLast : Bool) (node : Node) :
    nodeLines style margin isLast node =
      nodeLines (full style) margin isLast (visible style node) := by
  induction node using Node.induction generalizing margin isLast with
  | node cursor kind outcome children ih =>
    rw [visible, nodeLines, nodeLines, childLines_visible fun child hchild margin isLast =>
      ih child hchild margin isLast]
    rfl

end Visible

section Layout

variable {tree node parent : Node} {address : List Nat}

/-- What a line shows of its node, after the connector. -/
def caption (width : Nat) (node : Node) : Text :=
  ' ' :: node.kind.name.toList ++ (ruleName node.cursor node.kind ++ ' ' :: '@' ::
    (Text.decimal node.index ++ ':' :: ' ' :: label width node.cursor node.outcome))

/-- The rails in front of a node, one for each node above it. -/
def margin (tree : Node) (address : List Nat) : Text :=
  (List.range address.length).flatMap fun depth => rail (tree.isLast (address.take depth))

/-- The line of the node at an address. -/
def lineAt (width : Nat) (tree : Node) (address : List Nat) : Text :=
  margin tree address ++ connector (tree.isLast address) ++
    ((tree.at? address).map (caption width)).getD []

theorem line_eq (width : Nat) (isLast : Bool) (node : Node) :
    line width isLast node.cursor node.kind node.outcome =
      connector isLast ++ caption width node ++ ['\n'] := by
  simp [line, caption, Node.index]

@[simp] theorem margin_nil (tree : Node) : margin tree [] = [] := rfl

theorem margin_append (tree : Node) (address : List Nat) (i : Nat) :
    margin tree (address ++ [i]) = margin tree address ++ rail (tree.isLast address) := by
  have habove : ∀ depth ∈ List.range address.length,
      rail (tree.isLast ((address ++ [i]).take depth)) = rail (tree.isLast (address.take depth)) := by
    intro depth hdepth
    rw [List.take_append_of_le_length (List.mem_range.mp hdepth).le]
  rw [margin, List.length_append, List.length_singleton, List.range_succ, List.flatMap_append,
    List.flatMap_congr habove, List.flatMap_singleton, List.take_left' rfl, margin]

theorem rail_eq (isLast : Bool) : rail isLast = if isLast then [' ', ' '] else ['│', ' '] := by
  cases isLast <;> rfl

theorem connector_eq (isLast : Bool) :
    connector isLast = if isLast then ['└', '─'] else ['├', '─'] := by
  cases isLast <;> rfl

@[simp] theorem length_rail (isLast : Bool) : (rail isLast).length = 2 := by cases isLast <;> rfl

@[simp] theorem length_connector (isLast : Bool) : (connector isLast).length = 2 := by
  cases isLast <;> rfl

theorem length_margin (tree : Node) (address : List Nat) :
    (margin tree address).length = 2 * address.length := by
  induction address using List.reverseRecOn with
  | nil => rfl
  | append_singleton address i ih =>
    rw [margin_append, List.length_append, ih, length_rail, List.length_append,
      List.length_singleton, Nat.mul_succ]

/-- The pair of characters at each depth is the rail of the node above at that depth. -/
theorem take_drop_margin (tree : Node) {address : List Nat} {depth : Nat}
    (h : depth < address.length) :
    ((margin tree address).drop (2 * depth)).take 2 = rail (tree.isLast (address.take depth)) := by
  induction address using List.reverseRecOn with
  | nil => cases h
  | append_singleton address i ih =>
    have hlength := length_margin tree address
    rw [List.length_append, List.length_singleton] at h
    rw [margin_append, List.take_append_of_le_length (by omega),
      List.drop_append_of_le_length (by omega)]
    rcases (Nat.lt_succ_iff.mp h).lt_or_eq with hlt | rfl
    · rw [← ih hlt, List.take_append_of_le_length]
      rw [List.length_drop, hlength]
      omega
    · rw [← hlength, List.drop_length, List.nil_append, List.take_length]
      exact List.take_of_length_le (by rw [length_rail])

theorem lineAt_eq (width : Nat) (h : tree.at? address = some node) : lineAt width tree address =
    margin tree address ++ connector (tree.isLast address) ++ caption width node := by
  rw [lineAt, h]
  rfl

theorem childLines_full (style : OutlineStyle) {nodes before : List Node}
    (h : ∀ node ∈ nodes, ∀ address, tree.at? address = some node →
      nodeLines (full style) (margin tree address) (tree.isLast address) node =
        (node.addresses.map (address ++ ·)).flatMap fun below =>
          lineAt style.labelWidth tree below ++ ['\n'])
    (hparent : tree.at? address = some parent) (hchildren : parent.children = before ++ nodes) :
    childLines (full style) (margin tree address ++ rail (tree.isLast address)) nodes =
      ((Node.addressesFrom before.length nodes).map (address ++ ·)).flatMap fun below =>
        lineAt style.labelWidth tree below ++ ['\n'] := by
  induction nodes generalizing before with
  | nil => rfl
  | cons node rest ih =>
    obtain ⟨hnode, hrest⟩ := List.forall_mem_cons.mp h
    have hat : tree.at? (address ++ [before.length]) = some node := by
      simp [Node.at?_append, hparent, hchildren]
    have hlast : tree.isLast (address ++ [before.length]) = rest.isEmpty := by
      rw [Node.isLast_append hparent, hchildren]
      cases rest <;> simp
    have hsplit : parent.children = before ++ [node] ++ rest := by
      rw [hchildren, List.append_assoc, List.singleton_append]
    have hfirst := hnode _ hat
    have hnext := ih hrest hsplit
    rw [hlast, margin_append] at hfirst
    rw [List.length_append, List.length_singleton] at hnext
    rw [childLines_full_cons, hfirst, hnext, Node.addressesFrom, List.map_append, List.flatMap_append,
      List.map_map]
    simp [Function.comp_def]

/-- The lines of a part of a tree are those at its addresses. -/
theorem nodeLines_full (style : OutlineStyle) (h : tree.at? address = some node) :
    nodeLines (full style) (margin tree address) (tree.isLast address) node =
      (node.addresses.map (address ++ ·)).flatMap fun below =>
        lineAt style.labelWidth tree below ++ ['\n'] := by
  induction node using Node.induction generalizing address with
  | node cursor kind outcome children ih =>
    have hbelow := childLines_full style (fun node hnode address h => ih node hnode h) h
      (List.nil_append children).symm
    have hline := line_eq style.labelWidth (tree.isLast address) ⟨cursor, kind, outcome, children⟩
    rw [nodeLines, hbelow, Node.addresses, List.map_cons, List.flatMap_cons, List.append_nil,
      lineAt_eq _ h]
    congr 1
    rw [List.append_assoc, List.append_assoc, ← List.append_assoc (connector _)]
    exact congrArg _ hline

theorem render_eq (style : OutlineStyle) (root : Node) : render style root =
    ((visible style root).addresses.map (lineAt style.labelWidth (visible style root))).flatMap
      (· ++ ['\n']) := by
  have hlines := nodeLines_full style (Node.at?_nil (visible style root))
  rw [margin_nil, Node.isLast_nil, ← nodeLines_visible] at hlines
  simp only [List.nil_append, List.map_id'] at hlines
  rw [render, hlines, List.flatMap_map]

end Layout

section Reading

variable {width width' : Nat} {tree tree' node node' : Node} {address address' : List Nat}

/-- What an outline can be read back to at a node. -/
def summary (node : Node) : Expression.Kind × Nat × Option Reason :=
  (node.kind, node.index, node.reason?)

/-- The name that a line shows cannot be taken for the end of the line or for the mark in front of an
offset. -/
def Legible (node : Node) : Prop := ∀ c ∈ ruleName node.cursor node.kind, c ≠ '\n' ∧ c ≠ '@'

theorem ruleName_cases (cursor : Cursor) (kind : Expression.Kind) : ruleName cursor kind = [] ∨
    ∃ tail, cursor.path.tail? = some tail ∧ ruleName cursor kind = ' ' :: tail := by
  unfold ruleName
  split
  · split
    · rename_i tail htail
      exact .inr ⟨tail, htail, rfl⟩
    · exact .inl rfl
  · exact .inl rfl

theorem legible_visible (style : OutlineStyle) {root : Node}
    (h : ∀ node ∈ root.preorder, Legible node) :
    ∀ node ∈ (visible style root).preorder, Legible node := by
  intro node hnode
  obtain ⟨m, hm, rfl⟩ := exists_of_mem_preorder_visible hnode
  obtain ⟨cursor, kind, outcome, children⟩ := m
  exact h ⟨cursor, kind, outcome, children⟩ hm

theorem ne_of_mem_name (kind : Expression.Kind) :
    ∀ c ∈ kind.name.toList, c ≠ ' ' ∧ c ≠ '@' ∧ c ≠ '\n' := by
  have hall : (kind.name.toList.all fun c => c != ' ' && (c != '@' && c != '\n')) = true := by
    cases kind <;> rfl
  intro c hc
  simpa using List.all_eq_true.mp hall c hc

theorem not_mem_reason_name (reason : Reason) : '\n' ∉ '✗' :: ' ' :: reason.name.toList := by
  cases reason <;> decide

theorem not_mem_label (width : Nat) (cursor : Cursor) (outcome : Outcome) :
    '\n' ∉ label width cursor outcome := by
  cases outcome with
  | success n => exact Text.not_mem_quoted _
  | failure reason => exact not_mem_reason_name reason

theorem Legible.not_mem_caption (h : Legible node) (width : Nat) : '\n' ∉ caption width node := by
  have hdigit : '\n' ∉ Text.decimal node.index := fun hmem =>
    absurd (Text.isDigit_of_mem_decimal hmem) (by decide)
  have hkind : '\n' ∉ node.kind.name.toList := fun hmem => (ne_of_mem_name _ _ hmem).2.2 rfl
  have hrule : '\n' ∉ ruleName node.cursor node.kind := fun hmem => (h _ hmem).1 rfl
  have hlabel := not_mem_label width node.cursor node.outcome
  simp [caption, hdigit, hkind, hrule, hlabel]

theorem reason?_eq_of_label {cursor cursor' : Cursor} {outcome outcome' : Outcome}
    (h : label width cursor outcome = label width' cursor' outcome') :
    outcome.reason? = outcome'.reason? := by
  cases outcome with
  | success n =>
    cases outcome' with
    | success m => rfl
    | failure reason' => cases h
  | failure reason =>
    cases outcome' with
    | success m => cases h
    | failure reason' =>
      have hname := String.toList_injective (List.cons.inj (List.cons.inj h).2).2
      rw [Reason.name_inj hname]

/-- A caption is cut into its parts in one way only, whatever text was matched. -/
theorem Legible.summary_eq (h : Legible node) (h' : Legible node')
    (heq : caption width node = caption width' node') : summary node = summary node' := by
  have hblank : ∀ kind : Expression.Kind, ' ' ∉ kind.name.toList :=
    fun kind hmem => (ne_of_mem_name kind _ hmem).1 rfl
  have hdigit : ∀ n, ':' ∉ Text.decimal n :=
    fun n hmem => absurd (Text.isDigit_of_mem_decimal hmem) (by decide)
  have hfront : ∀ {node : Node}, Legible node →
      '@' ∉ node.kind.name.toList ++ (ruleName node.cursor node.kind ++ [' ']) := by
    intro node h hmem
    rcases List.mem_append.mp hmem with hmem | hmem
    · exact (ne_of_mem_name _ _ hmem).2.1 rfl
    · rcases List.mem_append.mp hmem with hmem | hmem
      · exact (h _ hmem).2 rfl
      · exact absurd hmem (by decide)
  have hblanked : ∀ node : Node, ∃ rest, ruleName node.cursor node.kind ++ [' '] = ' ' :: rest := by
    intro node
    rcases ruleName_cases node.cursor node.kind with hname | ⟨tail, -, hname⟩
    · exact ⟨[], by rw [hname, List.nil_append]⟩
    · exact ⟨tail ++ [' '], by rw [hname, List.cons_append]⟩
  have hcaption : ∀ (width : Nat) (node : Node), caption width node =
      ' ' :: (node.kind.name.toList ++ (ruleName node.cursor node.kind ++ [' ']) ++ '@' ::
        (Text.decimal node.index ++ ':' :: ' ' :: label width node.cursor node.outcome)) := by
    intro width node
    simp [caption]
  -- first the part in front of the offset, then the offset, and what is left is the label
  rw [hcaption, hcaption] at heq
  obtain ⟨hnamed, hrest⟩ :=
    Text.append_mark_inj (hfront h) (hfront h') (List.cons.inj heq).2
  obtain ⟨hindex, hlabel⟩ := Text.append_mark_inj (hdigit _) (hdigit _) hrest
  obtain ⟨rest, hrule⟩ := hblanked node
  obtain ⟨rest', hrule'⟩ := hblanked node'
  rw [hrule, hrule'] at hnamed
  have hkind := (Text.append_mark_inj (hblank _) (hblank _) hnamed).1
  have hkind := Expression.Kind.name_inj (String.toList_injective hkind)
  have hreason := reason?_eq_of_label (List.cons.inj hlabel).2
  rw [summary, summary, hkind, Text.decimal_inj hindex, Node.reason?, Node.reason?, hreason]

theorem mem_margin (tree : Node) (address : List Nat) :
    ∀ c ∈ margin tree address, (c == ' ' || c == '│') = true := by
  intro c hc
  obtain ⟨depth, -, hc⟩ := List.mem_flatMap.mp hc
  have hrail : ∀ isLast, ((rail isLast).all fun c => c == ' ' || c == '│') = true := by decide
  exact List.all_eq_true.mp (hrail _) c hc

theorem head?_connector (isLast : Bool) (t : Text) :
    ∀ c ∈ (connector isLast ++ t).head?, (c == ' ' || c == '│') = false := by
  cases isLast <;> rintro c ⟨⟩ <;> decide

/-- Equal lines are at one depth, and their captions are equal. -/
theorem lineAt_inj (h : tree.at? address = some node) (h' : tree'.at? address' = some node')
    (heq : lineAt width tree address = lineAt width' tree' address') :
    address.length = address'.length ∧ caption width node = caption width' node' := by
  rw [lineAt_eq _ h, lineAt_eq _ h', List.append_assoc, List.append_assoc] at heq
  obtain ⟨hdepth, hrest⟩ := Text.append_inj_of_head (mem_margin _ _) (head?_connector _ _)
    (mem_margin _ _) (head?_connector _ _) heq
  have hlength := congrArg List.length hdepth
  rw [length_margin, length_margin] at hlength
  obtain ⟨-, hcaption⟩ := List.append_inj hrest (by rw [length_connector, length_connector])
  exact ⟨by omega, hcaption⟩

theorem Legible.not_mem_lineAt (h : Legible node) (hat : tree.at? address = some node) :
    '\n' ∉ lineAt width tree address := by
  have hmargin : '\n' ∉ margin tree address := fun hmem =>
    absurd (mem_margin _ _ _ hmem) (by decide)
  have hconnector : '\n' ∉ connector (tree.isLast address) := by
    cases tree.isLast address <;> decide
  rw [lineAt_eq _ hat]
  simp [hmargin, hconnector, h.not_mem_caption]

/-- An outline of legible nodes is cut into its lines. -/
theorem splitAt_render {style : OutlineStyle} {root : Node}
    (h : ∀ node ∈ (visible style root).preorder, Legible node) :
    Text.splitAt '\n' (render style root) =
      (visible style root).addresses.map (lineAt style.labelWidth (visible style root)) ++ [[]] := by
  rw [render_eq]
  refine Text.splitAt_flatMap fun line hline => ?_
  obtain ⟨address, haddress, rfl⟩ := List.mem_map.mp hline
  obtain ⟨node, hnode⟩ := Node.mem_addresses_iff.mp haddress
  exact (h node (Node.mem_preorder_of_at? hnode)).not_mem_lineAt hnode

/-- Lines that are equal one for one stand at equal depths and have equal summaries. -/
theorem forall₂_of_lines (h : ∀ node ∈ tree.preorder, Legible node)
    (h' : ∀ node ∈ tree'.preorder, Legible node)
    (hlines : tree.addresses.map (lineAt width tree) = tree'.addresses.map (lineAt width' tree')) :
    List.Forall₂ (fun address address' => address.length = address'.length ∧
      (tree.at? address).map summary = (tree'.at? address').map summary)
      tree.addresses tree'.addresses := by
  rw [← List.forall₂_eq_eq_eq, List.forall₂_map_left_iff, List.forall₂_map_right_iff,
    List.forall₂_iff_zip] at hlines
  refine List.forall₂_iff_zip.mpr ⟨hlines.1, fun {address address'} hmem => ?_⟩
  obtain ⟨haddress, haddress'⟩ := List.of_mem_zip hmem
  obtain ⟨node, hnode⟩ := Node.mem_addresses_iff.mp haddress
  obtain ⟨node', hnode'⟩ := Node.mem_addresses_iff.mp haddress'
  obtain ⟨hdepth, hcaption⟩ := lineAt_inj hnode hnode' (hlines.2 hmem)
  have hsummary := (h node (Node.mem_preorder_of_at? hnode)).summary_eq
    (h' node' (Node.mem_preorder_of_at? hnode')) hcaption
  rw [hnode, hnode', Option.map_some, Option.map_some, hsummary]
  exact ⟨hdepth, rfl⟩

/-- Trees of legible nodes with the same lines have the same shape and the same summaries. -/
theorem at?_eq_of_lines (h : ∀ node ∈ tree.preorder, Legible node)
    (h' : ∀ node ∈ tree'.preorder, Legible node)
    (hlines : tree.addresses.map (lineAt width tree) = tree'.addresses.map (lineAt width' tree')) :
    tree.addresses = tree'.addresses ∧
      ∀ address, (tree.at? address).map summary = (tree'.at? address).map summary := by
  have hpairs := forall₂_of_lines h h' hlines
  have hdepths : tree.addresses.map List.length = tree'.addresses.map List.length := by
    rw [← List.forall₂_eq_eq_eq, List.forall₂_map_left_iff, List.forall₂_map_right_iff]
    exact hpairs.imp fun _ _ hpair => hpair.1
  have haddresses := Node.addresses_eq_of_lengths hdepths
  refine ⟨haddresses, fun address => ?_⟩
  by_cases hmem : address ∈ tree.addresses
  · rw [← haddresses, List.forall₂_same] at hpairs
    exact (hpairs address hmem).2
  · have hmem' := haddresses ▸ hmem
    rw [Node.mem_addresses_iff, ← Option.isSome_iff_exists, Option.not_isSome_iff_eq_none] at hmem hmem'
    rw [hmem, hmem']

end Reading

end Outline

namespace Grammar

open Outline

variable {grammar : Grammar}

/-- The names on the paths of a compiled grammar are identifiers. -/
theorem Compiled.legible (h : Compiled grammar) {name input : Text} {root : Node}
    (hroot : grammar.evaluate name input = .ok root) : ∀ node ∈ root.preorder, Legible node := by
  intro node hnode c hc
  obtain ⟨rule, hrule, rfl⟩ := evaluate_eq_ok_iff.mp hroot
  have hpath := h.within_of_mem_preorder (rule_eq_ok_iff.mp hrule) hnode
  rcases ruleName_cases node.cursor node.kind with hname | ⟨tail, htail, hname⟩
  · rw [hname] at hc
    exact absurd hc List.not_mem_nil
  · rw [hname] at hc
    rcases List.mem_cons.mp hc with rfl | hc
    · decide
    · have hkey := hpath tail (Path.mem_segments_of_tail? htail)
      have hchar := Text.isNameChar_of_isName (h.isName_of_mem_keys hkey) c hc
      constructor <;> (rintro rfl; exact absurd hchar (by decide))

/-- The outline of a tree has one line for each visible node, in preorder. In front of the corner or tee
a line has a pair of characters for each node above: two blanks if that node is the last child that is
shown, and otherwise a bar and a blank. A corner says that the node itself is the last, a tee that another
follows. Trees with the same outline, of whatever grammars and in whatever styles, show the same shape and
the same kind, offset and success or reason at each node. -/
theorem Compiled.outline_determines (h : Compiled grammar) {name input : Text} {root : Node}
    (hroot : grammar.evaluate name input = .ok root) (style : OutlineStyle) :
    let tree := visible style root
    (Text.splitAt '\n' (render style root) =
        tree.addresses.map (lineAt style.labelWidth tree) ++ [[]] ∧
      tree.addresses.map tree.at? = tree.preorder.map some ∧
      ∀ address node, tree.at? address = some node → ∃ indent corner,
        lineAt style.labelWidth tree address = indent ++ corner ++ caption style.labelWidth node ∧
        corner = (if tree.isLast address then ['└', '─'] else ['├', '─']) ∧
        indent.length = 2 * address.length ∧
        ∀ depth < address.length, (indent.drop (2 * depth)).take 2 =
          if tree.isLast (address.take depth) then [' ', ' '] else ['│', ' ']) ∧
    ∀ (grammar' : Grammar) (name' input' : Text) (root' : Node) (style' : OutlineStyle),
      Compiled grammar' → grammar'.evaluate name' input' = .ok root' →
      render style root = render style' root' →
      tree.addresses = (visible style' root').addresses ∧
        ∀ address, (tree.at? address).map summary =
          ((visible style' root').at? address).map summary := by
  intro tree
  have hlegible := legible_visible style (h.legible hroot)
  have hlines := splitAt_render hlegible
  refine ⟨⟨hlines, Node.map_at?_addresses tree, ?_⟩, ?_⟩
  · intro address node hnode
    exact ⟨margin tree address, connector (tree.isLast address), lineAt_eq _ hnode, connector_eq _,
      length_margin tree address, fun depth hdepth => (take_drop_margin tree hdepth).trans (rail_eq _)⟩
  · intro grammar' name' input' root' style' h' hroot' hsame
    have hlegible' := legible_visible style' (h'.legible hroot')
    rw [hsame, splitAt_render hlegible', List.append_left_inj] at hlines
    exact at?_eq_of_lines hlegible hlegible' hlines.symm

/-- Two texts that a narrow outline does not tell apart: it hides the failed literal and cuts the labels
off, and what it shows is the same at each node. Below the reference, which a sibling follows, stands a
bar. -/
theorem Compiled.outline_determines_narrow :
    let source : Text := ['a', '=', 'b', '[', '"', 'y', '"', ']', '\n', 'b', '=', '"', 'x', '"', '\n']
    let outer : Rule := ⟨['A'], .concatenation
      [.reference ['B'], .option (.literal (.insensitive ['y']))]⟩
    let inner : Rule := ⟨['B'], .literal (.insensitive ['x'])⟩
    let grammar : Grammar := ⟨source, ⟨[(['A'], outer), (['B'], inner)]⟩⟩
    let root := outer.evaluateIn grammar.rules ['x']
    let other := outer.evaluateIn grammar.rules ['X', '\n']
    let style : OutlineStyle := ⟨0, false⟩
    Grammar.compile .strict source = .ok grammar ∧
      grammar.evaluate ['a'] ['x'] = .ok root ∧ grammar.evaluate ['a'] ['X', '\n'] = .ok other ∧
      render style root = render style other ∧
      (visible style root).addresses = [[], [0], [0, 0], [1]] ∧
      Text.splitAt '\n' (render style root) =
        ["└─ CONCATENATION @0: \"...\"".toList, "  ├─ REFERENCE B @0: \"...\"".toList,
          "  │ └─ LITERAL @0: \"...\"".toList, "  └─ OPTION @1: \"\"".toList, []] ∧
      (visible style root).addresses = (visible style other).addresses ∧
      ∀ address, ((visible style root).at? address).map summary =
        ((visible style other).at? address).map summary := by
  intro source outer inner grammar root other style
  have hgrammar : Grammar.compile .strict source = .ok grammar := rfl
  have hroot : grammar.evaluate ['a'] ['x'] = .ok root := rfl
  have hother : grammar.evaluate ['a'] ['X', '\n'] = .ok other := rfl
  have hsame : render style root = render style other := by decide
  obtain ⟨⟨hlines, -⟩, hread⟩ := Compiled.outline_determines (.compile hgrammar) hroot style
  obtain ⟨hshape, hsummary⟩ := hread grammar _ _ other style (.compile hgrammar) hother hsame
  exact ⟨hgrammar, hroot, hother, hsame, by decide, hlines.trans (by decide), hshape, hsummary⟩

end Grammar

end AugmentedBnf
