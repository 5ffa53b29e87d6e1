import AugmentedBnf.Proofs.Expression.Rereading

/-! # Printing and reading again

A canonical expression is in normal form, and each of its terminal values is one run of characters.
It is read back from its printed form, and no token is left over.
-/
namespace AugmentedBnf

open Token (past past_past past_of_visible_nil)

/-- One position, which holds the characters from one code point to another. -/
def Literal.IsRun (value : Literal) : Prop :=
  ∃ set first last, value.positions = [set] ∧ first ≤ last ∧ last ≤ maxCode ∧
    set.IsInterval first last

theorem Charset.isRun_ofRun {first last : Nat} (hle : first ≤ last)
    (hlast : last ≤ Literal.maxCode) : (ofRun (first, last)).IsRun :=
  ⟨range first last, first, last, rfl, hle, hlast, fun _ => mem_range_iff hlast⟩

namespace Expression

/-- The terminal values are runs of characters, as far as one level shows it. -/
def Plain : Expression → Prop
  | literal value => value.IsRun
  | _ => True

/-- In normal form at every depth, with counts and descriptions that the notation can spell and with
terminal values of one run. -/
def Canonical (e : Expression) : Prop :=
  Everywhere (fun sub => sub.Normal ∧ sub.Legible ∧ sub.Plain) e

/-- Nothing that could still be skipped is left behind a right-hand side. -/
theorem Spells.past_rest {e : Expression} {tokens rest : List Token}
    (h : Spells (.whole e) tokens rest) : past Token.Kind.inlineTrivia rest = rest := by
  have halternatives : ∀ es {r : List Token}, Spells (.alternatives es) r rest →
      past Token.Kind.inlineTrivia rest = rest := by
    intro es
    induction es with
    | nil =>
      intro r hlast
      cases hlast with
      | last => exact past_past _ _
    | cons b es ih =>
      intro r hslash
      cases hslash with
      | slash _ _ _ next => exact ih next
  cases h with
  | whole _ next => exact halternatives _ next

theorem canonical_literal {value : Literal} (h : value.IsRun) : Canonical (literal value) := by
  refine everywhere_of_leaf rfl ⟨?_, trivial, h⟩
  obtain ⟨positions⟩ := value
  obtain ⟨set, first, last, rfl, hle, hlast, hset⟩ := h
  rw [hset.eq_range hlast]
  exact List.forall_mem_singleton.mpr (Charset.range_ne_nil hle)

namespace Canonical

variable {e : Expression}

theorem regular (h : e.Canonical) : Everywhere Regular e := h.mono fun _ hsub => ⟨hsub.1, hsub.2.1⟩

theorem printable (h : e.Canonical) : Everywhere Printable e := by
  intro sub hsub
  have hcanonical : sub.Canonical := Everywhere.of_within h hsub
  cases sub with
  | literal value =>
    obtain ⟨set, first, last, hpositions, -, hlast, hset⟩ := hcanonical.self.2.2
    intro other hother c hc
    rw [hpositions, List.mem_singleton] at hother
    subst hother
    exact ((hset c).mp hc).2.trans hlast
  | repetition bounds operand =>
    cases operand with
    | literal value =>
      have hvalue := hcanonical.child List.mem_cons_self
      obtain ⟨set, first, last, hpositions, -⟩ := hvalue.self.2.2
      exact congrArg List.length hpositions
    | _ => trivial
  | _ => trivial

/-- Printing and reading bring back a run. -/
theorem reread_run {value : Literal} (h : value.IsRun) :
    value.positions.map Charset.reread = [literal value] := by
  obtain ⟨positions⟩ := value
  obtain ⟨set, first, last, rfl, hle, hlast, hset⟩ := h
  rw [List.map_singleton, Charset.reread, hset.runs_eq hle hlast]
  dsimp only
  rw [Charset.ofRun, ← hset.eq_range hlast]

/-- What is read, on each level on which the expression can stand, is the expression itself. -/
structure Kept (e : Expression) : Prop where
  pieces : e.kind ≠ .alternation → e.kind ≠ .concatenation → e.pieces = [e]
  branch : e.kind ≠ .alternation → branch e.pieces = e
  whole : e.reread = e

theorem Kept.of_branch (hnormal : e.Normal) (hkind : e.kind ≠ .alternation)
    (hpieces : e.kind ≠ .concatenation → e.pieces = [e])
    (hbranch : Expression.branch e.pieces = e) : Kept e := by
  refine ⟨fun _ => hpieces, fun _ => hbranch, ?_⟩
  rw [Expression.reread, rows_eq hkind, assemble, List.map_singleton, hbranch, simplify,
    hnormal.simplify_eq]

theorem Kept.of_pieces (hnormal : e.Normal) (hkind : e.kind ≠ .alternation)
    (hpieces : e.pieces = [e]) : Kept e := by
  refine .of_branch hnormal hkind (fun _ => hpieces) ?_
  rw [hpieces, Expression.branch, simplify, hnormal.simplify_eq]

theorem kept (h : e.Canonical) : Kept e := by
  induction e using Expression.induction with
  | alternation operands ih =>
    obtain ⟨-, hkinds⟩ := h.self.1
    have hbranches : (rowsAll operands).map Expression.branch = operands := by
      rw [rowsAll_eq_map, List.map_map]
      refine List.map_congr_left (g := id) ?_ |>.trans (List.map_id operands)
      intro operand hmem
      exact (ih operand hmem (h.child hmem)).branch (hkinds operand hmem)
    refine ⟨fun hkind => absurd rfl hkind, fun hkind => absurd rfl hkind, ?_⟩
    rw [Expression.reread, rows, assemble, hbranches, h.self.1.simplify_eq]
  | concatenation operands ih =>
    obtain ⟨-, hkinds⟩ := h.self.1
    have hpieces : (concatenation operands).pieces = operands := by
      have hsingles : operands.map Expression.pieces = operands.map fun operand => [operand] := by
        refine List.map_congr_left ?_
        intro operand hmem
        obtain ⟨hchoice, hsequence⟩ := hkinds operand hmem
        exact (ih operand hmem (h.child hmem)).pieces hchoice hsequence
      rw [pieces_concatenation, rowsAll_eq_map, hsingles, ← List.flatMap_def]
      exact List.flatMap_singleton' operands
    refine .of_branch h.self.1 (by simp [kind]) (fun hkind => absurd rfl hkind) ?_
    rw [hpieces, Expression.branch, h.self.1.simplify_eq]
  | repetition bounds operand ih =>
    obtain ⟨-, helement⟩ := h.self.1
    have hoperand : operand.pieces = [operand] := by
      have hkept := ih (h.child List.mem_cons_self)
      cases operand with
      | alternation | concatenation | repetition => cases helement
      | _ => exact hkept.pieces (by simp [kind]) (by simp [kind])
    refine .of_pieces h.self.1 (by simp [kind]) ?_
    rw [pieces_repetition, hoperand, List.map_singleton]
  | group inner ih =>
    have hinner : inner.reread = inner := (ih (h.child List.mem_cons_self)).whole
    refine .of_pieces trivial (by simp [kind]) ?_
    rw [pieces_group, hinner]
  | option inner ih =>
    have hinner : inner.reread = inner := (ih (h.child List.mem_cons_self)).whole
    refine .of_pieces trivial (by simp [kind]) ?_
    rw [pieces_option, hinner]
  | literal value =>
    refine .of_pieces h.self.1 (by simp [kind]) ?_
    rw [pieces_literal, reread_run h.self.2.2]
  | reference name => exact .of_pieces h.self.1 (by simp [kind]) rfl
  | prose text => exact .of_pieces trivial (by simp [kind]) rfl

end Canonical

/-- The printed form of a canonical expression can be cut into tokens, and reading them returns the
expression and takes all of them. -/
theorem read_render {e : Expression} (h : e.Canonical) :
    ∃ stream, TokenStream.ofSource e.render = .ok stream ∧
      read stream = .ok e { stream with tokens := [] } := by
  have hprinted := printed_render h.regular [] [] nofun .nil
  rw [List.append_nil, List.append_nil] at hprinted
  obtain ⟨tokens, hscan, hvisible, -⟩ := hprinted.scanAt 0
  have hwhole := (reread_of_printable h.regular h.printable).whole
  obtain ⟨rest, hrest, hspells⟩ := hwhole tokens [] (by rw [hvisible, List.append_nil])
    (closing_nil tokens)
  have hnil : rest = [] := hspells.past_rest.symm.trans (past_of_visible_nil hrest)
  rw [hnil, h.kept.whole] at hspells
  refine ⟨⟨tokens, e.render.byteSize⟩, ?_, read_eq_ok_iff.mpr ⟨[], rfl, hspells⟩⟩
  have hscan' : Token.scan e.render = .ok tokens := hscan
  rw [TokenStream.ofSource, hscan']
  rfl

theorem read_render_nested :
    ∃ e : Expression, e.render = "2*1%x41-5A ( ) / [ 0*B-2 ] / <x y>".toList ∧ e.Canonical ∧
      ∃ stream, TokenStream.ofSource e.render = .ok stream ∧
        read stream = .ok e { stream with tokens := [] } := by
  have hletters : Canonical (literal (Charset.ofRun (65, 90))) :=
    canonical_literal (Charset.isRun_ofRun (by decide) (by decide))
  have hcounted : Canonical (repetition ⟨2, some 1⟩ (literal (Charset.ofRun (65, 90)))) :=
    everywhere_of_inner rfl ⟨⟨by decide, rfl⟩, ⟨by decide, by simp; decide⟩, trivial⟩ hletters
  have hempty : Canonical (group (concatenation [])) :=
    everywhere_of_inner rfl ⟨trivial, trivial, trivial⟩
      (everywhere_of_leaf rfl ⟨⟨by decide, List.forall_mem_nil _⟩, trivial, trivial⟩)
  have hname : Canonical (reference "B-2".toList) :=
    everywhere_of_leaf rfl ⟨by rfl, trivial, trivial⟩
  have hoption : Canonical (option (repetition ⟨0, none⟩ (reference "B-2".toList))) := by
    have hcount : Canonical (repetition ⟨0, none⟩ (reference "B-2".toList)) :=
      everywhere_of_inner rfl ⟨⟨by decide, rfl⟩, ⟨by decide, by simp⟩, trivial⟩ hname
    exact everywhere_of_inner rfl ⟨trivial, trivial, trivial⟩ hcount
  have hprose : Canonical (prose "x y".toList) :=
    everywhere_of_leaf rfl ⟨trivial, by simp [Legible]; decide, trivial⟩
  have hsequence : Canonical (concatenation
      [repetition ⟨2, some 1⟩ (literal (Charset.ofRun (65, 90))), group (concatenation [])]) := by
    refine everywhere_iff.mpr ⟨⟨⟨by decide, ?_⟩, trivial, trivial⟩, ?_⟩
    · simp [kind]
    · simp only [children, List.forall_mem_cons]
      exact ⟨hcounted, hempty, List.forall_mem_nil _⟩
  have hwhole : Canonical (alternation
      [concatenation [repetition ⟨2, some 1⟩ (literal (Charset.ofRun (65, 90))),
        group (concatenation [])], option (repetition ⟨0, none⟩ (reference "B-2".toList)),
        prose "x y".toList]) := by
    refine everywhere_iff.mpr ⟨⟨⟨by decide, ?_⟩, trivial, trivial⟩, ?_⟩
    · simp [kind]
    · simp only [children, List.forall_mem_cons]
      exact ⟨hsequence, hoption, hprose, List.forall_mem_nil _⟩
  exact ⟨_, by decide, hwhole, read_render hwhole⟩

end Expression

end AugmentedBnf
