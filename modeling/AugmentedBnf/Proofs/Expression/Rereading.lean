import AugmentedBnf.Proofs.Charset.Runs
import AugmentedBnf.Proofs.Expression.Lexemes

/-! # What printed expressions are read as

Printing drops the borders between the positions of a literal and writes a set of several runs as a
choice, so a printed expression is not always read as itself. It is read as the expression in which
every position is a literal of its own and every set is one run, or a choice between runs.
-/
namespace AugmentedBnf

open Token (slashed)

namespace Charset

/-- A run as a literal of one position. -/
def ofRun (run : Nat × Nat) : Literal := ⟨[range run.1 run.2]⟩

/-- What a printed set is read as. -/
def reread (set : Charset) : Expression :=
  match set.runs with
  | [run] => .literal (ofRun run)
  | runs => .group (Expression.assemble (runs.map fun run => [.literal (ofRun run)]))

end Charset

namespace Expression

mutual
/-- What a printed expression is read as: the operands of each sequence between slashes. -/
def rows : Expression → List (List Expression)
  | alternation operands => rowsAll operands
  | concatenation operands => [(rowsAll operands).flatten]
  | repetition bounds operand => [(rows operand).flatten.map (repetition bounds)]
  | group inner => [[group (assemble (rows inner))]]
  | option inner => [[option (assemble (rows inner))]]
  | literal value => [value.positions.map Charset.reread]
  | reference name => [[reference name]]
  | prose text => [[prose text]]

/-- The operands that each of some expressions adds to a sequence. -/
def rowsAll : List Expression → List (List Expression)
  | [] => []
  | operand :: rest => (rows operand).flatten :: rowsAll rest
end

/-- The operands that a printed expression adds to a sequence. -/
def pieces (e : Expression) : List Expression := (rows e).flatten

/-- What a printed expression is read as. -/
def reread (e : Expression) : Expression := assemble (rows e)

/-- The notation has a place for everything in the expression: its characters are numbers that a
numeric value may spell, and a count stands in front of one position only. -/
def Printable : Expression → Prop
  | literal value => ∀ set ∈ value.positions, ∀ c ∈ set.members, c.toNat ≤ Literal.maxCode
  | repetition _ (literal value) => value.positions.length = 1
  | _ => True

theorem rowsAll_cons (operand : Expression) (rest : List Expression) :
    rowsAll (operand :: rest) = operand.pieces :: rowsAll rest := rfl

theorem rowsAll_eq_map (operands : List Expression) : rowsAll operands = operands.map pieces := by
  induction operands with
  | nil => rfl
  | cons operand rest ih => rw [rowsAll_cons, ih, List.map_cons]

section Pieces

theorem pieces_concatenation (operands : List Expression) :
    (concatenation operands).pieces = (rowsAll operands).flatten := List.flatten_singleton

theorem pieces_repetition (bounds : Bounds) (operand : Expression) :
    (repetition bounds operand).pieces = operand.pieces.map (repetition bounds) :=
  List.flatten_singleton

theorem pieces_group (inner : Expression) : (group inner).pieces = [group inner.reread] := rfl

theorem pieces_option (inner : Expression) : (option inner).pieces = [option inner.reread] := rfl

theorem pieces_literal (value : Literal) :
    (literal value).pieces = value.positions.map Charset.reread := List.flatten_singleton

end Pieces

theorem rows_eq {e : Expression} (h : e.kind ≠ .alternation) : e.rows = [e.pieces] := by
  cases e with
  | alternation => exact absurd rfl h
  | _ => simp [pieces, rows]

end Expression

namespace Charset

theorem numeric_eq {segment : Text} (hpoint : '.' ∉ segment) {first last : Nat}
    (hends : Literal.ends 16 segment = .ok (first, last)) (hordered : first ≤ last)
    (hlast : last ≤ Literal.maxCode) :
    Literal.numeric 16 ('%' :: 'x' :: segment) = .ok (ofRun (first, last)) := by
  have hdrop : Text.dropBytes? 2 ('%' :: 'x' :: segment) = some segment :=
    Text.dropBytes?_append ['%', 'x'] segment
  have hsegment : Literal.segment 16 ('%' :: 'x' :: segment) segment = .ok (range first last) := by
    have hrange : ¬ (last < first ∨ Literal.maxCode < last) := by omega
    rw [Literal.segment, hends]
    simp only [bind, Except.bind, if_neg hrange]
    rfl
  have hmapM : [segment].mapM (Literal.segment 16 ('%' :: 'x' :: segment)) =
      .ok [range first last] := by
    rw [List.mapM_cons, hsegment]
    rfl
  rw [Literal.numeric, hdrop, Option.getD_some, Text.splitAt_of_not_mem hpoint, hmapM]
  rfl

theorem ofLexeme?_renderRun {run : Nat × Nat} (hordered : run.1 ≤ run.2)
    (hlast : run.2 ≤ Literal.maxCode) :
    Literal.ofLexeme? .hexadecimal (renderRun run) = some (.ok (ofRun run)) := by
  obtain ⟨first, last⟩ := run
  dsimp only at hordered hlast
  have hmax : Literal.maxCode < Text.limit32 := by decide
  have hvalue : ∀ n, n ≤ Literal.maxCode → Literal.value 16 (Text.hexDigits 2 n) = .ok n := by
    intro n hn
    rw [Literal.value, Text.unsigned?_hexDigits 2 (by omega)]
  have hdash : ∀ n, '-' ∉ Text.hexDigits 2 n := Text.not_mem_hexDigits (by decide) 2
  have hpoint : ∀ n, '.' ∉ Text.hexDigits 2 n := Text.not_mem_hexDigits (by decide) 2
  have hfirst := hvalue first (by omega)
  rw [renderRun, Literal.ofLexeme?]
  congr 1
  by_cases heq : first = last
  · subst heq
    rw [if_pos rfl]
    refine numeric_eq (hpoint first) ?_ hordered hlast
    rw [Literal.ends, Text.splitOnce?_of_not_mem (hdash first)]
    dsimp only
    rw [hfirst]
    rfl
  · have hends : Literal.ends 16 (Text.hexDigits 2 first ++ '-' :: Text.hexDigits 2 last) =
        .ok (first, last) := by
      rw [Literal.ends, Text.splitOnce?_append (hdash first)]
      dsimp only
      rw [hfirst, hvalue last hlast]
      rfl
    have hnone : '.' ∉ Text.hexDigits 2 first ++ '-' :: Text.hexDigits 2 last := by
      simp [hpoint]
    rw [if_neg heq]
    exact numeric_eq hnone hends hordered hlast

end Charset

open Expression (ReadsElement ReadsPieces ReadsWhole)

/-- A printed set is read as one literal, or as a choice between the literals of its runs. -/
theorem Charset.reads_shown {set : Charset} (hne : set.members ≠ [])
    (hcodes : ∀ c ∈ set.members, c.toNat ≤ Literal.maxCode) :
    ReadsElement set.shown set.reread := by
  have hrun : ∀ run ∈ set.runs, ReadsElement [shownRun run] (.literal (ofRun run)) := by
    intro run hmem
    obtain ⟨hordered, hlast⟩ := le_of_mem_runs hcodes hmem
    exact .literal (ofLexeme?_renderRun hordered hlast)
  have hruns : set.runs ≠ [] := runsOf_ne_nil hne
  have hchoice : ReadsElement
      ((.leftParen, ['(']) :: slashed (set.runs.map fun run => [shownRun run]) ++
        [(.rightParen, [')'])])
      (.group (Expression.assemble (set.runs.map fun run => [.literal (ofRun run)]))) := by
    refine .group (.of_rows ?_ (by simpa using hruns))
    exact forall₂_map_map fun run hmem => .of_element (hrun run hmem)
  unfold shown reread
  rcases hset : set.runs with _ | ⟨run, _ | ⟨other, more⟩⟩
  · exact absurd hset hruns
  · exact hrun run (hset ▸ List.mem_singleton_self run)
  · rw [hset] at hchoice
    exact hchoice

namespace Expression

/-- What a printed expression is read as, on each level on which it can stand. -/
structure Reread (e : Expression) : Prop where
  pieces : e.kind ≠ .alternation → ReadsPieces e.shown e.pieces
  element : e.isElement = true → (∀ value, e = literal value → value.positions.length = 1) →
    ∃ x, e.pieces = [x] ∧ ReadsElement e.shown x
  whole : ReadsWhole e.shown e.reread

theorem Reread.of_pieces {e : Expression} (hkind : e.kind ≠ .alternation)
    (hpieces : ReadsPieces e.shown e.pieces)
    (helement : e.isElement = true → (∀ value, e = literal value → value.positions.length = 1) →
      ∃ x, e.pieces = [x] ∧ ReadsElement e.shown x) : Reread e := by
  refine ⟨fun _ => hpieces, helement, ?_⟩
  rw [Expression.reread, rows_eq hkind]
  exact .of_pieces hpieces

theorem Reread.of_element {e x : Expression} (hkind : e.kind ≠ .alternation)
    (hpieces : e.pieces = [x]) (h : ReadsElement e.shown x) : Reread e := by
  refine .of_pieces hkind ?_ fun _ _ => ⟨x, hpieces, h⟩
  rw [hpieces]
  exact .of_element h

theorem readsPieces_all {operands : List Expression} (h : ∀ e ∈ operands, Reread e)
    (hkinds : ∀ e ∈ operands, e.kind ≠ .alternation) :
    List.Forall₂ ReadsPieces (shownAll operands) (rowsAll operands) := by
  rw [shownAll_eq_map, rowsAll_eq_map]
  exact forall₂_map_map fun e he => (h e he).pieces (hkinds e he)

/-- Tokens that show the lexemes of a printed expression are read as what it is read as. -/
theorem reread_of_printable {e : Expression} (h : Everywhere Regular e)
    (hprintable : Everywhere Printable e) : Reread e := by
  induction e using Expression.induction with
  | alternation operands ih =>
    obtain ⟨hlength, hkinds⟩ := h.self.1
    have hall : ∀ e ∈ operands, Reread e := fun e he => ih e he (h.child he) (hprintable.child he)
    have hne : rowsAll operands ≠ [] := by
      rw [rowsAll_eq_map]
      intro hnil
      rw [List.map_eq_nil_iff.mp hnil] at hlength
      exact absurd hlength (by decide)
    refine ⟨fun hkind => absurd rfl hkind, by simp [isElement], ?_⟩
    rw [shown, Expression.reread, rows]
    exact .of_rows (readsPieces_all hall hkinds) hne
  | concatenation operands ih =>
    obtain ⟨-, hkinds⟩ := h.self.1
    have hall : ∀ e ∈ operands, Reread e := fun e he => ih e he (h.child he) (hprintable.child he)
    refine .of_pieces (by simp [kind]) ?_ (by simp [isElement])
    rw [shown, pieces_concatenation]
    exact .flatten (readsPieces_all hall fun e he => (hkinds e he).1)
  | repetition bounds operand ih =>
    obtain ⟨⟨honce, helement⟩, hmin, hmax⟩ := h.self
    have hoperand := ih (h.child List.mem_cons_self) (hprintable.child List.mem_cons_self)
    have hsingle : ∀ value, operand = literal value → value.positions.length = 1 := by
      rintro value rfl
      exact hprintable.self
    obtain ⟨x, hx, hreads⟩ := hoperand.element helement hsingle
    refine .of_pieces (by simp [kind]) ?_ (by simp [isElement])
    rw [shown, pieces_repetition, hx, List.map_singleton]
    exact .repetition honce hmin hmax hreads
  | group inner ih =>
    have hinner := ih (h.child List.mem_cons_self) (hprintable.child List.mem_cons_self)
    refine .of_element (by simp [kind]) (pieces_group inner) ?_
    rw [shown]
    exact .group hinner.whole
  | option inner ih =>
    have hinner := ih (h.child List.mem_cons_self) (hprintable.child List.mem_cons_self)
    refine .of_element (by simp [kind]) (pieces_option inner) ?_
    rw [shown]
    exact .option hinner.whole
  | literal value =>
    have hset : ∀ set ∈ value.positions, ReadsElement set.shown set.reread :=
      fun set hmem => Charset.reads_shown (h.self.1 set hmem) (hprintable.self set hmem)
    refine .of_pieces (by simp [kind]) ?_ ?_
    · have hflatten : ReadsPieces (value.positions.map Charset.shown).flatten
          (value.positions.map fun set => [set.reread]).flatten :=
        .flatten (forall₂_map_map fun set hmem => .of_element (hset set hmem))
      have hsingles : (value.positions.map fun set => [set.reread]).flatten =
          value.positions.map Charset.reread := by
        rw [← List.flatMap_def]
        exact List.flatMap_pure_eq_map _ _
      rw [shown, pieces_literal, List.flatMap_def, ← hsingles]
      exact hflatten
    · intro _ hone
      obtain ⟨set, hposition⟩ := List.length_eq_one_iff.mp (hone value rfl)
      refine ⟨set.reread, by rw [pieces_literal, hposition]; rfl, ?_⟩
      rw [shown, hposition, List.flatMap_singleton]
      exact hset set (hposition ▸ List.mem_singleton_self set)
  | reference name => exact .of_element (by simp [kind]) rfl (.reference h.self.1)
  | prose text => exact .of_element (by simp [kind]) rfl (.prose text)

end Expression

end AugmentedBnf
