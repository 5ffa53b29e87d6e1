import AugmentedBnf.Expression.Printer
import AugmentedBnf.Proofs.Evaluation.Operators
import AugmentedBnf.Proofs.Expression.Normal
import AugmentedBnf.Proofs.Text.Numeral
import AugmentedBnf.Proofs.Token.Visible

/-! # Lexemes of printed expressions

What an expression is printed as, seen as lexemes. The blanks that the printer puts between them
make sure that no lexeme runs on into the next one, whatever stops the printed text behind its end.
-/
namespace AugmentedBnf

open Token (Shows Stops)

namespace Token

/-- Lexemes with a slash between each two lists of them. -/
def slashed : List (List (Kind × Text)) → List (Kind × Text)
  | [] => []
  | [vs] => vs
  | vs :: rest => vs ++ (.slash, ['/']) :: slashed rest

/-- In front of anything that stops it the text shows these lexemes. -/
def Printed (t : Text) (vs : List (Kind × Text)) : Prop :=
  ∀ rest ws, Stops rest → Shows rest ws → Shows (t ++ rest) (vs ++ ws)

theorem stops_blank (t : Text) : Stops (' ' :: t) := by
  rintro c ⟨⟩
  exact .inl rfl

theorem shows_nil_eq {vs : List (Kind × Text)} (h : Shows [] vs) : vs = [] := by
  generalize ht : ([] : Text) = t at h
  cases h with
  | nil => rfl
  | blank => cases ht
  | lexeme longest =>
    rw [← ht] at longest
    cases longest

namespace Printed

variable {t : Text} {vs : List (Kind × Text)} {texts : List Text}
  {lists : List (List (Kind × Text))}

theorem join_blank (h : List.Forall₂ Printed texts lists) :
    Printed (Text.join [' '] texts) lists.flatten := by
  intro rest ws hrest hws
  induction h with
  | nil => exact hws
  | @cons t vs texts lists hfirst hothers ih =>
    cases hothers with
    | nil =>
      rw [Text.join_singleton, List.flatten_singleton]
      exact hfirst rest ws hrest hws
    | cons hsecond hmore =>
      rw [Text.join_cons (List.cons_ne_nil _ _), List.flatten_cons, List.append_assoc,
        List.append_assoc, List.append_assoc]
      exact hfirst _ _ (stops_blank _) (.blank rfl ih)

theorem join_slash (h : List.Forall₂ Printed texts lists) :
    Printed (Text.join [' ', '/', ' '] texts) (slashed lists) := by
  intro rest ws hrest hws
  induction h with
  | nil => exact hws
  | @cons t vs texts lists hfirst hothers ih =>
    cases hothers with
    | nil =>
      rw [Text.join_singleton, slashed]
      exact hfirst rest ws hrest hws
    | cons hsecond hmore =>
      rw [Text.join_cons (List.cons_ne_nil _ _), slashed, List.append_assoc, List.append_assoc,
        List.append_assoc, List.cons_append]
      · refine hfirst _ _ (stops_blank _) (.blank rfl ?_)
        exact Shows.mark lexeme?_slash ⟨by decide, by decide⟩ (.blank rfl ih)
      · nofun

theorem enclose {left right : Char} {kind kind' : Kind}
    (hleft : ∀ t, lexeme? (left :: t) = some (kind, [left]))
    (hright : ∀ t, lexeme? (right :: t) = some (kind', [right]))
    (hkind : kind ≠ .whitespace ∧ kind ≠ .lineBreak)
    (hkind' : kind' ≠ .whitespace ∧ kind' ≠ .lineBreak) (h : Printed t vs) :
    Printed (Expression.enclose left t right) ((kind, [left]) :: vs ++ [(kind', [right])]) := by
  intro rest ws hrest hws
  have hclose : Shows (right :: rest) ((kind', [right]) :: ws) := Shows.mark hright hkind' hws
  rw [Expression.enclose, List.append_assoc, List.singleton_append]
  cases t with
  | nil =>
    have hnil : vs = [] := by
      have hshows := h [] [] nofun .nil
      rw [List.append_nil] at hshows
      exact List.append_eq_nil_iff.mp (shows_nil_eq hshows) |>.1
    subst hnil
    exact Shows.mark hleft hkind (.blank rfl hclose)
  | cons c t =>
    have hinner := h (' ' :: right :: rest) _ (stops_blank _) (.blank rfl hclose)
    have htext : (left :: ' ' :: (c :: t) ++ [' ', right]) ++ rest =
        left :: ' ' :: (c :: t ++ ' ' :: right :: rest) := by simp
    rw [List.isEmpty_cons, if_neg (by decide), htext]
    exact Shows.mark hleft hkind (.blank rfl hinner)

end Printed

end Token

open Token (Printed slashed)

namespace Charset

/-- The lexeme of a run. -/
def shownRun (run : Nat × Nat) : Token.Kind × Text := (.hexadecimal, renderRun run)

/-- The lexemes of a set: one run, or a choice between runs in parentheses. -/
def shown (set : Charset) : List (Token.Kind × Text) :=
  match set.runs with
  | [run] => [shownRun run]
  | runs => (.leftParen, ['(']) :: slashed (runs.map fun run => [shownRun run]) ++
      [(.rightParen, [')'])]

theorem printed_renderRun (run : Nat × Nat) : Printed (renderRun run) [shownRun run] := by
  obtain ⟨first, last⟩ := run
  intro rest ws hrest hws
  have hdigits : ∀ n, ∀ c ∈ Text.hexDigits 2 n, Token.isHexDigit c = true :=
    fun n c hc => Text.isHexDigit_of_mem_hexDigits hc
  have hne := Text.hexDigits_ne_nil 2
  have hshows : ∀ tail, (tail = [] ∨ ∃ digits, digits ≠ [] ∧ tail = '-' :: digits ∧
      ∀ c ∈ digits, Token.isHexDigit c = true) →
      Shows ('%' :: 'x' :: Text.hexDigits 2 first ++ tail ++ rest)
        ((.hexadecimal, '%' :: 'x' :: Text.hexDigits 2 first ++ tail) :: ws) :=
    fun tail htail => Shows.hexadecimal (hne first) (hdigits first) htail hrest hws
  rw [shownRun, renderRun]
  by_cases heq : first = last
  · rw [if_pos heq]
    have hone := hshows [] (.inl rfl)
    rwa [List.append_nil] at hone
  · rw [if_neg heq]
    exact hshows ('-' :: Text.hexDigits 2 last) (.inr ⟨_, hne last, rfl, hdigits last⟩)

theorem printed_render (set : Charset) : Printed set.render set.shown := by
  have hruns : List.Forall₂ Printed (set.runs.map renderRun)
      (set.runs.map fun run => [shownRun run]) := forall₂_map_map fun run _ => printed_renderRun run
  have hchoice : Printed ('(' :: Text.join [' ', '/', ' '] (set.runs.map renderRun) ++ [')'])
      ((.leftParen, ['(']) :: slashed (set.runs.map fun run => [shownRun run]) ++
        [(.rightParen, [')'])]) := by
    intro rest ws hrest hws
    have hclose : Shows (')' :: rest) ((.rightParen, [')']) :: ws) :=
      Shows.mark Token.lexeme?_rightParen ⟨by decide, by decide⟩ hws
    have hstops : Stops (')' :: rest) := by
      rintro c ⟨⟩
      exact .inr (.inl rfl)
    have hinner := Printed.join_slash hruns (')' :: rest) _ hstops hclose
    rw [List.append_assoc, List.append_assoc, List.singleton_append, List.singleton_append]
    exact Shows.mark Token.lexeme?_leftParen ⟨by decide, by decide⟩ hinner
  unfold render shown
  match hset : set.runs with
  | [] =>
    rw [hset] at hchoice
    exact hchoice
  | [run] => exact printed_renderRun run
  | run :: other :: more =>
    rw [hset] at hchoice
    exact hchoice

theorem head?_render (set : Charset) : ∃ c rest, set.render = c :: rest ∧ c.isDigit = false := by
  unfold render
  split
  · rename_i run hrun
    obtain ⟨⟨first, last⟩, -, rfl⟩ := List.mem_map.mp (hrun ▸ List.mem_singleton_self run)
    rw [renderRun]
    split
    · exact ⟨'%', _, rfl, by decide⟩
    · exact ⟨'%', _, rfl, by decide⟩
  · exact ⟨'(', _, rfl, by decide⟩

end Charset

/-- The lexemes of the count in front of an element. -/
def Bounds.shown : Bounds → List (Token.Kind × Text)
  | ⟨min, none⟩ => [(.number, Text.decimal min), (.star, ['*'])]
  | ⟨min, some max⟩ =>
    if max = min then [(.number, Text.decimal min)]
    else [(.number, Text.decimal min), (.star, ['*']), (.number, Text.decimal max)]

theorem Bounds.shows_render (bounds : Bounds) {rest : Text} {ws : List (Token.Kind × Text)}
    (hrest : ∀ c ∈ rest.head?, c.isDigit = false) (h : Shows rest ws) :
    Shows (bounds.render ++ rest) (bounds.shown ++ ws) := by
  have hnumber : ∀ n {t : Text} {vs : List (Token.Kind × Text)},
      (∀ c ∈ t.head?, c.isDigit = false) → Shows t vs →
      Shows (Text.decimal n ++ t) ((.number, Text.decimal n) :: vs) := by
    intro n t vs ht hvs
    exact Shows.number (Text.decimal_ne_nil n) (fun c hc => Text.isDigit_of_mem_decimal hc) ht hvs
  have hstar : ∀ {t : Text} {vs : List (Token.Kind × Text)}, Shows t vs →
      Shows ('*' :: t) ((.star, ['*']) :: vs) :=
    fun hvs => Shows.mark Token.lexeme?_star ⟨by decide, by decide⟩ hvs
  have hhead : ∀ (t : Text), ∀ c ∈ ('*' :: t).head?, c.isDigit = false := by
    rintro t c ⟨⟩
    decide
  obtain ⟨min, max?⟩ := bounds
  cases max? with
  | none =>
    rw [Bounds.render, Bounds.shown, List.append_assoc]
    exact hnumber min (hhead _) (hstar h)
  | some max =>
    rw [Bounds.render, Bounds.shown]
    by_cases heq : max = min
    · rw [if_pos heq, if_pos heq]
      exact hnumber min hrest h
    · rw [if_neg heq, if_neg heq, List.append_assoc, List.cons_append]
      exact hnumber min (hhead _) (hstar (hnumber max hrest h))

namespace Expression

mutual
/-- The lexemes of a printed expression. -/
def shown : Expression → List (Token.Kind × Text)
  | alternation operands => slashed (shownAll operands)
  | concatenation operands => (shownAll operands).flatten
  | repetition bounds operand => bounds.shown ++ shown operand
  | group inner => (.leftParen, ['(']) :: shown inner ++ [(.rightParen, [')'])]
  | option inner => (.leftBracket, ['[']) :: shown inner ++ [(.rightBracket, [']'])]
  | literal value => value.positions.flatMap Charset.shown
  | reference name => [(.ident, name)]
  | prose text => [(.prose, '<' :: text ++ ['>'])]

/-- The lexemes of each of some expressions. -/
def shownAll : List Expression → List (List (Token.Kind × Text))
  | [] => []
  | operand :: rest => shown operand :: shownAll rest
end

theorem shownAll_eq_map (operands : List Expression) : shownAll operands = operands.map shown := by
  induction operands with
  | nil => rfl
  | cons operand rest ih => rw [shownAll, ih, List.map_cons]

theorem printed_renderAll {operands : List Expression}
    (h : ∀ e ∈ operands, Printed e.render e.shown) :
    List.Forall₂ Printed (renderAll operands) (shownAll operands) := by
  rw [renderAll_eq_map, shownAll_eq_map]
  exact forall₂_map_map h

/-- A printed expression has no comments, and its slashes are slashes. -/
def Usual (v : Token.Kind × Text) : Prop := v.1 ≠ .comment ∧ (v.1 = .slash → v.2 = ['/'])

theorem usual_slashed {lists : List (List (Token.Kind × Text))}
    (h : ∀ vs ∈ lists, ∀ v ∈ vs, Usual v) : ∀ v ∈ slashed lists, Usual v := by
  induction lists with
  | nil => nofun
  | cons vs lists ih =>
    obtain ⟨hfirst, hothers⟩ := List.forall_mem_cons.mp h
    cases lists with
    | nil => exact hfirst
    | cons other more =>
      rw [slashed]
      · exact List.forall_mem_append.mpr
          ⟨hfirst, List.forall_mem_cons.mpr ⟨⟨nofun, fun _ => rfl⟩, ih hothers⟩⟩
      · nofun

theorem usual_enclosed {left right : Token.Kind × Text} {vs : List (Token.Kind × Text)}
    (hleft : Usual left) (hright : Usual right) (h : ∀ v ∈ vs, Usual v) :
    ∀ v ∈ left :: vs ++ [right], Usual v :=
  List.forall_mem_append.mpr
    ⟨List.forall_mem_cons.mpr ⟨hleft, h⟩, List.forall_mem_singleton.mpr hright⟩

theorem usual_charset (set : Charset) : ∀ v ∈ set.shown, Usual v := by
  have hrun : ∀ run, Usual (Charset.shownRun run) := fun _ => ⟨nofun, nofun⟩
  unfold Charset.shown
  split
  · exact List.forall_mem_singleton.mpr (hrun _)
  · refine usual_enclosed ⟨nofun, nofun⟩ ⟨nofun, nofun⟩ (usual_slashed ?_)
    intro vs hvs v hv
    obtain ⟨run, -, rfl⟩ := List.mem_map.mp hvs
    exact List.mem_singleton.mp hv ▸ hrun run

theorem usual_bounds (bounds : Bounds) : ∀ v ∈ bounds.shown, Usual v := by
  have hnumber : ∀ n, Usual (.number, Text.decimal n) := fun _ => ⟨nofun, nofun⟩
  have hstar : Usual (.star, ['*']) := ⟨nofun, nofun⟩
  obtain ⟨min, max?⟩ := bounds
  cases max? with
  | none => simp [Bounds.shown, hnumber, hstar]
  | some max =>
    rw [Bounds.shown]
    split
    · simp [hnumber]
    · simp [hnumber, hstar]

theorem usual_shown (e : Expression) : ∀ v ∈ e.shown, Usual v := by
  induction e using Expression.induction with
  | alternation operands ih =>
    rw [shown, shownAll_eq_map]
    refine usual_slashed ?_
    intro vs hvs
    obtain ⟨e, he, rfl⟩ := List.mem_map.mp hvs
    exact ih e he
  | concatenation operands ih =>
    rw [shown, shownAll_eq_map]
    intro v hv
    obtain ⟨vs, hvs, hv⟩ := List.mem_flatten.mp hv
    obtain ⟨e, he, rfl⟩ := List.mem_map.mp hvs
    exact ih e he v hv
  | repetition bounds operand ih =>
    rw [shown]
    exact List.forall_mem_append.mpr ⟨usual_bounds bounds, ih⟩
  | group inner ih => exact usual_enclosed ⟨nofun, nofun⟩ ⟨nofun, nofun⟩ ih
  | option inner ih => exact usual_enclosed ⟨nofun, nofun⟩ ⟨nofun, nofun⟩ ih
  | literal value =>
    rw [shown]
    intro v hv
    obtain ⟨set, -, hv⟩ := List.mem_flatMap.mp hv
    exact usual_charset set v hv
  | reference name => exact List.forall_mem_singleton.mpr ⟨nofun, nofun⟩
  | prose text => exact List.forall_mem_singleton.mpr ⟨nofun, nofun⟩

theorem isDigit_head_render {e : Expression} (helement : e.isElement = true) (hnormal : e.Normal)
    {rest : Text} (hrest : Stops rest) : ∀ c ∈ (e.render ++ rest).head?, c.isDigit = false := by
  have hcons : ∀ {c : Char} {t : Text}, c.isDigit = false → ∀ d ∈ (c :: t).head?,
      d.isDigit = false := by
    rintro c t hc d ⟨⟩
    exact hc
  cases e with
  | alternation | concatenation | repetition => cases helement
  | group inner =>
    rw [render, enclose]
    split
    · exact hcons (by decide)
    · exact hcons (by decide)
  | option inner =>
    rw [render, enclose]
    split
    · exact hcons (by decide)
    · exact hcons (by decide)
  | literal value =>
    rw [render, Literal.render]
    cases value.positions with
    | nil => exact hrest.head ⟨by decide, by decide, by decide, by decide⟩
    | cons set sets =>
      obtain ⟨c, t, hset, hc⟩ := set.head?_render
      cases sets with
      | nil =>
        rw [List.map_singleton, Text.join_singleton, hset]
        exact hcons hc
      | cons other sets =>
        rw [List.map_cons, List.map_cons, Text.join_cons (List.cons_ne_nil _ _), hset]
        exact hcons hc
  | reference name =>
    obtain ⟨c, t, rfl, hc, -⟩ := Text.exists_of_isName hnormal
    refine hcons ?_
    rw [Bool.eq_false_iff]
    intro hdigit
    rw [Token.isLetter_of_isDigit hdigit] at hc
    cases hc
  | prose text => exact hcons (by decide)

/-- A printed expression shows its lexemes. -/
theorem printed_render {e : Expression} (h : Everywhere Regular e) : Printed e.render e.shown := by
  induction e using Expression.induction with
  | alternation operands ih =>
    rw [render, shown]
    exact .join_slash (printed_renderAll fun e he => ih e he (h.child he))
  | concatenation operands ih =>
    rw [render, shown]
    exact .join_blank (printed_renderAll fun e he => ih e he (h.child he))
  | repetition bounds operand ih =>
    have hoperand := h.child List.mem_cons_self
    intro rest ws hrest hws
    rw [render, shown, List.append_assoc, List.append_assoc]
    exact bounds.shows_render (isDigit_head_render h.self.1.2 hoperand.self.1 hrest)
      (ih hoperand rest ws hrest hws)
  | group inner ih =>
    rw [render, shown]
    exact .enclose Token.lexeme?_leftParen Token.lexeme?_rightParen ⟨by decide, by decide⟩
      ⟨by decide, by decide⟩ (ih (h.child List.mem_cons_self))
  | option inner ih =>
    rw [render, shown]
    exact .enclose Token.lexeme?_leftBracket Token.lexeme?_rightBracket ⟨by decide, by decide⟩
      ⟨by decide, by decide⟩ (ih (h.child List.mem_cons_self))
  | literal value =>
    rw [render, shown, Literal.render, List.flatMap_def]
    exact .join_blank (forall₂_map_map fun set _ => set.printed_render)
  | reference name =>
    intro rest ws hrest hws
    exact Shows.ident h.self.1 (hrest.head ⟨by decide, by decide, by decide, by decide⟩) hws
  | prose text =>
    intro rest ws hrest hws
    exact Shows.prose h.self.2 hws

end Expression

end AugmentedBnf
