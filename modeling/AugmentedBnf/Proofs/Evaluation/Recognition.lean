import AugmentedBnf.Proofs.Evaluation.Repetition
import AugmentedBnf.Proofs.Evaluation.Transparency
import AugmentedBnf.Proofs.Literal.Quoted
import AugmentedBnf.Proofs.Text.PrefixCode
import AugmentedBnf.Proofs.Token.Pattern

/-! # Recognized prefix codes

An expression recognizes a language if everywhere its plain runs end and match exactly the strings of
the language. The language is then a prefix code, so neither the order of alternatives nor the
greediness of repetitions loses a match.
-/
namespace AugmentedBnf

open scoped Computability

/-- A prefix code leaves no choice in what is read. -/
theorem PrefixCode.reads_unique {c : Cursor} {n k : Nat} {L : Language Char} (h : PrefixCode L)
    (hn : c.Reads n L) (hk : c.Reads k L) : n = k := by
  obtain ⟨v, hv, hfront, rfl⟩ := Cursor.reads_iff.mp hn
  obtain ⟨w, hw, hfront', rfl⟩ := Cursor.reads_iff.mp hk
  rw [h.eq_of_isPrefix hv hw hfront hfront']

namespace Expression

/-- Wherever the rules are these, a plain run of the expression ends, and it matches exactly what is
read of the language. -/
def Recognizes (rules : RuleTable) (e : Expression) (L : Language Char) : Prop :=
  ∀ c : Cursor, c.context.rules = rules → ∃ s node, Runs plainly s (.expression e) c node ∧
    ∀ n, node.length? = some n ↔ c.Reads n L

namespace Recognizes

variable {rules : RuleTable} {e : Expression} {L : Language Char} {operands : List Expression}
  {langs : List (Language Char)}

theorem prefixCode (h : Recognizes rules e L) : PrefixCode L := by
  rw [prefixCode_iff]
  rintro v hv _ hw ⟨rest, rfl⟩
  obtain ⟨s, node, -, hlength⟩ := h (.new ⟨v ++ rest, rules⟩ 0 0 .empty) rfl
  have hreads : ∀ u ∈ L, u <+: v ++ rest → node.length? = some (Text.byteSize u) := by
    intro u hu hfront
    rw [hlength, Cursor.reads_iff, Cursor.remaining_new]
    exact ⟨u, hu, hfront, rfl⟩
  -- both strings are read from the longer one, so they have the same size
  have hsize := (hreads v hv (List.prefix_append v rest)).symm.trans (hreads _ hw List.prefix_rfl)
  have hsame : v ++ rest = (v ++ rest) ++ [] := (List.append_nil _).symm
  exact (Text.append_inj_of_byteSize hsame (Option.some.inj hsize)).1

theorem literal (value : Literal) : Recognizes rules (literal value) value.language := by
  intro c _
  refine ⟨1, _, .literal, fun n => ?_⟩
  rw [Matcher.length?_literal, Literal.match?_eq_some_iff, Cursor.reads_iff]

theorem group (h : Recognizes rules e L) : Recognizes rules (group e) L := by
  intro c hc
  obtain ⟨s, node, hrun, hlength⟩ := h c hc
  refine ⟨s + 1, _, .group hrun, fun n => ?_⟩
  rw [Matcher.length?_group]
  exact hlength n

theorem reference {name : Text} {rule : Rule} (hrule : rules.find? name = some rule)
    (h : Recognizes rules rule.body L) : Recognizes rules (reference name) L := by
  intro c hc
  obtain ⟨s, node, hrun, hlength⟩ := h (c.label rule.name) hc
  have hfound : c.context.rule? name = some rule := by rw [Context.rule?, hc, hrule]
  refine ⟨s + 1, _, .reference hfound rfl hrun, fun n => ?_⟩
  rw [Node.length?_entered]
  exact hlength n

/-- The operands of a choice, tried in order. -/
theorem choices (h : List.Forall₂ (Recognizes rules) operands langs) (hcode : PrefixCode langs.sum)
    (attempts : List Node) {c : Cursor} (hc : c.context.rules = rules) :
    ∃ s node, Runs plainly s (.choices operands attempts) c node ∧
      ∀ n, node.length? = some n ↔ c.Reads n langs.sum := by
  induction h generalizing attempts with
  | nil =>
    refine ⟨1, _, .choices_end, fun n => ?_⟩
    rw [List.sum_nil, Cursor.reads_zero_iff]
    exact ⟨nofun, nofun⟩
  | @cons e L operands langs hfirst hothers ih =>
    obtain ⟨s, node, hrun, hlength⟩ := hfirst c hc
    rw [List.sum_cons] at hcode ⊢
    cases hnode : node.length? with
    | some k =>
      have hread : c.Reads k (L + langs.sum) := Cursor.reads_add_iff.mpr (.inl ((hlength k).mp hnode))
      refine ⟨s + 1, _, .choices_hit hrun hnode, fun n => ?_⟩
      rw [Node.length?_success, Option.some.injEq]
      constructor
      · rintro rfl
        exact hread
      · exact hcode.reads_unique hread
    | none =>
      obtain ⟨t, result, hnext, hresult⟩ := ih (hcode.mono le_add_self) (attempts ++ [node])
      refine ⟨s + t + 1, result, .choices_miss hrun hnode hnext, fun n => ?_⟩
      have hmiss : ¬ c.Reads n L := fun hread => by
        rw [← hlength n, hnode] at hread
        cases hread
      rw [hresult, Cursor.reads_add_iff, or_iff_right hmiss]

theorem alternation (h : List.Forall₂ (Recognizes rules) operands langs)
    (hcode : PrefixCode langs.sum) : Recognizes rules (alternation operands) langs.sum := by
  intro c hc
  obtain ⟨s, node, hrun, hlength⟩ := choices h hcode [] hc
  exact ⟨s + 1, node, .alternation hrun, hlength⟩

/-- The operands of a sequence that are still to come. -/
theorem sequel (h : List.Forall₂ (Recognizes rules) operands langs) (children : List Node)
    (offset : Nat) {c : Cursor} (hc : c.context.rules = rules) :
    ∃ s node, Runs plainly s (.sequel operands children offset) c node ∧
      ∀ n, node.length? = some n ↔
        ∃ k, (c.moveTo (c.index + offset)).Reads k langs.prod ∧ n = offset + k := by
  induction h generalizing children offset with
  | nil =>
    refine ⟨1, _, .sequel_end, fun n => ?_⟩
    rw [List.prod_nil, Node.length?_success]
    simp [Cursor.reads_one_iff, eq_comm]
  | @cons e L operands langs hfirst hothers ih =>
    obtain ⟨s, node, hrun, hlength⟩ := hfirst (c.moveTo (c.index + offset)) hc
    rw [List.prod_cons]
    cases hnode : node.length? with
    | some k =>
      obtain ⟨t, result, hnext, hresult⟩ := ih (children ++ [node]) (offset + k)
      refine ⟨s + t + 1, result, .sequel_step hrun hnode hnext, fun n => ?_⟩
      rw [hresult]
      constructor
      · rintro ⟨j, hj, rfl⟩
        rw [← Nat.add_assoc] at hj
        exact ⟨k + j, ((hlength k).mp hnode).mul hj, Nat.add_assoc _ _ _⟩
      · rintro ⟨m, hm, rfl⟩
        obtain ⟨i, j, hi, hj, rfl⟩ := Cursor.reads_mul_iff.mp hm
        obtain rfl : k = i := Option.some.inj (hnode.symm.trans ((hlength i).mpr hi))
        rw [Cursor.moveTo_moveTo, Cursor.moveTo_index, Nat.add_assoc] at hj
        exact ⟨j, hj, (Nat.add_assoc _ _ _).symm⟩
    | none =>
      refine ⟨s + 1, _, .sequel_stop hrun hnode, fun n => ⟨nofun, ?_⟩⟩
      rintro ⟨m, hm, rfl⟩
      obtain ⟨i, -, hi, -⟩ := Cursor.reads_mul_iff.mp hm
      cases hnode.symm.trans ((hlength i).mpr hi)

theorem concatenation (h : List.Forall₂ (Recognizes rules) operands langs) :
    Recognizes rules (concatenation operands) langs.prod := by
  intro c hc
  obtain ⟨s, node, hrun, hlength⟩ := sequel h [] 0 hc
  refine ⟨s + 1, node, .concatenation hrun, fun n => ?_⟩
  simpa using hlength n

section Evaluation

variable {c : Cursor} (h : Recognizes rules e L) (hrules : rules.Coherent)
  (hc : c.context.rules = rules) (hfresh : c.active = .empty)
include h hrules hc hfresh

/-- Where no rule is active, evaluation matches exactly what is read. -/
theorem length?_evaluate (n : Nat) : (e.evaluate c).length? = some n ↔ c.Reads n L := by
  obtain ⟨s, node, hrun, hlength⟩ := h c hc
  rw [(evaluate_of_plain_run (by rwa [hc]) hfresh ⟨rfl, rfl⟩ hrun).1, hlength]

theorem length?_attempt (count n : Nat) : (e.attempt c count).length? = some n ↔
    (c.moveTo (c.index + e.advance c count)).Reads n L :=
  h.length?_evaluate hrules (c := c.moveTo (c.index + e.advance c count)) hc hfresh n

/-- Rounds that each match something read one string after the other. -/
theorem reads_advance {max : Option Nat} {count : Nat} (hprogress : e.Progresses c max count) :
    c.Reads (e.advance c count) L∗ := by
  induction count with
  | zero => exact (Cursor.Reads.empty c).mono one_le_kstar
  | succ count ih =>
    obtain ⟨-, n, hhit⟩ := hprogress count (Nat.lt_succ_self count)
    have hfront := ih fun i hi => hprogress i (Nat.lt_succ_of_lt hi)
    have hnext := (h.length?_attempt hrules hc hfresh count _).mp hhit
    rw [advance_succ hhit]
    exact (hfront.mul hnext).mono kstar_mul_le_kstar

/-- A repetition without bounds always succeeds, and it takes the longest front that is made of
recognized strings. -/
theorem evaluate_repetition (hnil : [] ∉ L) :
    ∃ w ∈ L∗, w <+: c.remaining ∧ (∀ front ∈ L∗, front <+: c.remaining → front <+: w) ∧
      ((repetition ⟨0, none⟩ e).evaluate c).length? = some (Text.byteSize w) := by
  obtain ⟨k, hhalts, hnode⟩ := exists_concludes e c ⟨0, none⟩
  obtain ⟨w, rest, hw, hremaining, hsize⟩ := h.reads_advance hrules hc hfresh hhalts.progress
  refine ⟨w, hw, ⟨rest, hremaining.symm⟩, ?_, ?_⟩
  · -- the last attempt fails, so none of the strings follows
    have hnone : ∀ v ∈ L, ¬ v <+: rest := by
      intro v hv hfront
      have hread : (c.moveTo (c.index + e.advance c k)).Reads (Text.byteSize v) L := by
        rw [Cursor.reads_iff, ← hsize, Cursor.remaining_moveTo hremaining]
        exact ⟨v, hv, hfront, rfl⟩
      have hhit : (e.attempt c k).length? = some (Text.byteSize v) :=
        (h.length?_attempt hrules hc hfresh k _).mpr hread
      have hpos : 0 < Text.byteSize v := Text.byteSize_pos fun hv' => hnil (hv' ▸ hv)
      rcases hhalts.stop with hfull | hmiss | hidle
      · cases hfull
      · cases hmiss.symm.trans hhit
      · have := Option.some.inj (hidle.symm.trans hhit)
        omega
    intro front hfront hle
    rw [hremaining] at hle
    exact h.prefixCode.isPrefix_of_kstar hw hnone hfront hle
  · rw [hnode.length?_eq, if_pos (Nat.zero_le k), hsize]

end Evaluation

end Recognizes

end Expression

section SingleCharacters

open Token (oneOf mem_oneOf)

/-- The members of either set. -/
def Charset.union (s t : Charset) : Charset := ofList (s.members ++ t.members)

theorem Charset.contains_ofList (cs : List Char) : (ofList cs).contains = cs.contains := by
  funext c
  rw [Bool.eq_iff_iff, contains_iff, mem_ofList, List.contains_iff_mem]

theorem Charset.oneOf_union (s t : Charset) :
    oneOf (s.union t).contains = oneOf s.contains + oneOf t.contains := by
  have hunion : (s.union t).contains = fun c => s.contains c || t.contains c := by
    funext c
    rw [union, contains_ofList, List.contains_append]
    rfl
  rw [hunion, Token.oneOf_add]

theorem Charset.oneOf_empty : oneOf empty.contains = 0 := by
  ext w
  simp [mem_oneOf, empty, contains]

theorem Literal.language_single (set : Charset) : language ⟨[set]⟩ = oneOf set.contains := by
  ext w
  rw [mem_oneOf]
  constructor
  · rintro (_ | ⟨hc, _ | _⟩)
    exact ⟨_, Charset.contains_iff.mpr hc, rfl⟩
  · rintro ⟨c, hc, rfl⟩
    exact .cons (Charset.contains_iff.mp hc) .nil

theorem prefixCode_oneOf (f : Char → Bool) : PrefixCode (oneOf f) :=
  .of_length (by rintro w ⟨c, -, rfl⟩; rfl)

namespace Expression

mutual
/-- The set of which an expression matches one character, if all it does is to choose between such
sets. Those of the rules are given. -/
def lone? (enter : Text → Option Charset) : Expression → Option Charset
  | alternation operands => loneAny? enter operands
  | group inner => lone? enter inner
  | literal ⟨[set]⟩ => some set
  | reference name => enter name
  | _ => none

/-- The set of which one of some expressions matches one character. -/
def loneAny? (enter : Text → Option Charset) : List Expression → Option Charset
  | [] => some .empty
  | operand :: rest => do
    let set ← lone? enter operand
    return set.union (← loneAny? enter rest)
end

variable {rules : RuleTable} {enter : Text → Option Charset}

theorem exists_of_loneAny? {operands : List Expression} {set : Charset}
    (h : loneAny? enter operands = some set) : ∃ sets : List Charset,
      List.Forall₂ (fun e s => lone? enter e = some s) operands sets ∧
        (sets.map fun s => oneOf s.contains).sum = oneOf set.contains := by
  induction operands generalizing set with
  | nil =>
    obtain rfl := Option.some.inj h
    exact ⟨[], .nil, Charset.oneOf_empty.symm⟩
  | cons e operands ih =>
    simp only [loneAny?, Option.bind_eq_bind, Option.bind_eq_some_iff] at h
    obtain ⟨s, hs, t, ht, hset⟩ := h
    obtain rfl := Option.some.inj hset
    obtain ⟨sets, hsets, hsum⟩ := ih ht
    refine ⟨s :: sets, .cons hs hsets, ?_⟩
    rw [List.map_cons, List.sum_cons, hsum, Charset.oneOf_union]

theorem recognizes_of_lone?
    (henter : ∀ name set, enter name = some set → Recognizes rules (reference name) (oneOf set.contains))
    {e : Expression} {set : Charset} (h : e.lone? enter = some set) :
    Recognizes rules e (oneOf set.contains) := by
  induction e using Expression.induction generalizing set with
  | alternation operands ih =>
    obtain ⟨sets, hsets, hsum⟩ := exists_of_loneAny? (by rwa [lone?] at h)
    have hall : List.Forall₂ (Recognizes rules) operands (sets.map fun s => oneOf s.contains) := by
      rw [List.forall₂_map_right_iff]
      refine ((List.forall₂_and_left _ _).mpr ⟨fun e he => @ih e he, hsets⟩).imp ?_
      exact fun e set h => h.1 h.2
    rw [← hsum]
    exact .alternation hall (by rw [hsum]; exact prefixCode_oneOf _)
  | group inner ih => exact (ih (by rwa [lone?] at h)).group
  | literal value =>
    rcases value with ⟨_ | ⟨own, _ | ⟨next, more⟩⟩⟩
    · cases h
    · obtain rfl := Option.some.inj h
      exact Literal.language_single own ▸ .literal ⟨[own]⟩
    · cases h
  | reference name => exact henter name set (by rwa [lone?] at h)
  | _ => simp [lone?] at h

end Expression

namespace RuleTable

/-- The set of which a rule matches one character, as far as rules nested less than `depth` deep
show it. -/
def lone? (rules : RuleTable) : (depth : Nat) → Text → Option Charset
  | 0, _ => none
  | depth + 1, name => do (← rules.find? name).body.lone? (rules.lone? depth)

theorem recognizes_of_lone? {rules : RuleTable} {depth : Nat} {name : Text} {set : Charset}
    (h : rules.lone? depth name = some set) : ∃ rule, rules.find? name = some rule ∧
      rule.body.Recognizes rules (oneOf set.contains) := by
  induction depth generalizing name set with
  | zero => cases h
  | succ depth ih =>
    obtain ⟨rule, hrule, hbody⟩ := Option.bind_eq_some_iff.mp h
    refine ⟨rule, hrule, Expression.recognizes_of_lone? ?_ hbody⟩
    intro other found hfound
    obtain ⟨inner, hinner, hrecognizes⟩ := ih hfound
    exact .reference hinner hrecognizes

end RuleTable

end SingleCharacters

end AugmentedBnf
