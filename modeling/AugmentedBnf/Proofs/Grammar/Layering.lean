import AugmentedBnf.Grammar.Basic
import AugmentedBnf.Proofs.Grammar.LineEndings

/-! # Layers of grammar text

Texts that are put one over the other, each read in a mode of its own, give the rules of one text
that holds them all. Only the form of the line endings can differ between the two, and a line ending
is never cut in two between layers: what lies below a layer was compiled, so it does not end in a
carriage return.
-/
namespace AugmentedBnf

open Mode

/-- Grammar text and the mode in which it is read. -/
structure Layer where
  mode : Mode
  text : Text

/-- The texts of layers one after the other, as they were given. -/
def Layer.texts (layers : List Layer) : Text := layers.flatMap (·.text)

namespace Grammar

/-- The grammar of a layer over what lies below it. The lowest layer is compiled on its own. -/
def addLayer (below? : Option Grammar) (top : Layer) : Except CompileError Grammar :=
  match below? with
  | none => compile top.mode top.text
  | some below => below.extend top.mode top.text

/-- The grammar of layers that are put one over the other; no layers give none. -/
def stack (layers : List Layer) : Except CompileError (Option Grammar) :=
  layers.foldlM (fun below? top => some <$> addLayer below? top) none

/-- The text that lies below the next layer. -/
def sourceOf : Option Grammar → Text
  | none => []
  | some below => below.source

theorem addLayer_eq (below? : Option Grammar) (top : Layer) :
    addLayer below? top = ofSource (sourceOf below? ++ top.mode.normalize top.text) := by
  cases below? <;> rfl

theorem ofSource_eq_ok {s : Text} {grammar : Grammar} (h : ofSource s = .ok grammar) :
    grammar.source = s ∧ s.getLast? ≠ some '\r' := by
  cases hrules : RuleTable.ofSource s with
  | error cause =>
    rw [ofSource, hrules] at h
    cases h
  | ok rules =>
    rw [ofSource, hrules] at h
    cases h
    exact ⟨rfl, RuleTable.getLast?_ne_of_ofSource hrules⟩

theorem ofSource_of_normalizeLines_eq {s t : Text} (h : normalizeLines s = normalizeLines t) :
    UpToOffsets (fun g g' => g.rules = g'.rules) (ofSource s) (ofSource t) :=
  (RuleTable.ofSource_of_normalizeLines_eq h).bind fun _ _ hrules => hrules

/-- The stored text is that of the layers up to line endings, and the next layer cannot be taken
for the rest of one. -/
structure Holds (below? : Option Grammar) (layers : List Layer) : Prop where
  lines : normalizeLines (sourceOf below?) = normalizeLines (Layer.texts layers)
  closed : (sourceOf below?).getLast? ≠ some '\r'
  lenient : (∀ layer ∈ layers, layer.mode = .lenient) →
    sourceOf below? = normalizeLines (Layer.texts layers)

namespace Holds

variable {below? : Option Grammar} {layers : List Layer}

theorem nil : Holds none [] := ⟨rfl, nofun, fun _ => rfl⟩

theorem texts_closed (h : Holds below? layers) : (Layer.texts layers).getLast? ≠ some '\r' := by
  rw [← getLast?_normalizeLines, ← h.lines, getLast?_normalizeLines]
  exact h.closed

theorem normalizeLines_texts (h : Holds below? layers) (top : Layer) :
    normalizeLines (Layer.texts (layers ++ [top])) =
      normalizeLines (Layer.texts layers) ++ normalizeLines top.text := by
  rw [← normalizeLines_append top.text h.texts_closed]
  simp [Layer.texts]

theorem lines_addLayer (h : Holds below? layers) (top : Layer) :
    normalizeLines (sourceOf below? ++ top.mode.normalize top.text) =
      normalizeLines (Layer.texts (layers ++ [top])) := by
  rw [normalizeLines_append _ h.closed, normalizeLines_normalize, h.lines, h.normalizeLines_texts]

theorem lenient_addLayer (h : Holds below? layers) {top : Layer}
    (hmodes : ∀ layer ∈ layers ++ [top], layer.mode = .lenient) :
    sourceOf below? ++ top.mode.normalize top.text =
      normalizeLines (Layer.texts (layers ++ [top])) := by
  have htop : top.mode = .lenient := hmodes top (by simp)
  have hbelow : ∀ layer ∈ layers, layer.mode = .lenient :=
    fun layer hlayer => hmodes layer (List.mem_append_left _ hlayer)
  rw [h.normalizeLines_texts, h.lenient hbelow, htop]
  rfl

theorem step (h : Holds below? layers) {top : Layer} {grammar : Grammar}
    (hadd : addLayer below? top = .ok grammar) : Holds (some grammar) (layers ++ [top]) := by
  rw [addLayer_eq] at hadd
  obtain ⟨hsource, hclosed⟩ := ofSource_eq_ok hadd
  refine ⟨?_, ?_, fun hmodes => ?_⟩
  · rw [← h.lines_addLayer top, ← hsource]
    rfl
  · rw [← hsource] at hclosed
    exact hclosed
  · rw [← h.lenient_addLayer hmodes, ← hsource]
    rfl

theorem run (h : Holds below? layers) {more : List Layer} {result? : Option Grammar}
    (hrun : more.foldlM (fun below? top => some <$> addLayer below? top) below? = .ok result?) :
    Holds result? (layers ++ more) := by
  induction more generalizing below? layers with
  | nil =>
    cases hrun
    rw [List.append_nil]
    exact h
  | cons top more ih =>
    rw [List.foldlM_cons] at hrun
    cases hadd : addLayer below? top with
    | error cause =>
      rw [hadd] at hrun
      cases hrun
    | ok grammar =>
      rw [hadd] at hrun
      rw [List.append_cons]
      exact ih (h.step hadd) hrun

end Holds

/-- A layer over others gives the rules that one compilation of all their texts gives, or is refused
for the same cause up to its offset, whatever the modes are. Where all line endings are settled the
grammars, or the causes, are the same. -/
theorem addLayer_stack_eq_compile {layers : List Layer} {below? : Option Grammar}
    (h : stack layers = .ok below?) (top : Layer) (mode : Mode) :
    UpToOffsets (fun g g' => g.rules = g'.rules) (addLayer below? top)
      (compile mode (Layer.texts (layers ++ [top]))) ∧
    ((∀ layer ∈ layers ++ [top], layer.mode = .lenient) →
      addLayer below? top = compile .lenient (Layer.texts (layers ++ [top]))) := by
  have hholds : Holds below? layers := Holds.nil.run h
  rw [addLayer_eq]
  refine ⟨?_, fun hmodes => ?_⟩
  · apply ofSource_of_normalizeLines_eq
    rw [hholds.lines_addLayer, normalizeLines_normalize]
  · rw [hholds.lenient_addLayer hmodes]
    rfl

-- A line feed that is kept, a comment that gets a carriage return, and one text that keeps both
-- line feeds; then a second layer that is refused at the same offset both ways.
theorem addLayer_stack_eq_compile_mixed :
    let below : Grammar := ⟨['A', '=', 'B', '\n', ';', '\r', '\n'],
      ⟨[(['A'], ⟨['A'], .reference ['B']⟩)]⟩⟩
    let lenient : Grammar := ⟨['A', '=', 'B', '\r', '\n'], ⟨[(['A'], ⟨['A'], .reference ['B']⟩)]⟩⟩
    stack [⟨.strict, ['A', '=', 'B', '\n']⟩, ⟨.lenient, [';', '\n']⟩] = .ok (some below) ∧
    UpToOffsets (fun g g' => g.rules = g'.rules)
      (addLayer (some below) ⟨.lenient, ['B', '=', 'C', '\n']⟩)
      (compile .strict ['A', '=', 'B', '\n', ';', '\n', 'B', '=', 'C', '\n']) ∧
    stack [⟨.lenient, ['A', '=', 'B', '\n']⟩] = .ok (some lenient) ∧
    addLayer (some lenient) ⟨.lenient, ['=']⟩ = compile .lenient ['A', '=', 'B', '\n', '='] := by
  intro below lenient
  have hbelow : stack [⟨.strict, ['A', '=', 'B', '\n']⟩, ⟨.lenient, [';', '\n']⟩] =
      .ok (some below) := rfl
  have hlenient : stack [⟨.lenient, ['A', '=', 'B', '\n']⟩] = .ok (some lenient) := rfl
  refine ⟨hbelow, ?_, hlenient, ?_⟩
  · exact (addLayer_stack_eq_compile hbelow _ .strict).1
  · exact (addLayer_stack_eq_compile hlenient _ .lenient).2 (by simp)

end Grammar

end AugmentedBnf
