import AugmentedBnf.Expression.Printer
import AugmentedBnf.Grammar.CoreText
import AugmentedBnf.Grammar.Mode
import AugmentedBnf.Grammar.Rule

/-! # Compiled grammars

A grammar keeps the text it was compiled from. Extending it compiles its text together with the
extension, so the rules of the extension can name and add to those of the base.
-/
namespace AugmentedBnf

/-- A grammar text with its rules. -/
structure Grammar where
  source : Text
  rules : RuleTable
  deriving DecidableEq

/-- A name under which a grammar has no rule, as it was asked for. -/
structure RuleNotFound where
  name : Text
  deriving DecidableEq

/-- The wording of a failed look-up. -/
def RuleNotFound.message (cause : RuleNotFound) : String :=
  "rule not found: " ++ String.ofList cause.name

namespace Grammar

/-- The grammar of a text that is taken as it is. -/
def ofSource (source : Text) : Except CompileError Grammar := do
  return ⟨source, ← RuleTable.ofSource source⟩

/-- The grammar of a text read in a mode. -/
def compile (mode : Mode) (source : Text) : Except CompileError Grammar :=
  ofSource (mode.normalize source)

/-- The grammar of a base text followed by an extension. -/
def extend (base : Grammar) (mode : Mode) (extension : Text) : Except CompileError Grammar :=
  ofSource (base.source ++ mode.normalize extension)

/-- The grammar of the core rules. -/
def core : Except CompileError Grammar := compile .lenient coreSource

/-- The rule with a name, in any case. -/
def rule (grammar : Grammar) (name : Text) : Except RuleNotFound Rule :=
  match grammar.rules.find? name.upper with
  | some rule => .ok rule
  | none => .error ⟨name⟩

/-- One line of grammar notation for each rule. -/
def listing (grammar : Grammar) : Text :=
  grammar.rules.entries.flatMap fun (key, rule) =>
    key ++ [' ', '=', ' '] ++ rule.body.render ++ ['\n']

end Grammar

end AugmentedBnf
