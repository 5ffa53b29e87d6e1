import AugmentedBnf.Expression.Levels
import AugmentedBnf.Grammar.Basic

/-! # Compiling by index

The rules of a grammar text, read from its tokens by index.
-/
namespace AugmentedBnf

namespace IndexedReader

/-- Passes over the slash of an assignment that adds alternatives, if there is one. -/
def skipIncrement : IndexedReader Unit := do
  skip Token.Kind.inlineTrivia
  if ← isAt .slash then
    let _ ← consume .slash

/-- Reads the right-hand side of a rule; a rule that is there already gets more alternatives. -/
def body : Option Rule → IndexedReader Expression
  | some existing => further existing.body
  | none => expression

/-- Reads one definition, given the rules defined before it. -/
def rule (rules : RuleTable) : IndexedReader Rule := do
  let name := Text.upper (← consume .ident)
  skip Token.Kind.trivia
  let _ ← consume .equal
  skipIncrement
  let body ← body (rules.find? name)
  skip Token.Kind.trivia
  return ⟨name, body⟩

/-- Reads definitions until no token is left. The count bounds their number. -/
def definitions : (count : Nat) → RuleTable → IndexedReader RuleTable
  | 0, rules => return rules
  | count + 1, rules => do
    if (← get).isOpen then
      let rule ← rule rules
      skip Token.Kind.trivia
      definitions count (rules.insert rule.name rule)
    else return rules

/-- Reads a whole grammar text. Each definition takes a token at least. -/
def table : IndexedReader RuleTable := do
  skip Token.Kind.trivia
  definitions (← get).remaining .empty

end IndexedReader

/-- The grammar of a text read in a mode, from its tokens by index. -/
def Grammar.compileByIndex (mode : Mode) (source : Text) : Except Halt Grammar :=
  match Token.scan (mode.normalize source) with
  | .error cause => .error (.refused cause)
  | .ok tokens =>
    match IndexedReader.table ⟨mode.normalize source, tokens, 0⟩ with
    | .ok rules _ => .ok ⟨mode.normalize source, rules⟩
    | .error halt _ => .error halt

end AugmentedBnf
