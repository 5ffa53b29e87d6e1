import AugmentedBnf.Expression.Parser

/-! # Rules and tables of rules

A table keeps its rules in the order of their first definition. A name that is defined again
gets further alternatives, whether the assignment says so or not.
-/
namespace AugmentedBnf

/-- A rule: its name in upper case and its right-hand side. -/
structure Rule where
  name : Text
  body : Expression
  deriving DecidableEq

/-- Rules by key, in order of insertion. -/
structure RuleTable where
  entries : List (Text × Rule)
  deriving DecidableEq

namespace RuleTable

/-- The table without rules. -/
def empty : RuleTable := ⟨[]⟩

/-- The number of rules. -/
def size (rules : RuleTable) : Nat := rules.entries.length

/-- The rule with exactly this key. -/
def find? (rules : RuleTable) (key : Text) : Option Rule := rules.entries.lookup key

/-- Puts a rule in the place of the one with its key, or at the end of the entries. -/
def place (key : Text) (rule : Rule) : List (Text × Rule) → List (Text × Rule)
  | [] => [(key, rule)]
  | (other, old) :: rest =>
    if other = key then (key, rule) :: rest else (other, old) :: place key rule rest

/-- The table with a rule under a key; a key that was there keeps its place. -/
def insert (rules : RuleTable) (key : Text) (rule : Rule) : RuleTable :=
  ⟨place key rule rules.entries⟩

end RuleTable

namespace Rule

/-- A rule whose name is put in upper case. -/
def named (name : Text) (body : Expression) : Rule := ⟨name.upper, body⟩

/-- Passes over the slash of an assignment that adds alternatives, if there is one. -/
def skipIncrement : Reader Unit := do
  Reader.skip Token.Kind.inlineTrivia
  if ← Reader.isAt .slash then
    let _ ← Reader.consume .slash

/-- Reads the right-hand side of a rule; a rule that is there already gets more alternatives. -/
def readBody : Option Rule → Reader Expression
  | some existing => Expression.readMore existing.body
  | none => Expression.read

/-- Reads one definition, given the rules defined before it. -/
def read (rules : RuleTable) : Reader Rule := do
  let name := Text.upper (← Reader.consume .ident)
  Reader.skip Token.Kind.trivia
  let _ ← Reader.consume .equal
  skipIncrement
  let body ← readBody (rules.find? name)
  Reader.skip Token.Kind.trivia
  return ⟨name, body⟩

end Rule

namespace RuleTable

/-- Reads definitions until no token is left. The count bounds their number. -/
def readAll : (count : Nat) → RuleTable → Reader RuleTable
  | 0, rules => return rules
  | count + 1, rules => do
    if (← get).isOpen then
      let rule ← Rule.read rules
      Reader.skip Token.Kind.trivia
      readAll count (rules.insert rule.name rule)
    else return rules

/-- Reads a whole grammar text. Each definition takes a token at least. -/
def read : Reader RuleTable := do
  Reader.skip Token.Kind.trivia
  readAll (← get).tokens.length empty

/-- The rules of a grammar text. -/
def ofSource (source : Text) : Except CompileError RuleTable := do
  let stream ← TokenStream.ofSource source
  match read stream with
  | .ok rules _ => return rules
  | .error cause _ => throw cause

end RuleTable

end AugmentedBnf
