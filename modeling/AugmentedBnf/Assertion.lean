import AugmentedBnf.Evaluation.Basic

/-! # Assertions on trees

An assertion compares a node with what a test expects of it. The first that does not hold is
reported with the place of the node in the tree.
-/
namespace AugmentedBnf

/-- What a test expects of a node. -/
inductive Assertion where
  | succeedsWith (text : Text)
  | failsWith (reason : Reason)
  | hasKind (kind : Expression.Kind)
  | startsAt (index : Nat)
  | hasName (name : Text)
  | hasPath (names : List Text)
  | hasChildren (count : Nat)
  /-- Assertions on the child at an index. -/
  | child (index : Nat) (assertions : List Assertion)

/-- An assertion that a node does not meet. -/
inductive Mismatch where
  | text (wanted : Text) (found : Outcome)
  | reason (wanted : Reason) (found : Outcome)
  | kind (wanted found : Expression.Kind)
  | offset (wanted found : Nat)
  | name (wanted : Text) (found : Path)
  | path (wanted : List Text) (found : Path)
  | childCount (wanted found : Nat)
  | childIndex (index count : Nat)
  deriving DecidableEq

/-- A mismatch at the node that the indexes of children lead to from the root. -/
structure FailedAssertion where
  place : List Nat
  mismatch : Mismatch
  deriving DecidableEq

/-- The wording of a mismatch. -/
def Mismatch.message : Mismatch → String
  | text wanted found =>
    "Expected success matching " ++ String.ofList (Text.quoted wanted) ++ ", but got " ++ found.describe
  | reason wanted found => s!"Expected failure {wanted.title}, but got {found.describe}"
  | kind wanted found => s!"Expected kind {wanted.name}, but got {found.name}"
  | offset wanted found => s!"Expected node at offset {wanted}, but got {found}"
  | name wanted found =>
    s!"Expected path to end in '{String.ofList wanted}', but got {String.ofList found.render}"
  | path wanted found =>
    s!"Expected path {String.ofList (Text.quotedList wanted)}, but got {String.ofList found.render}"
  | childCount wanted found => s!"Expected {wanted} children, but got {found}"
  | childIndex index count => s!"Child index {index} out of bounds ({count} children)"

/-- The wording of a failed assertion. -/
def FailedAssertion.message (failed : FailedAssertion) : String :=
  "root" ++ String.join (failed.place.map fun index => s!".children[{index}]") ++ ": " ++
    failed.mismatch.message

namespace Assertion

/-- Fails with a mismatch unless a condition holds. -/
def require (place : List Nat) (holds : Bool) (mismatch : Mismatch) : Except FailedAssertion Unit :=
  if holds then .ok () else .error ⟨place, mismatch⟩

mutual
/-- Checks one assertion on the node at a place. -/
def check (place : List Nat) (node : Node) : Assertion → Except FailedAssertion Unit
  | succeedsWith text => require place (node.text? == some text) (.text text node.outcome)
  | failsWith reason => require place (node.reason? == some reason) (.reason reason node.outcome)
  | hasKind kind => require place (node.kind == kind) (.kind kind node.kind)
  | startsAt index => require place (node.index == index) (.offset index node.index)
  | hasName name =>
    require place (node.path.tail?.any fun tail => Text.sameAscii tail name) (.name name node.path)
  | hasPath names => require place (node.path.matchesSegments names) (.path names node.path)
  | hasChildren count =>
    require place (node.children.length == count) (.childCount count node.children.length)
  | child index assertions =>
    match node.children[index]? with
    | some node => checkAll (place ++ [index]) node assertions
    | none => .error ⟨place, .childIndex index node.children.length⟩

/-- Checks assertions on the node at a place, up to the first that does not hold. -/
def checkAll (place : List Nat) (node : Node) : List Assertion → Except FailedAssertion Unit
  | [] => .ok ()
  | assertion :: rest =>
    match check place node assertion with
    | .ok () => checkAll place node rest
    | .error failed => .error failed
end

end Assertion

/-- Why the grammar or expression that a test is about was refused. -/
inductive FixtureError where
  | grammar (cause : CompileError) (source : Text)
  | expression (cause : CompileError) (source : Text)
  deriving DecidableEq

/-- The wording of a refusal: the cause, and the text on the next line. -/
def FixtureError.message : FixtureError → String
  | grammar cause source =>
    s!"grammar failed to compile: {cause.message}\n" ++ String.ofList source
  | expression cause source =>
    s!"expression failed to parse: {cause.message}\n" ++ String.ofList source

namespace Fixture

/-- A grammar over the core rules, with line endings of any form. -/
def grammar (source : Text) : Except FixtureError Grammar :=
  match (do (← Grammar.core).extend .lenient source) with
  | .ok grammar => .ok grammar
  | .error cause => .error (.grammar cause source)

/-- A right-hand side. -/
def expression (source : Text) : Except FixtureError Expression :=
  match Expression.ofSource source with
  | .ok expression => .ok expression
  | .error cause => .error (.expression cause source)

end Fixture

end AugmentedBnf
