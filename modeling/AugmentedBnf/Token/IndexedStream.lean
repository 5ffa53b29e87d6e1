import AugmentedBnf.Token.Stream

/-! # Tokens by index

All tokens of a text stay where they are, and an index says which one is next. The texts of tokens are
cut out of the source when they are read, and what follows the index is cut out of the tokens. Where
there is nothing to cut, reading breaks off.
-/
namespace AugmentedBnf

/-- The tokens of a source and the index of the next one. -/
structure IndexedStream where
  source : Text
  tokens : List Token
  index : Nat

/-- How reading by index stops before its end. -/
inductive Halt where
  /-- The grammar text is refused. -/
  | refused (cause : CompileError)
  /-- Something is to be cut out where there is nothing to cut. -/
  | outOfRange
  deriving DecidableEq

/-- A reader of tokens by index. -/
abbrev IndexedReader := EStateM Halt IndexedStream

namespace IndexedStream

/-- Whether a token is left. -/
def isOpen (stream : IndexedStream) : Bool := decide (stream.index < stream.tokens.length)

/-- The next token. -/
def peek? (stream : IndexedStream) : Option Token := stream.tokens[stream.index]?

/-- Whether the next token has a kind. -/
def isAt (stream : IndexedStream) (kind : Token.Kind) : Bool :=
  stream.peek?.any fun token => token.kind == kind

/-- The tokens from the index on. An index past the end leaves nothing to cut. -/
def rest? (stream : IndexedStream) : Option (List Token) :=
  if stream.index ≤ stream.tokens.length then some (stream.tokens.drop stream.index) else none

/-- The next tokens that are not of the kinds passed over, at most `amount` of them. -/
def ahead? (stream : IndexedStream) (amount : Nat) (passing : List Token.Kind) :
    Option (List Token) :=
  stream.rest?.map fun rest => (rest.filter fun token => !passing.contains token.kind).take amount

/-- The number of tokens that are left. -/
def remaining (stream : IndexedStream) : Nat := stream.tokens.length - stream.index

/-- The stream with the index one further. -/
def advance (stream : IndexedStream) : IndexedStream := { stream with index := stream.index + 1 }

/-- The stream with the index behind the tokens of some kinds that come next. -/
def skip (kinds : List Token.Kind) (stream : IndexedStream) : IndexedStream :=
  match _next : stream.peek? with
  | none => stream
  | some token => if kinds.contains token.kind then skip kinds stream.advance else stream
termination_by stream.remaining
decreasing_by
  obtain ⟨hindex, -⟩ := List.getElem?_eq_some_iff.mp _next
  simp only [remaining, advance]
  omega

end IndexedStream

namespace IndexedReader

variable {α : Type}

/-- Refuses the grammar text. -/
def refuse (cause : CompileError) : IndexedReader α := throw (.refused cause)

/-- A result, or the refusal of the grammar text. -/
def accept : Except CompileError α → IndexedReader α
  | .ok a => return a
  | .error cause => refuse cause

/-- What was cut out, if there was something to cut. -/
def cut : Option α → IndexedReader α
  | some a => return a
  | none => throw .outOfRange

/-- Passes over the tokens of some kinds. -/
def skip (kinds : List Token.Kind) : IndexedReader Unit := modify fun stream => stream.skip kinds

/-- Whether the next token has a kind. -/
def isAt (kind : Token.Kind) : IndexedReader Bool := do
  return (← get).isAt kind

/-- The next tokens that are not of the kinds passed over, at most `amount` of them. -/
def ahead (amount : Nat) (passing : List Token.Kind) : IndexedReader (List Token) := do
  cut ((← get).ahead? amount passing)

/-- Takes the next token, which must have the kind, and gives its text. -/
def consume (kind : Token.Kind) : IndexedReader Text := do
  let stream ← get
  match stream.peek? with
  | none => refuse (.expected kind none stream.source.byteSize)
  | some token =>
    if token.kind = kind then
      set stream.advance
      cut (stream.source.slice? token.offset token.stop)
    else refuse (.expected kind (some token.kind) token.offset)

end IndexedReader

end AugmentedBnf
