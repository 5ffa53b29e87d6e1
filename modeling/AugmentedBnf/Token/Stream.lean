import AugmentedBnf.Token.Lexer

/-! # Reading tokens one after the other

A stream holds the tokens that are still to be read. Reading is a state transformation that
keeps what it has consumed also when it fails.
-/
namespace AugmentedBnf

/-- The tokens still to be read and the byte size of the text they come from. -/
structure TokenStream where
  tokens : List Token
  size : Nat
  deriving DecidableEq

/-- A reader of tokens. A failing reader leaves the stream where it stopped. -/
abbrev Reader := EStateM CompileError TokenStream

namespace TokenStream

/-- The stream of all tokens of a grammar text. -/
def ofSource (source : Text) : Except CompileError TokenStream := do
  return ⟨← Token.scan source, source.byteSize⟩

/-- Whether a token is left. -/
def isOpen (stream : TokenStream) : Bool := !stream.tokens.isEmpty

/-- The next token. -/
def peek? (stream : TokenStream) : Option Token := stream.tokens.head?

/-- Whether the next token has a kind. -/
def isAt (stream : TokenStream) (kind : Token.Kind) : Bool :=
  match stream.tokens with
  | [] => false
  | token :: _ => token.kind == kind

/-- The first tokens that are not of the kinds passed over, at most `amount` of them. -/
def aheadIn (passing : List Token.Kind) : (amount : Nat) → List Token → List Token
  | 0, _ => []
  | _ + 1, [] => []
  | amount + 1, token :: rest =>
    if passing.contains token.kind then aheadIn passing (amount + 1) rest
    else token :: aheadIn passing amount rest

/-- The next tokens that are not of the kinds passed over, at most `amount` of them. -/
def ahead (stream : TokenStream) (amount : Nat) (passing : List Token.Kind) : List Token :=
  aheadIn passing amount stream.tokens

/-- The stream without the tokens of some kinds at its front. -/
def skip (stream : TokenStream) (kinds : List Token.Kind) : TokenStream :=
  { stream with tokens := stream.tokens.dropWhile fun token => kinds.contains token.kind }

end TokenStream

namespace Reader

/-- Passes over the tokens of some kinds. -/
def skip (kinds : List Token.Kind) : Reader Unit := modify fun stream => stream.skip kinds

/-- Whether the next token has a kind. -/
def isAt (kind : Token.Kind) : Reader Bool := do
  return (← get).isAt kind

/-- Takes the next token, which must have the kind, and gives its text. -/
def consume (kind : Token.Kind) : Reader Text := fun stream =>
  match stream.tokens with
  | [] => .error (.expected kind none stream.size) stream
  | token :: rest =>
    if token.kind = kind then .ok token.text { stream with tokens := rest }
    else .error (.expected kind (some token.kind) token.offset) stream

end Reader

end AugmentedBnf
