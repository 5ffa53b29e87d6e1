import AugmentedBnf.CommandLine.Arguments
import AugmentedBnf.Evaluation.Basic
import AugmentedBnf.Evaluation.Query
import AugmentedBnf.Format.Registry
import AugmentedBnf.Settings.Basic
import AugmentedBnf.Text.Bytes

/-! # Running a command

A command reads its files, compiles the grammar and answers with a report. The report ends with
status 0 on success, 1 when the input does not match, and 2 when the command could not be done.
-/
namespace AugmentedBnf.CommandLine

/-- What a command prints and the status it ends with. -/
structure Report where
  status : Nat
  output : Text
  messages : Text
  deriving DecidableEq

/-- The files a command can read, and its standard input. A file that cannot be read gives the
wording of the cause. -/
structure Surroundings where
  file : Text → Except String ByteArray
  standardInput : ByteArray

/-- The wording for a file that does not exist. -/
def noSuchFile : String := "No such file or directory (os error 2)"

/-- The wording for a directory in the place of a file. -/
def isDirectory : String := "Is a directory (os error 21)"

/-- The wording for a file in the place of a directory. -/
def notDirectory : String := "Not a directory (os error 20)"

/-- The wording for bytes that are no text. -/
def notUtf8 : String := "stream did not contain valid UTF-8"

/-- Why a command could not be done. -/
inductive Failure where
  | settings (cause : SettingsError)
  | unreadableGrammar (path : Text) (cause : String)
  | unreadableInput (path : Text) (cause : String)
  | unreadableStandardInput
  | grammar (cause : CompileError)
  | query
  | rule (cause : RuleNotFound)
  | format (cause : FormatError)

/-- The wording of a failure. -/
def Failure.message : Failure → String
  | settings cause => cause.message
  | unreadableGrammar path cause => s!"cannot read grammar {String.ofList path}: {cause}"
  | unreadableInput path cause => s!"cannot read input {String.ofList path}: {cause}"
  | unreadableStandardInput => notUtf8
  | grammar cause => cause.message
  | query => "invalid query"
  | rule cause => cause.message
  | format cause => cause.message

/-- The text of a file. -/
def readText (surroundings : Surroundings) (path : Text) : Except String Text := do
  match Text.ofBytes? (← surroundings.file path) with
  | some text => return text
  | none => throw notUtf8

/-- The file of settings with a name, or with the name and the usual ending. -/
def settingsFile (surroundings : Surroundings) (path : Text) : SettingsFile :=
  match surroundings.file path, surroundings.file (path ++ ".toml".toList) with
  | .ok bytes, _ => ⟨some (Text.ofAnyBytes bytes), false⟩
  | .error _, .ok bytes => ⟨some (Text.ofAnyBytes bytes), false⟩
  | .error _, .error _ => ⟨none, false⟩

/-- A single value that overrides the files. -/
def override (group name : String) (value : Setting) : Key × Setting :=
  (⟨group.toList, [.name name.toList]⟩, value)

/-- The values that the arguments about the grammar override. -/
def grammarOverrides (grammar : GrammarArguments) : List (Key × Setting) :=
  (match grammar.mode with
    | some mode => [override "compile" "mode" (.text mode.name.toList)]
    | none => []) ++
  if grammar.noCore then [override "compile" "core" (.switch false)] else []

/-- The values that the arguments of `check` override. -/
def checkOverrides (arguments : CheckArguments) : List (Key × Setting) :=
  (match arguments.format with
    | some format => [override "output" "format" (.text format)]
    | none => []) ++
  if arguments.showFailures then [override "output" "show_failures" (.switch true)] else []

/-- The settings of an invocation. -/
def loadSettings (surroundings : Surroundings) (config : Option Text)
    (overrides : List (Key × Setting)) : Except Failure Settings :=
  (Settings.load (config.toList.map (settingsFile surroundings)) overrides).mapError .settings

/-- The grammar in a file, over the core rules or alone. -/
def loadGrammar (surroundings : Surroundings) (path : Text) (settings : CompileSettings) :
    Except Failure Grammar := do
  let source ← (readText surroundings path).mapError (.unreadableGrammar path)
  if settings.core then
    let core ← Grammar.core.mapError .grammar
    (core.extend settings.mode source).mapError .grammar
  else (Grammar.compile settings.mode source).mapError .grammar

/-- The input of `check`: a file, or the standard input for a dash. -/
def loadInput (surroundings : Surroundings) (path : Text) : Except Failure Text :=
  if path = ['-'] then
    match Text.ofBytes? surroundings.standardInput with
    | some text => .ok text
    | none => .error .unreadableStandardInput
  else (readText surroundings path).mapError (.unreadableInput path)

/-- The query that an argument spells, if there is one. -/
def loadQuery : Option Text → Except Failure (Option Query)
  | none => .ok none
  | some text =>
    match Query.ofJson? text with
    | some query => .ok (some query)
    | none => .error .query

/-- A line for a matched node: its path, place and text. -/
def matchLine (node : Node) : Text :=
  match node.text? with
  | some text =>
    node.path.render ++ [' ', '@'] ++ Text.decimal node.index ++ [':', ' '] ++ Text.quoted text ++ ['\n']
  | none => []

/-- Some nodes in an output format. -/
def renderNodes (nodes : List Node) : OutputFormat → Text
  | .json => (Document.list (Node.documents nodes)).wide ++ ['\n']
  | .yaml => Document.Yaml.render (.list (Node.documents nodes))
  | .outline => nodes.flatMap matchLine

/-- A tree, or the nodes of it that a query asks for. -/
def renderTree (root : Node) (query : Option Query) (settings : OutputSettings) :
    Except Failure Text :=
  match query with
  | some query => .ok (renderNodes (root.filter query) settings.format)
  | none =>
    let registry := FormatRegistry.standard ⟨settings.labelWidth, settings.showFailures⟩
    (registry.write root settings.format.name).mapError .format

/-- The report of an evaluation. An input counts as matched only in part when `complete` is asked
for and bytes are left. -/
def report (root : Node) (size : Nat) (complete : Bool) (output : Text) : Report :=
  match root.length? with
  | none => ⟨1, output, []⟩
  | some length =>
    if !complete || length == size then ⟨0, output, []⟩
    else ⟨1, output, s!"matched {length} of {size} bytes\n".toList⟩

/-- Evaluates a rule on an input. -/
def check (surroundings : Surroundings) (config : Option Text) (grammar : GrammarArguments)
    (arguments : CheckArguments) : Except Failure Report := do
  let settings ←
    loadSettings surroundings config (grammarOverrides grammar ++ checkOverrides arguments)
  let compiled ← loadGrammar surroundings grammar.path settings.compile
  let input ← loadInput surroundings arguments.input
  let query ← loadQuery arguments.query
  let root ← (compiled.evaluate arguments.rule input).mapError .rule
  let output ← renderTree root query settings.output
  return report root input.byteSize arguments.complete output

/-- Lists the rules of a grammar. -/
def listRules (surroundings : Surroundings) (config : Option Text) (grammar : GrammarArguments) :
    Except Failure Report := do
  let settings ← loadSettings surroundings config (grammarOverrides grammar)
  let compiled ← loadGrammar surroundings grammar.path settings.compile
  return ⟨0, compiled.listing, []⟩

/-- Runs an invocation. -/
def run (surroundings : Surroundings) (invocation : Invocation) : Except Failure Report :=
  match invocation.command with
  | .check grammar arguments => check surroundings invocation.config grammar arguments
  | .rules grammar => listRules surroundings invocation.config grammar

/-- The name and version of the program. -/
def versionText : String := "abnf 0.1.0\n"

/-- The text of the help on a command, or on all of them. -/
def helpText : Option CommandName → String
  | none =>
    "Compile ABNF grammars and match input against them\n\n" ++
    "Usage: abnf [OPTIONS] <COMMAND>\n\n" ++
    "Commands:\n" ++
    "  check  Evaluate input against a grammar rule\n" ++
    "  rules  Print every compiled rule in grammar notation\n" ++
    "  help   Print this message or the help of the given subcommand(s)\n\n" ++
    "Options:\n" ++
    "  -v, --verbose...       Increase logging verbosity (-v: debug, -vv+: trace)\n" ++
    "      --config <CONFIG>  Configuration file layered over the built-in defaults\n" ++
    "  -h, --help             Print help\n" ++
    "  -V, --version          Print version\n"
  | some .check =>
    "Evaluate input against a grammar rule\n\n" ++
    "Usage: abnf check [OPTIONS] <GRAMMAR> <RULE> <INPUT>\n\n" ++
    "Arguments:\n" ++
    "  <GRAMMAR>  Grammar source file\n" ++
    "  <RULE>     Rule to evaluate, in any casing\n" ++
    "  <INPUT>    Input file, or `-` for standard input\n\n" ++
    "Options:\n" ++
    "  -m, --mode <MODE>      How grammar line endings are read: strict or lenient\n" ++
    "  -v, --verbose...       Increase logging verbosity (-v: debug, -vv+: trace)\n" ++
    "      --config <CONFIG>  Configuration file layered over the built-in defaults\n" ++
    "      --no-core          Do not layer the grammar over the RFC 5234 core rules\n" ++
    "  -q, --query <QUERY>    Print the nodes matching a JSON query instead of the whole tree, " ++
    "e.g. '\x7b\"name\": \"host\"\x7d'\n" ++
    "      --complete         Fail unless the rule matches the entire input\n" ++
    "  -f, --format <FORMAT>  Output format: treeviz, json or yaml\n" ++
    "      --show-failures    Include failed attempts in treeviz output\n" ++
    "  -h, --help             Print help\n"
  | some .rules =>
    "Print every compiled rule in grammar notation\n\n" ++
    "Usage: abnf rules [OPTIONS] <GRAMMAR>\n\n" ++
    "Arguments:\n" ++
    "  <GRAMMAR>  Grammar source file\n\n" ++
    "Options:\n" ++
    "  -m, --mode <MODE>      How grammar line endings are read: strict or lenient\n" ++
    "  -v, --verbose...       Increase logging verbosity (-v: debug, -vv+: trace)\n" ++
    "      --config <CONFIG>  Configuration file layered over the built-in defaults\n" ++
    "      --no-core          Do not layer the grammar over the RFC 5234 core rules\n" ++
    "  -h, --help             Print help\n"
  | some .help =>
    "Print this message or the help of the given subcommand(s)\n\n" ++
    "Usage: abnf help [COMMAND]...\n\n" ++
    "Arguments:\n" ++
    "  [COMMAND]...  Print help for the subcommand(s)\n"

/-- The report on arguments that name no command to run. -/
def stopReport : Stop → Report
  | .invalid => ⟨2, [], "error: invalid arguments\n".toList⟩
  | .help topic => ⟨0, (helpText topic).toList, []⟩
  | .version => ⟨0, versionText.toList, []⟩

/-- The report on the arguments of the program. -/
def answer (surroundings : Surroundings) (arguments : List Text) : Report :=
  match invocation arguments with
  | .error stop => stopReport stop
  | .ok invocation =>
    match run surroundings invocation with
    | .ok report => report
    | .error failure => ⟨2, [], s!"Error: {failure.message}\n".toList⟩

end AugmentedBnf.CommandLine
