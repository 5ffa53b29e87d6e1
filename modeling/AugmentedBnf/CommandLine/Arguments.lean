import AugmentedBnf.Grammar.Mode

/-! # Arguments of the command line

Options stand before or after the command they belong to. A value follows its option as the next
argument, after an equals sign, or right after a short name. Two dashes end the options.
-/
namespace AugmentedBnf.CommandLine

/-- The options. -/
inductive Opt where
  | verbose
  | config
  | mode
  | noCore
  | query
  | complete
  | format
  | showFailures
  | help
  | version
  deriving DecidableEq

namespace Opt

/-- The long name, which two dashes precede. -/
def longName : Opt → String
  | verbose => "verbose"
  | config => "config"
  | mode => "mode"
  | noCore => "no-core"
  | query => "query"
  | complete => "complete"
  | format => "format"
  | showFailures => "show-failures"
  | help => "help"
  | version => "version"

/-- The short name, which one dash precedes. -/
def shortName? : Opt → Option Char
  | verbose => some 'v'
  | mode => some 'm'
  | query => some 'q'
  | format => some 'f'
  | help => some 'h'
  | version => some 'V'
  | config | noCore | complete | showFailures => none

/-- Whether the option has a value. -/
def takesValue : Opt → Bool
  | config | mode | query | format => true
  | _ => false

/-- Whether a value has the form that its option asks for. -/
def accepts : Opt → Text → Bool
  | config, value => !value.isEmpty
  | mode, value => (Mode.read value).isOk
  | _, _ => true

end Opt

/-- The commands. -/
inductive CommandName where
  | check
  | rules
  | help
  deriving DecidableEq

namespace CommandName

/-- Every command. -/
def all : List CommandName := [check, rules, help]

/-- The word for a command. -/
def name : CommandName → String
  | check => "check"
  | rules => "rules"
  | help => "help"

/-- The options that may follow a command, or precede any. -/
def options : Option CommandName → List Opt
  | none => [.verbose, .config, .help, .version]
  | some check =>
    [.mode, .noCore, .query, .complete, .format, .showFailures, .verbose, .config, .help]
  | some rules => [.mode, .noCore, .verbose, .config, .help]
  | some help => []

/-- How many arguments that are not options may follow a command. -/
def room : CommandName → Nat
  | check => 3
  | rules => 1
  | help => 1

end CommandName

/-- Why reading the arguments ends before the last of them. -/
inductive Stop where
  /-- The arguments have no meaning. -/
  | invalid
  /-- The help on a command, or on all of them, was asked for. -/
  | help (topic : Option CommandName)
  /-- The version was asked for. -/
  | version
  deriving DecidableEq

/-- What the arguments so far have said. Options are kept with the command they follow. -/
structure Progress where
  command : Option CommandName
  given : List (Option CommandName × Opt × Text)
  words : List Text
  /-- The option whose value is the next argument. -/
  pending : Option Opt
  /-- Whether two dashes have ended the options. -/
  plain : Bool

namespace Progress

/-- Before the first argument. -/
def start : Progress := ⟨none, [], [], none, false⟩

/-- Adds an option with its value. Only the option for more messages may be repeated. -/
def give (opt : Opt) (value : Text) (progress : Progress) : Except Stop Progress :=
  let isRepeated := progress.given.any fun (command, other, _) =>
    command == progress.command && other == opt
  if opt = .help then .error (.help progress.command)
  else if opt = .version then .error .version
  else if !opt.accepts value || (isRepeated && opt != .verbose) then .error .invalid
  else
    .ok { progress with given := (progress.command, opt, value) :: progress.given, pending := none }

/-- The option that may be given now and satisfies a condition. -/
def find (isWanted : Opt → Bool) (progress : Progress) : Except Stop Opt :=
  match (CommandName.options progress.command).find? isWanted with
  | some opt => .ok opt
  | none => .error .invalid

/-- Reads an option by its long name, with the value after an equals sign. -/
def readLong (argument : Text) (progress : Progress) : Except Stop Progress := do
  let (name, value?) := match Text.splitOnce? '=' argument with
    | some (name, value) => (name, some value)
    | none => (argument, none)
  let opt ← progress.find fun opt => opt.longName.toList == name
  match value?, opt.takesValue with
  | some value, true => progress.give opt value
  | none, true => return { progress with pending := some opt }
  | none, false => progress.give opt []
  | some _, false => throw .invalid

/-- Reads options by their short names. What follows an option with a value is its value. -/
def readShort : Text → Progress → Except Stop Progress
  | [], progress => .ok progress
  | c :: rest, progress => do
    let opt ← progress.find fun opt => opt.shortName? == some c
    if opt.takesValue then
      match rest with
      | [] => return { progress with pending := some opt }
      | '=' :: value => progress.give opt value
      | value => progress.give opt value
    else readShort rest (← progress.give opt [])

/-- Reads an argument that is not an option: a command, or a word for it. The first word for a
command is a path or a topic, which is never empty. -/
def readWord (argument : Text) (progress : Progress) : Except Stop Progress :=
  match progress.command with
  | some command =>
    if progress.words.isEmpty && argument.isEmpty then .error .invalid
    else if progress.words.length < command.room then
      .ok { progress with words := progress.words ++ [argument] }
    else .error .invalid
  | none =>
    match CommandName.all.find? fun command => command.name.toList == argument with
    | some command =>
      if progress.plain then .error .invalid else .ok { progress with command := some command }
    | none => .error .invalid

/-- Reads an argument whose form does not matter: a value that is waited for, or a word. -/
def readPlain (argument : Text) (progress : Progress) : Except Stop Progress :=
  match progress.pending with
  | some opt => progress.give opt argument
  | none => progress.readWord argument

/-- Reads one argument. After the command for help all arguments are words. -/
def read (progress : Progress) (argument : Text) : Except Stop Progress :=
  if progress.plain || progress.command == some .help then progress.readPlain argument
  else match argument with
    | ['-', '-'] =>
      if progress.pending.isSome then .error .invalid else .ok { progress with plain := true }
    | '-' :: '-' :: name =>
      if progress.pending.isSome then .error .invalid else progress.readLong name
    | '-' :: c :: rest =>
      if progress.pending.isSome then .error .invalid else progress.readShort (c :: rest)
    | _ => progress.readPlain argument

/-- The value of an option after the command. -/
def value? (progress : Progress) (opt : Opt) : Option Text :=
  let isWanted := fun (command, other, _) => command == progress.command && other == opt
  (progress.given.find? isWanted).map (·.2.2)

/-- The value of an option anywhere; the one after the command counts first. -/
def anyValue? (progress : Progress) (opt : Opt) : Option Text :=
  progress.value? opt <|> (progress.given.find? fun (_, other, _) => other == opt).map (·.2.2)

/-- Whether an option was given after the command. -/
def has (progress : Progress) (opt : Opt) : Bool := (progress.value? opt).isSome

end Progress

/-- What both commands need to know of the grammar. -/
structure GrammarArguments where
  path : Text
  mode : Option Mode
  noCore : Bool
  deriving DecidableEq

/-- What `check` is told beside the grammar. -/
structure CheckArguments where
  rule : Text
  input : Text
  query : Option Text
  complete : Bool
  format : Option Text
  showFailures : Bool
  deriving DecidableEq

/-- What is to be done: list the rules of a grammar, or evaluate one of them. -/
inductive Command where
  | check (grammar : GrammarArguments) (arguments : CheckArguments)
  | rules (grammar : GrammarArguments)
  deriving DecidableEq

/-- A command and the file of settings it is run with. -/
structure Invocation where
  config : Option Text
  command : Command
  deriving DecidableEq

/-- The grammar that the arguments name. -/
def grammarArguments (progress : Progress) (path : Text) : GrammarArguments :=
  let mode := (progress.value? .mode).bind fun name => (Mode.read name).toOption
  ⟨path, mode, progress.has .noCore⟩

/-- The command that the arguments name, once all are read. -/
def command (progress : Progress) : Except Stop Command :=
  match progress.command, progress.words with
  | some .check, [path, rule, input] =>
    .ok (.check (grammarArguments progress path) ⟨rule, input, progress.value? .query,
      progress.has .complete, progress.value? .format, progress.has .showFailures⟩)
  | some .rules, [path] => .ok (.rules (grammarArguments progress path))
  | some .help, [] => throw (.help none)
  | some .help, [topic] =>
    match CommandName.all.find? fun command => command.name.toList == topic with
    | some command => throw (.help (some command))
    | none => throw .invalid
  | _, _ => throw .invalid

/-- The invocation that the arguments spell. -/
def invocation (arguments : List Text) : Except Stop Invocation := do
  let progress ← arguments.foldlM Progress.read .start
  if progress.pending.isSome then throw .invalid
  return ⟨progress.anyValue? .config, ← command progress⟩

end AugmentedBnf.CommandLine
