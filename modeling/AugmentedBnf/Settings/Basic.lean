import AugmentedBnf.Grammar.Mode
import AugmentedBnf.Settings.Key
import AugmentedBnf.Toml.Reader

/-! # Settings of the command line

Settings are built in layers: the built-in values, then files in order, then single values that
override all of them. Entries that are not known are passed over.
-/
namespace AugmentedBnf

/-- The formats that the command line writes. -/
inductive OutputFormat where
  | outline
  | json
  | yaml
  deriving DecidableEq

/-- The name a format is registered under. -/
def OutputFormat.name : OutputFormat → String
  | outline => "treeviz"
  | json => "json"
  | yaml => "yaml"

/-- How grammars are compiled. -/
structure CompileSettings where
  mode : Mode
  /-- Whether grammars are layered over the core rules. -/
  core : Bool
  deriving DecidableEq

/-- How trees are written. -/
structure OutputSettings where
  format : OutputFormat
  showFailures : Bool
  labelWidth : Nat
  deriving DecidableEq

/-- All settings. -/
structure Settings where
  compile : CompileSettings
  output : OutputSettings
  deriving DecidableEq

/-- A file of settings: its text, or nothing if there is no file, and whether it may be missing. -/
structure SettingsFile where
  text : Option Text
  optional : Bool

namespace Settings

/-- The built-in values. -/
def builtIn : Setting :=
  .table [
    ("compile".toList, .table [
      ("mode".toList, .text "lenient".toList),
      ("core".toList, .switch true)]),
    ("output".toList, .table [
      ("format".toList, .text "treeviz".toList),
      ("show_failures".toList, .switch false),
      ("label_width".toList, .integer 30)])]

/-- The modes by name. -/
def modes : List (String × Mode) := [Mode.strict, Mode.lenient].map fun mode => (mode.name, mode)

/-- The formats by name. -/
def formats : List (String × OutputFormat) :=
  [OutputFormat.outline, .json, .yaml].map fun format => (format.name, format)

/-- The values of named fields that are there: entries of a table, or the items of a list in the
order of the fields. -/
def fields (names : List String) : Setting → Except SettingsError (List (Option Setting))
  | .table entries => .ok (names.map fun name => entries.lookup name.toList)
  | .list items => .ok ((List.range names.length).map fun index => items[index]?)
  | _ => .error .wrongShape

/-- The value of a field that may not be missing. -/
def required {α : Type} : Option α → Except SettingsError α
  | some value => .ok value
  | none => .error .wrongShape

/-- The settings of compilation. A field of the wrong form is reported before a missing one. -/
def compileSettings (setting : Setting) : Except SettingsError CompileSettings := do
  match ← fields ["mode", "core"] setting with
  | [mode, core] =>
    let mode ← mode.mapM (Setting.asChoice modes)
    let core ← core.mapM Setting.asSwitch
    return ⟨← required mode, ← required core⟩
  | _ => throw .wrongShape

/-- The settings of output. A field of the wrong form is reported before a missing one. -/
def outputSettings (setting : Setting) : Except SettingsError OutputSettings := do
  match ← fields ["format", "show_failures", "label_width"] setting with
  | [format, showFailures, labelWidth] =>
    let format ← format.mapM (Setting.asChoice formats)
    let showFailures ← showFailures.mapM Setting.asSwitch
    let labelWidth ← labelWidth.mapM Setting.asCount
    return ⟨← required format, ← required showFailures, ← required labelWidth⟩
  | _ => throw .wrongShape

/-- The settings of a table. -/
def ofSetting (setting : Setting) : Except SettingsError Settings := do
  match ← fields ["compile", "output"] setting with
  | [compile, output] =>
    let compile ← compile.mapM compileSettings
    let output ← output.mapM outputSettings
    return ⟨← required compile, ← required output⟩
  | _ => throw .wrongShape

/-- Adds the entries of a file. The name of an entry is a key where it has the form of one. -/
def addEntries (entries : List (Text × Setting)) (root : Setting) : Setting :=
  entries.foldl (fun root (name, value) =>
    root.assignKey ((Key.ofText? name).getD (.ofName name)) value) root

/-- Adds a file. -/
def addFile (root : Setting) (file : SettingsFile) : Except SettingsError Setting :=
  match file.text with
  | some text =>
    match Toml.read? text with
    | some entries => .ok (addEntries entries root)
    | none => .error .badFile
  | none => if file.optional then .ok root else .error .unreadableFile

/-- The settings of some files and single values. -/
def load (files : List SettingsFile) (overrides : List (Key × Setting)) :
    Except SettingsError Settings := do
  let layered ← files.foldlM addFile builtIn
  ofSetting (overrides.foldl (fun root (key, value) => root.assignKey key value) layered)

/-- A key from its text. -/
def key (text : Text) : Except SettingsError Key :=
  match Key.ofText? text with
  | some key => .ok key
  | none => .error .badKey

end Settings

end AugmentedBnf
