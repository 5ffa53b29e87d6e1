import AugmentedBnf.Text.Casing
import AugmentedBnf.Text.Numeral

/-! # Values of settings

A setting is a value from a file or the command line. Switches and counts are also accepted in
other forms than their own.
-/
namespace AugmentedBnf

/-- A value of a setting. -/
inductive Setting where
  | nothing
  | switch (value : Bool)
  | integer (value : Int)
  | float (value : Float)
  | text (value : Text)
  | list (items : List Setting)
  | table (entries : List (Text × Setting))
  deriving Inhabited

/-- Why settings are refused. -/
inductive SettingsError where
  /-- A key is not of the form of a path. -/
  | badKey
  /-- A file cannot be read. -/
  | unreadableFile
  /-- A file is not in the notation of settings. -/
  | badFile
  /-- A switch or a count has a value of another form. -/
  | wrongType
  /-- A group of settings or a choice has no value of its form. -/
  | wrongShape
  deriving DecidableEq

/-- The wording of refused settings. -/
def SettingsError.message : SettingsError → String
  | badKey => "invalid configuration key"
  | unreadableFile => "configuration file not found"
  | badFile => "invalid configuration file"
  | wrongType => "invalid type of configuration value"
  | wrongShape => "invalid configuration value"

namespace Setting

/-- The words for a switch that is on, and for one that is off. -/
def switchWord? (t : Text) : Option Bool :=
  if ["true", "on", "yes"].contains (String.ofList t) then some true
  else if ["false", "off", "no"].contains (String.ofList t) then some false
  else none

/-- A setting as a switch: numbers are on unless they are zero, words count in any case. -/
def asSwitch : Setting → Except SettingsError Bool
  | switch value => .ok value
  | integer value => .ok (value != 0)
  | float value => .ok (value != 0)
  | text value =>
    let word := Text.lower value
    if word = ['1'] then .ok true
    else if word = ['0'] then .ok false
    else match switchWord? word with
      | some on => .ok on
      | none => .error .wrongType
  | _ => .error .wrongType

/-- A setting as a 64-bit count: switches are one or zero, fractions are rounded, words are switches
or digits. -/
def asCount : Setting → Except SettingsError Nat
  | switch value => .ok value.toNat
  | integer value => if 0 ≤ value ∧ value.toNat < Text.limit64 then .ok value.toNat else .error .wrongType
  | float value => .ok value.round.toUInt64.toNat
  | text value =>
    match switchWord? (Text.lower value) with
    | some on => .ok on.toNat
    | none =>
      match Text.unsigned? 10 Text.limit64 value with
      | some n => .ok n
      | none => .error .wrongType
  | _ => .error .wrongType

/-- A setting as one of some named choices: its name in any case, or a table with its name as the
only key. -/
def asChoice {α : Type} (choices : List (String × α)) : Setting → Except SettingsError α
  | text value => ofName value
  | table [(key, _)] => ofName key
  | _ => .error .wrongShape
where
  /-- The choice with a name. -/
  ofName (name : Text) : Except SettingsError α :=
    match choices.find? fun (choice, _) => Text.sameAscii choice.toList name with
    | some (_, value) => .ok value
    | none => .error .wrongShape

end Setting

end AugmentedBnf
