import TypeAtlas.Config.Settings
import TypeAtlas.Data.Value

namespace TypeAtlas

/-- The name of one of the settings. -/
inductive Setting
  | sourceRootName
  | entryPointName
  | defaultPackage
  | sourceExtension
  | implicitPrefix
  | maxConcurrency
  | cancelOnFailure
  deriving DecidableEq, Repr, Inhabited

namespace Setting

def all : List Setting :=
  [.sourceRootName, .entryPointName, .defaultPackage, .sourceExtension, .implicitPrefix,
    .maxConcurrency, .cancelOnFailure]

def key : Setting → String
  | .sourceRootName => "source_root_name"
  | .entryPointName => "entry_point_name"
  | .defaultPackage => "default_package"
  | .sourceExtension => "source_extension"
  | .implicitPrefix => "implicit_prefix"
  | .maxConcurrency => "max_concurrency"
  | .cancelOnFailure => "cancel_on_failure"

/-- The setting that a key names. A hyphen may stand for an underscore. -/
def ofKey? (key : Text) : Option Setting :=
  let name := key.map fun c => if c = '-'.toNat then '_'.toNat else c
  all.find? fun s => s.key = name

end Setting

/-- The value of a setting, in the form in which a table gives it. -/
def Settings.value (s : Settings) : Setting → Data
  | .sourceRootName => .text s.sourceRootName
  | .entryPointName => .text s.entryPointName
  | .defaultPackage => .text s.defaultPackage
  | .sourceExtension => .text s.sourceExtension
  | .implicitPrefix => .text s.implicitPrefix
  | .maxConcurrency => s.maxConcurrency.elim .null .integer
  | .cancelOnFailure => .bool s.cancelOnFailure

/-- All settings on one line, unless the ceiling has too many digits. -/
def Settings.text? (s : Settings) : Option Text := do
  let shown ← Setting.all.mapM fun setting => do
    return setting.key ++ "=" ++ (← (s.value setting).quoted?)
  return callText "AnalyzerConfig" shown

/-- Overrides a setting with a value of its type. -/
def Overrides.set? (o : Overrides) : Setting → Data → Option Overrides
  | .sourceRootName, .text v => some { o with sourceRootName := some v }
  | .entryPointName, .text v => some { o with entryPointName := some v }
  | .defaultPackage, .text v => some { o with defaultPackage := some v }
  | .sourceExtension, .text v => some { o with sourceExtension := some v }
  | .implicitPrefix, .text v => some { o with implicitPrefix := some v }
  | .maxConcurrency, .integer v => some { o with maxConcurrency := some v }
  | .cancelOnFailure, .bool v => some { o with cancelOnFailure := some v }
  | _, _ => none

/-- What is reported of settings, unless that has too many digits. -/
def SettingsFault.message? : SettingsFault → Option Text
  | .notPositive n => do return "max_concurrency must be positive, got " ++ (← Text.ofInt? n)
  | .noPoint extension =>
    some ("source_extension must start with '.', got " ++ Text.quoted extension)

/-- Why a table makes no configuration. -/
inductive TableFault
  | unknownKey (key : Text)
  | badValue (key : Text) (value : Data)
  | invalid (fault : SettingsFault)
  deriving Repr, Inhabited

/-- What is reported of a table, unless the value to report cannot be shown. -/
def TableFault.message? : TableFault → Option Text
  | .unknownKey key => some ("Unknown configuration key " ++ Text.quoted key)
  | .badValue key value => do
    return "Configuration key " ++ Text.quoted key ++ " has invalid value " ++ (← value.quoted?)
  | .invalid fault => fault.message?

/-- What the entries of a table override, entry by entry: of two entries for one setting the later
counts. -/
def Overrides.ofEntries (o : Overrides) : List (Text × Data) → Except TableFault Overrides
  | [] => .ok o
  | (key, value) :: rest =>
    match Setting.ofKey? key with
    | none => .error (.unknownKey key)
    | some setting =>
      match o.set? setting value with
      | none => .error (.badValue key value)
      | some o => o.ofEntries rest

/-- The configuration that a table describes. -/
def Config.ofTable (entries : List (Text × Data)) : Except TableFault Config := do
  let o ← Overrides.ofEntries {} entries
  (Config.ofOverrides o).mapError .invalid

end TypeAtlas
