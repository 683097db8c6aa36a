import TypeAtlas.Text.Basic

namespace TypeAtlas

/-- What can be set: the names of folders, the conventions for names, and how work is shared out. -/
structure Settings where
  /-- The folder of a project that holds all sources. -/
  sourceRootName : Text := "src"
  /-- The folder below it where the analysis starts. -/
  entryPointName : Text := "java"
  /-- The package of a file that declares none. -/
  defaultPackage : Text := "java"
  sourceExtension : Text := ".java"
  /-- Names that start with this are not reported, unless it is empty. -/
  implicitPrefix : Text := "java.lang."
  /-- The most reads, listings and parses at one time. -/
  maxConcurrency : Option Int := none
  cancelOnFailure : Bool := true
  deriving DecidableEq, Repr, Inhabited

namespace Settings

/-- A ceiling is positive, and an extension starts with a point. -/
def IsValid (s : Settings) : Prop :=
  (∀ n ∈ s.maxConcurrency, 1 ≤ n) ∧ ['.'.toNat].isPrefixOf s.sourceExtension = true

instance (s : Settings) : Decidable s.IsValid :=
  inferInstanceAs (Decidable (_ ∧ _))

end Settings

/-- New values for some of the settings. -/
structure Overrides where
  sourceRootName : Option Text := none
  entryPointName : Option Text := none
  defaultPackage : Option Text := none
  sourceExtension : Option Text := none
  implicitPrefix : Option Text := none
  maxConcurrency : Option Int := none
  cancelOnFailure : Option Bool := none
  deriving DecidableEq, Repr, Inhabited

namespace Overrides

/-- The overrides `later` win. -/
def merge (earlier later : Overrides) : Overrides where
  sourceRootName := later.sourceRootName <|> earlier.sourceRootName
  entryPointName := later.entryPointName <|> earlier.entryPointName
  defaultPackage := later.defaultPackage <|> earlier.defaultPackage
  sourceExtension := later.sourceExtension <|> earlier.sourceExtension
  implicitPrefix := later.implicitPrefix <|> earlier.implicitPrefix
  maxConcurrency := later.maxConcurrency <|> earlier.maxConcurrency
  cancelOnFailure := later.cancelOnFailure <|> earlier.cancelOnFailure

end Overrides

def Settings.override (s : Settings) (o : Overrides) : Settings where
  sourceRootName := o.sourceRootName.getD s.sourceRootName
  entryPointName := o.entryPointName.getD s.entryPointName
  defaultPackage := o.defaultPackage.getD s.defaultPackage
  sourceExtension := o.sourceExtension.getD s.sourceExtension
  implicitPrefix := o.implicitPrefix.getD s.implicitPrefix
  maxConcurrency := o.maxConcurrency <|> s.maxConcurrency
  cancelOnFailure := o.cancelOnFailure.getD s.cancelOnFailure

/-- Why settings are not valid. -/
inductive SettingsFault
  | notPositive (n : Int)
  | noPoint (extension : Text)
  deriving DecidableEq, Repr, Inhabited

/-- Valid settings. -/
structure Config extends Settings where
  isValid : toSettings.IsValid := by decide
  deriving DecidableEq, Repr

namespace Config

instance : Inhabited Config := ⟨{}⟩

/-- The configuration with the given settings. A ceiling is looked at before the extension. -/
def ofSettings (s : Settings) : Except SettingsFault Config :=
  if h : s.IsValid then .ok { s with isValid := h }
  else match s.maxConcurrency with
    | some n => if n < 1 then .error (.notPositive n) else .error (.noPoint s.sourceExtension)
    | none => .error (.noPoint s.sourceExtension)

/-- The defaults with some new values. -/
def ofOverrides (o : Overrides) : Except SettingsFault Config :=
  ofSettings (Settings.override {} o)

/-- The configuration with some new values. -/
def replace (c : Config) (o : Overrides) : Except SettingsFault Config :=
  ofSettings (c.toSettings.override o)

end Config

end TypeAtlas
