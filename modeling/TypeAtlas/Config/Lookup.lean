import TypeAtlas.Analysis.Basic
import TypeAtlas.Toml.Reader

namespace TypeAtlas

/-- The file in a project that holds nothing but the configuration. -/
def ownConfigFile : Text := ".javadeps.toml"

/-- The file in a project that holds the configurations of many tools. -/
def sharedConfigFile : Text := "pyproject.toml"

/-- The entries of a configuration file. -/
def readToml (d : Disk) (path : Path) : Except Failure Toml.Entries := do
  let bytes ← (d.contents path).mapError (Failure.cannotReadConfig path)
  let text ← (Text.decode bytes).mapError (Failure.notUnicode path)
  (Toml.parse text.toString).mapError (Failure.notToml path)

/-- The value of `key` as a table. -/
def tableOf (path : Path) (key : Text) : Data → Except Failure Toml.Entries
  | .table entries => .ok entries
  | value => .error (.notATable path key value)

/-- The entries of the table `tool`, which are none if it is missing. -/
def toolEntries (path : Path) (document : Toml.Entries) : Except Failure Toml.Entries :=
  match Data.lookup document "tool" with
  | none => .ok []
  | some value => tableOf path "tool" value

/-- The configuration in a value that should be a table. -/
def configOf (path : Path) (value : Data) : Except Failure Config := do
  (Config.ofTable (← tableOf path "javadeps" value)).mapError (Failure.badTable path)

/-- The configuration that a table from `source` describes, or a report on that source, if one can be
made. -/
def Config.ofSource (source : Text) (entries : Toml.Entries) : Except (Option Diagnostic) Config :=
  (Config.ofTable entries).mapError fun fault => fault.message?.map (Failure.ofSettings source)

/-- The configuration in a file that is named for it: the table `javadeps`, or the one in `tool`, or
else all of the file. -/
def loadNamedConfig (d : Disk) (path : Path) : Analysis Config := do
  let document ← readToml d path
  let tool ← toolEntries path document
  let value := (Data.lookup document "javadeps").getD
    ((Data.lookup tool "javadeps").getD (.table document))
  .note (.usingFile path)
  configOf path value

/-- The configuration of a project: that in its own file, or in the file it shares with others, or
the default one. -/
def loadProjectConfig (d : Disk) (project : Path) : Analysis Config := do
  let own := project.child ownConfigFile
  if ← (d.isPresent own).mapError (Failure.cannotFindConfig own) then
    let document ← readToml d own
    .note (.usingFile own)
    configOf own ((Data.lookup document "javadeps").getD (.table []))
  else
    let shared := project.child sharedConfigFile
    if ← (d.isPresent shared).mapError (Failure.cannotFindConfig shared) then
      let document ← readToml d shared
      let tool ← toolEntries shared document
      match Data.lookup tool "javadeps" with
      | some value =>
        .note (.usingToolTable shared)
        configOf shared value
      | none => return default
    else return default

/-- The configuration for a run. A file that is named wins over those of the project. -/
def loadConfig (d : Disk) (project named : Option Path) : Analysis Config :=
  match named, project with
  | some path, _ => loadNamedConfig d path
  | none, some project => loadProjectConfig d project
  | none, none => return default

end TypeAtlas
