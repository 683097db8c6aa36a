import TypeAtlas.Config.Lookup
import TypeAtlas.Report.Outline

namespace TypeAtlas

def Report.render (r : Report) : Format → Text
  | .text => r.plainText
  | .json => r.jsonText

/-- What a run is asked to do. Without a configuration it looks for one. -/
structure Request where
  path : Path
  mode : Given Text := .value "project"
  format : Given Text := .value "text"
  output : Option (Given Path) := none
  config : Option Config := none
  configPath : Option Path := none
  deriving Inhabited

/-- The files, and the notes taken so far. -/
structure World where
  disk : Disk
  notes : List Note
  deriving Inhabited

/-- A step that may fail, takes notes and changes files. -/
abbrev Program := ExceptT Failure (StateM World)

namespace Program

/-- Analyses the files as they are. -/
def look {α : Type} (a : Disk → Analysis α) : Program α := do
  let w ← get
  let (result, notes) := (a w.disk).outcome
  set { w with notes := w.notes ++ notes }
  match result with
  | .ok v => return v
  | .error e => throw e

def note (n : Note) : Program Unit :=
  modify fun w => { w with notes := w.notes ++ [n] }

/-- Writes a text and a line end to a file, after making the folder for it. The file stays empty if
the text cannot be encoded. -/
def write (path : Path) (text : Text) : Program Unit := do
  let w ← get
  let encoded := Text.encode (text ++ "\n")
  let (result, disk) := w.disk.deliver path (encoded.toOption.getD [])
  set { w with disk }
  match result, encoded with
  | .error e, _ => throw (.cannotWrite e)
  | .ok (), .error fault => throw (.notEncodable fault)
  | .ok (), .ok _ => return ()

end Program

/-- Analyses what is at a path. -/
def analyze (d : Disk) (c : Settings) (path : Path) (mode : Given Text) : Analysis Report := do
  match mode.value?.bind Mode.ofName? with
  | some .project => return .ofProject (← analyzeProject d c path)
  | some .package => return .ofPackage (← analyzePackage d c path)
  | some .sourceFile => return .ofClass (← analyzeClass d c path)
  | none => throw (.unknownMode mode)

/-- The project whose configuration counts: only a path in project mode names one. -/
def configProject (r : Request) : Option Path :=
  if r.mode = .value Mode.project.name then some r.path else none

/-- Makes a report and writes it to the output file, if there is one. -/
def run (r : Request) : Program Text := do
  match r.format.value?.bind Format.ofName? with
  | none => throw (.unknownFormat r.format)
  | some format =>
    let config ← match r.config with
      | some config => pure config
      | none => Program.look fun d => loadConfig d (configProject r) r.configPath
    Program.note (.analyzing r.mode r.path config.toSettings)
    let report ← Program.look fun d => analyze d config.toSettings r.path r.mode
    let text := report.render format
    match r.output with
    | none => return text
    | some .nothing => throw (.noValue .outputPath)
    | some (.value output) =>
      Program.write output text
      Program.note (.wrote output)
      return text

end TypeAtlas
