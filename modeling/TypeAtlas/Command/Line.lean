import TypeAtlas.Command.Arguments
import TypeAtlas.Command.Help

namespace TypeAtlas.Command

/-- How a command ends: with a status, or with a failure that it does not expect. -/
inductive Ending
  | status (code : Nat)
  | unforeseen (failure : Failure)
  deriving Inhabited

/-- What there is to see after a command: how it ends, what it prints on the two channels, and the
files. -/
structure Aftermath where
  ending : Ending
  output : Text
  errors : Text
  disk : Disk
  deriving Inhabited

/-- The lines of the notes that are shown. What appears in place of a line that cannot be written is
left out. -/
def shownNotes (isVerbose : Bool) (notes : List Note) : Text :=
  ((notes.filter (·.isShown isVerbose)).filterMap Note.text?).flatMap (· ++ ['\n'.toNat])

/-- The value that an option is given, if it is there. -/
def valueOf {α : Type} (need : Need) : Option (Given α) → Except Failure (Option α)
  | none => .ok none
  | some (.value a) => .ok (some a)
  | some .nothing => .error (.noValue need)

/-- The settings that a command line changes. -/
def Arguments.overrides (a : Arguments) : Except Failure Overrides := do
  return {
    maxConcurrency := ← valueOf .limit a.maxConcurrency
    cancelOnFailure := if a.isNoCancel then some false else none }

/-- Looks for the configuration, and runs the analysis. -/
def execute (path : Path) (a : Arguments) : Program Text := do
  let project := if a.mode = .value .project then some path else none
  let named ← valueOf .configPath a.config
  let loaded ← Program.look fun d => loadConfig d project named
  let config ← (loaded.replace (← a.overrides)).mapError Failure.badSettings
  run
    { path, mode := a.mode.map fun m => m.name, format := a.format.map fun f => f.name
      output := a.output, config := some config }

/-- What a command prints at its end: the report unless it is written to a file. -/
def printed (a : Arguments) (text : Text) : Text :=
  if a.output.isNone then text ++ "\n" else []

/-- The notes on a failure that is reported. -/
def failureNotes (failure : Failure) (d : Diagnostic) : List Note :=
  .failed d :: (failure.cause?.map Note.causedBy).toList

/-- Carries out an analysis. A failure that has a diagnostic is reported and ends with status
one. -/
def perform (d : Disk) (path : Path) (a : Arguments) : Aftermath :=
  let (result, w) := (execute path a).run.run { disk := d, notes := [] }
  let shown := shownNotes a.isVerbose
  match result with
  | .ok text =>
    { ending := .status 0, output := printed a text, errors := shown w.notes, disk := w.disk }
  | .error failure =>
    match failure.diagnostic? with
    | some report =>
      { ending := .status 1, output := []
        errors := shown (w.notes ++ failureNotes failure report), disk := w.disk }
    | none =>
      { ending := .unforeseen failure, output := [], errors := shown w.notes, disk := w.disk }

/-- Carries out a command line. -/
def carryOut (d : Disk) (arguments : List Text) : Aftermath :=
  match Arguments.ofList arguments with
  | .ok (.run path a) => perform d path a
  | .ok .help =>
    { ending := .status 0, output := helpPage, errors := [], disk := d }
  | .error fault =>
    { ending := .status 2, output := []
      errors := usage ++ "javadeps: error: " ++ fault.message ++ "\n", disk := d }

end TypeAtlas.Command
