import TypeAtlas.Text.Quoted

namespace TypeAtlas.Command

/-- An option of the command line. -/
inductive Switch
  | help
  | mode
  | format
  | output
  | config
  | maxConcurrency
  | noCancel
  | verbose
  deriving DecidableEq, Repr, Inhabited

namespace Switch

def all : List Switch :=
  [.help, .mode, .format, .output, .config, .maxConcurrency, .noCancel, .verbose]

/-- The spellings of an option, a short one first. -/
def spellings : Switch → List String
  | .help => ["-h", "--help"]
  | .mode => ["-m", "--mode"]
  | .format => ["-f", "--format"]
  | .output => ["-o", "--output"]
  | .config => ["--config"]
  | .maxConcurrency => ["--max-concurrency"]
  | .noCancel => ["--no-cancel"]
  | .verbose => ["-v", "--verbose"]

/-- All spellings with the options that they name. -/
def table : List (String × Switch) :=
  all.flatMap fun s => s.spellings.map fun spelling => (spelling, s)

def ofSpelling? (spelling : Text) : Option Switch :=
  (table.find? fun entry => entry.1 = spelling).map (·.2)

def takesValue : Switch → Bool
  | .help | .noCancel | .verbose => false
  | .mode | .format | .output | .config | .maxConcurrency => true

/-- An option in a report. -/
def shown (s : Switch) : String :=
  "/".intercalate s.spellings

end Switch

/-- Why a command line makes no sense. -/
inductive UsageFault
  | ambiguous (argument : Text) (candidates : List Text)
  | valueMissing (s : Switch)
  | valueIgnored (s : Switch) (value : Text)
  | notAnInteger (s : Switch) (value : Text)
  | noSuchChoice (s : Switch) (value : Text) (choices : List Text)
  | pathMissing
  | unrecognized (arguments : List Text)
  deriving DecidableEq, Repr, Inhabited

namespace UsageFault

def about (s : Switch) (message : Text) : Text :=
  "argument " ++ s.shown ++ ": " ++ message

def message : UsageFault → Text
  | .ambiguous argument candidates =>
    "ambiguous option: " ++ argument ++ " could match " ++ Text.join ", " candidates
  | .valueMissing s => about s "expected one argument"
  | .valueIgnored s value => about s ("ignored explicit argument " ++ Text.quoted value)
  | .notAnInteger s value => about s ("invalid int value: " ++ Text.quoted value)
  | .noSuchChoice s value choices =>
    about s ("invalid choice: " ++ Text.quoted value ++ " (choose from " ++
      Text.join ", " (choices.map Text.quoted) ++ ")")
  | .pathMissing => "the following arguments are required: path"
  | .unrecognized arguments => "unrecognized arguments: " ++ Text.join " " arguments

end UsageFault

end TypeAtlas.Command
