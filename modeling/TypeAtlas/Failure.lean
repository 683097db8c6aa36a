import TypeAtlas.Command.Choice
import TypeAtlas.Config.Table
import TypeAtlas.Diagnostic
import TypeAtlas.Files.Change
import TypeAtlas.Java.Source
import TypeAtlas.Text.Utf8
import TypeAtlas.Toml.Fault

namespace TypeAtlas

/-- Why a run does not end with a report. -/
inductive Failure
  | cannotRead (path : Path) (fault : FileFault)
  | cannotList (path : Path) (fault : FileFault)
  | cannotWalk (path : Path) (fault : FileFault)
  | folderNotFound (parent : Path) (name : Text)
  | badSource (path : Path) (fault : Java.SourceFault)
  | cannotReadConfig (path : Path) (fault : FileFault)
  /-- Whether there is a configuration file cannot be told. -/
  | cannotFindConfig (path : Path) (fault : FileFault)
  | notUnicode (path : Path) (fault : Text.Utf8Fault)
  | notToml (path : Path) (fault : Toml.Fault)
  /-- There is a value where a configuration has its table `key`. -/
  | notATable (path : Path) (key : Text) (value : Data)
  | badTable (path : Path) (fault : TableFault)
  /-- Settings that come from no file are not valid. -/
  | badSettings (fault : SettingsFault)
  | unknownMode (name : Given Text)
  | unknownFormat (name : Given Text)
  | noValue (need : Need)
  | cannotWrite (fault : ChangeFault)
  | notEncodable (fault : Text.EncodingFault)
  deriving Inhabited

/-- What lies behind a diagnostic. -/
inductive Cause
  | system (fault : FileFault)
  | grammar
  | token (report : Text)
  | endOfTokens
  | toml (fault : Toml.Fault)
  /-- What was said of settings before it was known where they come from. -/
  | settings (message : Text)
  deriving Inhabited

/-- The path that stands for settings from no file. -/
def noConfigFile : Text := "<config>"

namespace FileFault

/-- The name of a fault in a report on a cause. -/
def name : FileFault → String
  | .notFound => "FileNotFoundError"
  | .alreadyExists => "FileExistsError"
  | .notAFolder => "NotADirectoryError"
  | .isAFolder => "IsADirectoryError"
  | .nullCharacter => "ValueError"
  | .notEncodable _ => "UnicodeEncodeError"
  | .nameTooLong | .tooManyLinks | .invalidArgument => "OSError"

/-- A fault with its number and what it is about. -/
def textAbout (fault : FileFault) (subject : Text) : Text :=
  match fault.number? with
  | some n => "[Errno " ++ toString n ++ "] " ++ fault.message ++ ": " ++ subject
  | none => fault.message

/-- A fault with the path that it is about. -/
def textAt (fault : FileFault) (path : Path) : Text :=
  fault.textAbout (Text.quoted path.text)

end FileFault

/-- A change that cannot be made, with the path, and the target of a link before it. -/
def ChangeFault.text (e : ChangeFault) : Text :=
  match e.target with
  | some target => e.fault.textAbout (Text.quoted target ++ " -> " ++ Text.quoted e.path.text)
  | none => e.fault.textAt e.path

namespace Cause

def text : Cause → Text
  | .system fault =>
    let number := match fault.number? with
      | some n => toString n ++ ", "
      | none => ""
    fault.name ++ "(" ++ number ++ Text.quoted fault.message ++ ")"
  | .grammar => "JavaSyntaxError('')"
  | .token report => "LexerError(" ++ Text.quoted report ++ ")"
  | .endOfTokens => "StopIteration()"
  | .toml fault => "TOMLDecodeError(" ++ Text.quoted fault.message ++ ")"
  | .settings message =>
    "ConfigError(" ++ Text.quoted noConfigFile ++ ", " ++ Text.quoted message ++ ")"

end Cause

namespace Failure

/-- The diagnostic of a fault of a file, where the system reports it. -/
def ofFileFault (kind : FailureKind) (path : Path) (what : Text) (fault : FileFault) :
    Option Diagnostic :=
  match fault with
  | .nullCharacter | .notEncodable _ => none
  | _ =>
    some
      { kind, givenPath := path.text, message := what ++ " (" ++ fault.message ++ ")" }

def ofSettings (path : Text) (message : Text) : Diagnostic :=
  { kind := .config, givenPath := path, message := message }

/-- The diagnostic of a failure. There are failures that nobody has foreseen and that have none. -/
def diagnostic? : Failure → Option Diagnostic
  | .cannotRead path fault => ofFileFault .sourceRead path "Cannot read file" fault
  | .cannotList path fault => ofFileFault .sourceRead path "Cannot list directory" fault
  | .cannotWalk path fault => ofFileFault .sourceRead path "Cannot walk directory" fault
  | .folderNotFound parent name =>
    some
      { kind := .folderNotFound, givenPath := parent.text
        message := "'" ++ name ++ "' folder not found" }
  | .badSource path fault =>
    fault.rejection?.map fun r =>
      { kind := .sourceSyntax, givenPath := path.text, message := r.message
        line := r.position.map fun p => (p.line : Int)
        column := r.position.map fun p => (p.column : Int) }
  | .cannotReadConfig path fault => ofFileFault .config path "Could not read configuration" fault
  | .notToml path fault =>
    if fault.problem.isOfSyntax then
      some (ofSettings path.text ("Invalid TOML (" ++ fault.message ++ ")"))
    else none
  | .badTable path fault => fault.message?.map (ofSettings path.text)
  | .badSettings fault => fault.message?.map (ofSettings noConfigFile)
  | .cannotFindConfig .. | .notUnicode .. | .notATable .. | .unknownMode _ | .unknownFormat _
  | .noValue _ | .cannotWrite _ | .notEncodable _ => none

/-- What lies behind a failure, if anything does. -/
def cause? : Failure → Option Cause
  | .cannotRead _ fault | .cannotList _ fault | .cannotWalk _ fault | .cannotReadConfig _ fault =>
    some (.system fault)
  | .badSource _ (.lexical (.malformed problem shown line excerpt)) =>
    some (.token (Java.LexFault.report problem shown line excerpt))
  | .badSource _ (.grammatical (.unexpected ..)) => some .grammar
  | .badSource _ (.grammatical .endOfTokens) => some .endOfTokens
  | .notToml _ fault => some (.toml fault)
  | .badTable _ (.invalid fault) => fault.message?.map .settings
  | _ => none

/-- The list of what could have been asked for. -/
def unknownText (what : Text) (name : Given Text) (known : List String) : Text :=
  "Unknown " ++ what ++ " " ++ name.shown Text.quoted ++ "; expected one of " ++
    ", ".intercalate known

/-- What can be said of a failure without a diagnostic, where the reason is a plain one. -/
def plainText? : Failure → Option Text
  | .cannotRead path fault | .cannotList path fault | .cannotWalk path fault
  | .cannotReadConfig path fault | .cannotFindConfig path fault => some (fault.textAt path)
  | .cannotWrite e => some e.text
  | .unknownMode name => some (unknownText "mode" name (Mode.all.map Mode.name))
  | .noValue .configPath => some "The configuration has no path"
  | .noValue .limit => some "The limit on concurrency has no value"
  | .noValue .outputPath => some "The output has no path"
  | .notEncodable fault => some fault.message
  | .notToml _ fault => some fault.problem.message
  | .badTable .. | .badSettings _ => some (Text.tooManyDigits none)
  | .unknownFormat name => some (unknownText "format" name (Format.all.map Format.name))
  | _ => none

end Failure

end TypeAtlas
