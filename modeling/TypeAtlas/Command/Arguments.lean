import TypeAtlas.Command.Option
import TypeAtlas.Command.Run
import TypeAtlas.Text.Numeral

namespace TypeAtlas.Command

/-- What the options of a command line ask for. -/
structure Arguments where
  mode : Given Mode := .value .project
  format : Given Format := .value .text
  output : Option (Given Path) := none
  config : Option (Given Path) := none
  maxConcurrency : Option (Given Int) := none
  isNoCancel : Bool := false
  isVerbose : Bool := false
  deriving DecidableEq, Repr, Inhabited

/-- What one argument is, before it is known what stands around it. -/
inductive Word
  /-- An option under one of its spellings, and a value if the argument holds one. -/
  | option (s : Switch) (spelling : Text) (value : Option Text)
  /-- Something written like an option that is none. -/
  | unknown (argument : Text)
  | plain (argument : Text)
  /-- The two hyphens after which everything is plain. -/
  | separator
  deriving DecidableEq, Repr, Inhabited

namespace Word

/-- Whether an argument is written like a negative number. -/
def isNegativeNumber (argument : Text) : Bool :=
  let isDecimal := fun c => (Text.decimalValue? c).isSome
  match argument with
  | [] => false
  | sign :: number =>
    let number := if number.getLast? = some '\n'.toNat then number.dropLast else number
    sign = '-'.toNat &&
      match number.dropWhile isDecimal with
      | [] => !number.isEmpty
      | point :: fraction => point = '.'.toNat && !fraction.isEmpty && fraction.all isDecimal

/-- The part before the first equals sign, and the part after it. -/
def splitAtEquals (argument : Text) : Text × Option Text :=
  match argument.dropWhile (· ≠ '='.toNat) with
  | [] => (argument, none)
  | _ :: value => (argument.takeWhile (· ≠ '='.toNat), some value)

/-- The options that an argument may stand for: one whose name it shortens, or one whose short name
it starts with, so that the rest is a value or more short names. -/
def candidates (argument : Text) : List (Text × Switch × Option Text) :=
  if ("--" : Text).isPrefixOf argument then
    let (start, value) := splitAtEquals argument
    Switch.table.filterMap fun (spelling, s) =>
      if start.isPrefixOf (spelling : Text) then some (spelling, s, value) else none
  else
    Switch.table.filterMap fun (spelling, s) =>
      if (spelling : Text) = argument.take 2 then some (spelling, s, some (argument.drop 2))
      else if argument.isPrefixOf (spelling : Text) then some (spelling, s, none)
      else none

/-- What an argument is by itself. One without a hyphen in front is plain, and so is a lone
hyphen. -/
def ofArgument (argument : Text) : Except UsageFault Word :=
  if argument.head? ≠ some '-'.toNat || argument.length = 1 then .ok (.plain argument)
  else match Switch.ofSpelling? argument with
    | some s => .ok (.option s argument none)
    | none =>
      let (start, value) := splitAtEquals argument
      match value, Switch.ofSpelling? start with
      | some value, some s => .ok (.option s start (some value))
      | _, _ =>
        match candidates argument with
        | [(spelling, s, value)] => .ok (.option s spelling value)
        | [] =>
          if isNegativeNumber argument || argument.contains ' '.toNat then .ok (.plain argument)
          else .ok (.unknown argument)
        | found => .error (.ambiguous argument (found.map (·.1)))

/-- What all arguments are. -/
def ofArguments : List Text → Except UsageFault (List Word)
  | [] => .ok []
  | argument :: rest =>
    if argument = "--" then .ok (.separator :: rest.map .plain)
    else do
      let word ← ofArgument argument
      return word :: (← ofArguments rest)

end Word

/-- What a command line asks for: an analysis of a path, or the help page. -/
inductive Wish
  | run (path : Path) (arguments : Arguments)
  | help
  deriving DecidableEq, Repr, Inhabited

namespace Arguments

/-- Reads the value of an option. -/
def given {α : Type} (value : Text) (read : Text → Except UsageFault α) :
    Except UsageFault (Given α) :=
  if value = "--" then .ok .nothing else (read value).map .value

/-- One of some choices, by its name. -/
def choice {α : Type} (s : Switch) (all : List α) (name : α → String) (value : Text) :
    Except UsageFault α :=
  match all.find? fun a => name a = value with
  | some a => .ok a
  | none => .error (.noSuchChoice s value (all.map fun a => name a))

def integer (s : Switch) (value : Text) : Except UsageFault Int :=
  match Text.integer? 10 value with
  | some n => .ok n
  | none => .error (.notAnInteger s value)

/-- Sets an option that takes a value. -/
def setValue (a : Arguments) (s : Switch) (value : Text) : Except UsageFault Arguments := do
  let path : Text → Except UsageFault Path := fun v => .ok (.ofText v)
  match s with
  | .mode => return { a with mode := ← given value (choice s Mode.all Mode.name) }
  | .format => return { a with format := ← given value (choice s Format.all Format.name) }
  | .output => return { a with output := some (← given value path) }
  | .config => return { a with config := some (← given value path) }
  | .maxConcurrency => return { a with maxConcurrency := some (← given value (integer s)) }
  | .help | .noCancel | .verbose => return a

/-- Sets an option that takes none. The help page ends the reading. -/
def setFlag (a : Arguments) : Switch → Option Arguments
  | .help => none
  | .noCancel => some { a with isNoCancel := true }
  | .verbose => some { a with isVerbose := true }
  | _ => some a

/-- What one argument holds: flags that are written together, and with them perhaps an option whose
value stands in the same argument or is still to come. -/
inductive Cluster
  | flags (flags : List Switch)
  | valued (flags : List Switch) (s : Switch) (value : Text)
  | pending (flags : List Switch) (s : Switch)
  deriving DecidableEq, Repr, Inhabited

/-- Reads the characters after the short name of an option as its value, or as more short names if
it takes none. -/
def cluster (flags : List Switch) (s : Switch) : Text → Except UsageFault Cluster
  | [] => if s.takesValue then .ok (.pending flags s) else .ok (.flags (flags ++ [s]))
  | c :: rest =>
    if s.takesValue then .ok (.valued flags s (c :: rest))
    else match Switch.ofSpelling? ['-'.toNat, c] with
      | some next => cluster (flags ++ [s]) next rest
      | none => .error (.valueIgnored s (c :: rest))

/-- What an option with its argument asks for. Only a short name can be followed by others. -/
def readOption (s : Switch) (spelling : Text) (value : Option Text) :
    Except UsageFault Cluster :=
  match value with
  | none => cluster [] s []
  | some value =>
    if s.takesValue then .ok (.valued [] s value)
    else if ("--" : Text).isPrefixOf spelling || value.isEmpty then
      .error (.valueIgnored s value)
    else cluster [] s value

/-- Sets flags one after the other, unless the help page is asked for. -/
def setFlags (a : Arguments) : List Switch → Option Arguments
  | [] => some a
  | s :: rest => (a.setFlag s).bind fun a => a.setFlags rest

/-- Goes through the words. The first plain one is the path, along with a separator before or after
it; what else is plain is left over, and so is what is unknown. -/
def read (a : Arguments) (path : Option Path) (extras : List Text) :
    List Word → Except UsageFault Wish
  | [] =>
    match path with
    | none => .error .pathMissing
    | some path => if extras.isEmpty then .ok (.run path a) else .error (.unrecognized extras)
  | .unknown argument :: rest => a.read path (extras ++ [argument]) rest
  | .plain argument :: .separator :: rest =>
    if path.isNone then a.read (some (.ofText argument)) extras rest
    else a.read path (extras ++ [argument, Text.ofString "--"]) rest
  | .plain argument :: rest =>
    if path.isNone then a.read (some (.ofText argument)) extras rest
    else a.read path (extras ++ [argument]) rest
  | .separator :: rest =>
    if path.isNone && !rest.isEmpty then a.read path extras rest
    else a.read path (extras ++ [Text.ofString "--"]) rest
  | .option s spelling value :: rest => do
    match ← readOption s spelling value with
    | .flags flags =>
      match a.setFlags flags with
      | none => return .help
      | some a => a.read path extras rest
    | .valued flags s value =>
      match a.setFlags flags with
      | none => return .help
      | some a => (← a.setValue s value).read path extras rest
    | .pending flags s =>
      match rest with
      | .plain value :: rest =>
        match a.setFlags flags with
        | none => return .help
        | some a => (← a.setValue s value).read path extras rest
      | _ => throw (.valueMissing s)

/-- What a command line asks for. -/
def ofList (arguments : List Text) : Except UsageFault Wish := do
  read {} none [] (← Word.ofArguments arguments)

end Arguments

end TypeAtlas.Command
