import TypeAtlas.Failure

namespace TypeAtlas

inductive Level
  | debug
  | info
  | warning
  | error
  deriving DecidableEq, Repr, Inhabited

/-- Something worth telling about a run while it goes on. -/
inductive Note
  | usingFile (path : Path)
  | usingToolTable (path : Path)
  | analyzing (mode : Given Text) (path : Path) (settings : Settings)
  | entryPoint (project entry : Path)
  | skippedLink (folder : Path) (name : Text)
  | classDone (className packageName : Text) (dependencyCount : Nat)
  | packageDone (path : Path) (classCount subpackageCount : Nat)
  | calledOff (count : Nat)
  | wrote (path : Path)
  | failed (diagnostic : Diagnostic)
  | causedBy (cause : Cause)
  deriving Inhabited

namespace Note

def level : Note → Level
  | .wrote _ => .info
  | .skippedLink .. => .warning
  | .failed _ => .error
  | _ => .debug

/-- The path of a folder with the path of an entry after it. The dot of the empty path stays. -/
def entryText (folder : Path) (name : Text) : Text :=
  if folder.names = [] && folder.root ≠ .none then folder.text ++ name
  else folder.text ++ "/" ++ name

/-- The line of a note, unless it holds settings that cannot be shown. -/
def text? : Note → Option Text
  | .usingFile path => some ("Using configuration from " ++ path.text)
  | .usingToolTable path => some ("Using [tool.javadeps] from " ++ path.text)
  | .analyzing mode path settings => do
    return "Analyzing " ++ mode.shown id ++ " " ++ path.text ++ " with " ++ (← settings.text?)
  | .entryPoint project entry =>
    some ("Entry point for " ++ project.text ++ ": " ++ entry.text)
  | .skippedLink folder name =>
    some ("Skipping symlinked directory " ++ entryText folder name)
  | .classDone className packageName count =>
    some ("Class " ++ className ++ " (" ++ packageName ++ "): " ++ toString count ++
      " dependencies")
  | .packageDone path classes subpackages =>
    some ("Package " ++ path.text ++ ": " ++ toString classes ++ " classes, " ++
      toString subpackages ++ " subpackages")
  | .calledOff count =>
    some ("Cancelled " ++ toString count ++ " outstanding task(s) after failure")
  | .wrote path => some ("Wrote " ++ path.text)
  | .failed d => some ((d.kind.name ++ ": ") ++ d.text)
  | .causedBy cause => some ("Caused by: " ++ cause.text)

/-- Whether a note is shown. Only on request are all of them. -/
def isShown (isVerbose : Bool) (n : Note) : Bool :=
  match n.level with
  | .warning | .error => true
  | .debug | .info => isVerbose

end Note

end TypeAtlas
