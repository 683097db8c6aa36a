import TypeAtlas.Text.Utf8

namespace TypeAtlas

/-- Why a file or folder cannot be used. -/
inductive FileFault
  | notFound
  | alreadyExists
  | notAFolder
  | isAFolder
  | nameTooLong
  | tooManyLinks
  /-- A path with a null character in it names nothing. -/
  | nullCharacter
  /-- A path with a surrogate in it that stands for no byte names nothing. -/
  | notEncodable (fault : Text.EncodingFault)
  | invalidArgument
  deriving DecidableEq, Repr, Inhabited

namespace FileFault

/-- The number of a fault, of those that the system reports. -/
def number? : FileFault → Option Nat
  | .notFound => some 2
  | .alreadyExists => some 17
  | .notAFolder => some 20
  | .isAFolder => some 21
  | .invalidArgument => some 22
  | .nameTooLong => some 36
  | .tooManyLinks => some 40
  | .nullCharacter | .notEncodable _ => none

def message : FileFault → Text
  | .notFound => "No such file or directory"
  | .alreadyExists => "File exists"
  | .notAFolder => "Not a directory"
  | .isAFolder => "Is a directory"
  | .nameTooLong => "File name too long"
  | .tooManyLinks => "Too many levels of symbolic links"
  | .nullCharacter => "embedded null byte"
  | .notEncodable fault => fault.message
  | .invalidArgument => "Invalid argument"

end FileFault

end TypeAtlas
