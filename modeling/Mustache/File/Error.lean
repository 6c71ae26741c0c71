import Mustache.Text.Quoted

/-!
# Faults of files

Why a file could not be read or written.
-/

namespace Mustache.File

/-- The causes of a fault. -/
inductive Cause
  | missing
  | notADirectory
  | isADirectory
  | nameTooLong
  deriving DecidableEq, Repr

/-- The number that stands for a cause. -/
def Cause.code : Cause → Nat
  | missing => 2
  | notADirectory => 20
  | isADirectory => 21
  | nameTooLong => 36

/-- The words for a cause. -/
def Cause.words : Cause → String
  | missing => "No such file or directory"
  | notADirectory => "Not a directory"
  | isADirectory => "Is a directory"
  | nameTooLong => "File name too long"

/-- What is wrong with a path. -/
inductive Error
  /-- The file system refuses the path as it is written. -/
  | refused (cause : Cause) (path : String)
  /-- The path has a null character, which no path can have. -/
  | embeddedNull
  deriving DecidableEq, Repr

/-- The message of a fault. -/
def Error.message : Error → String
  | refused cause path =>
    "[Errno " ++ toString cause.code ++ "] " ++ cause.words ++ ": " ++ Text.quoted path
  | embeddedNull => "embedded null byte"

end Mustache.File
