/-!
# File errors

Why a file cannot be read or written, with the wording and the number of the operating system.
-/

namespace CellHost

/-- Why a file operation failed. -/
inductive FileError where
  | notFound
  | isDirectory
  | notDirectory
  | nameTooLong
  | nulInName
  | alreadyExists
  /-- The file ended before everything wanted from it was read. -/
  | endOfFile
  /-- The file holds no text. -/
  | notText
  /-- A failure of any other kind. -/
  | other (reason : String)
  deriving DecidableEq, Repr, Inhabited

/-- Whether the error says that there is nothing of the name. -/
def FileError.isAbsence : FileError → Bool
  | notFound | notDirectory | nameTooLong | nulInName => true
  | _ => false

/-- The wording of a file error. -/
def FileError.message : FileError → String
  | notFound => "No such file or directory (os error 2)"
  | isDirectory => "Is a directory (os error 21)"
  | notDirectory => "Not a directory (os error 20)"
  | nameTooLong => "File name too long (os error 36)"
  | nulInName => "file name contained an unexpected NUL byte"
  | alreadyExists => "File exists (os error 17)"
  | endOfFile => "failed to fill whole buffer"
  | notText => "stream did not contain valid UTF-8"
  | other reason => reason

end CellHost
