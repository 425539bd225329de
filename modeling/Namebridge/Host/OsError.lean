/-!
# Refusals of the operating system

The reasons for which the operating system refuses to open, read or create a file, with the words
in which it reports them.
-/

namespace Namebridge

/-- Why the operating system refused an operation on a file or a directory. -/
inductive OsError where
  | notFound
  | alreadyExists
  | notADirectory
  | isADirectory
  | nameTooLong
  /-- The path has a character with code 0, which no path may have. -/
  | nulInPath
  /-- Any other refusal, in the words of the system. -/
  | other (text : String)
deriving DecidableEq, Repr

/-- The report of a refusal: what it is, and its number. -/
def OsError.message : OsError → String
  | notFound => "No such file or directory (os error 2)"
  | alreadyExists => "File exists (os error 17)"
  | notADirectory => "Not a directory (os error 20)"
  | isADirectory => "Is a directory (os error 21)"
  | nameTooLong => "File name too long (os error 36)"
  | nulInPath => "file name contained an unexpected NUL byte"
  | other text => text

end Namebridge
