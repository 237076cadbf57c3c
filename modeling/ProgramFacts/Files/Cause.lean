/-! Why an operation on files fails. -/

namespace ProgramFacts.Files

inductive Cause
  | notFound
  | alreadyExists
  | notDirectory
  | isDirectory
  /-- The bytes of a file are no text. -/
  | notText
  /-- A name has a zero character. -/
  | zeroByte
  | nameTooLong
  /-- Any other cause, with its text. -/
  | other (text : String)
deriving DecidableEq, Repr

def Cause.message : Cause → String
  | notFound => "No such file or directory (os error 2)"
  | alreadyExists => "File exists (os error 17)"
  | notDirectory => "Not a directory (os error 20)"
  | isDirectory => "Is a directory (os error 21)"
  | notText => "stream did not contain valid UTF-8"
  | zeroByte => "file name contained an unexpected NUL byte"
  | nameTooLong => "File name too long (os error 36)"
  | other text => text

end ProgramFacts.Files
