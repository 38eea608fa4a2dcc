/-! System faults are the reasons for which a single operation on files fails. -/

namespace Stocktake

/-- Why an operation on files fails. -/
inductive SystemFault
  | missing
  | alreadyExists
  | notDirectory
  | isDirectory
  /-- The place cannot be replaced, such as the root or a dot step. -/
  | busy
  | tooManyLinks
  | nameTooLong
  | invalidArgument
  /-- A path holds a null character, which no name can hold. -/
  | nullInPath
  /-- A content that has to be a text is not UTF-8. -/
  | notText
  /-- A device fails in its own words. -/
  | device (message : String)
  /-- A new file could not be prepared in a directory. -/
  | staging (directory : String) (cause : SystemFault)
  deriving DecidableEq, Repr

/-- The wording of a fault. -/
def SystemFault.message : SystemFault → String
  | .missing => "No such file or directory (os error 2)"
  | .alreadyExists => "File exists (os error 17)"
  | .notDirectory => "Not a directory (os error 20)"
  | .isDirectory => "Is a directory (os error 21)"
  | .busy => "Device or resource busy (os error 16)"
  | .tooManyLinks => "Too many levels of symbolic links (os error 40)"
  | .nameTooLong => "File name too long (os error 36)"
  | .invalidArgument => "Invalid argument (os error 22)"
  | .nullInPath => "file name contained an unexpected NUL byte"
  | .notText => "stream did not contain valid UTF-8"
  | .device message => message
  | .staging directory cause => cause.message ++ " at path \"" ++ directory ++ "\""

end Stocktake
