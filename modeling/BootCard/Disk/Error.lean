/-!
What can go wrong when a program asks the system for something.
-/

namespace BootCard

inductive Errno where
  | noEntry
  | noExec
  | accessDenied
  | busy
  | exists
  | notDirectory
  | isDirectory
  | invalid
  | nameTooLong
  | notEmpty
  | tooManyLinks
deriving DecidableEq, Repr

namespace Errno

def code : Errno → Nat
  | .noEntry => 2
  | .noExec => 8
  | .accessDenied => 13
  | .busy => 16
  | .exists => 17
  | .notDirectory => 20
  | .isDirectory => 21
  | .invalid => 22
  | .nameTooLong => 36
  | .notEmpty => 39
  | .tooManyLinks => 40

def words : Errno → String
  | .noEntry => "No such file or directory"
  | .noExec => "Exec format error"
  | .accessDenied => "Permission denied"
  | .busy => "Device or resource busy"
  | .exists => "File exists"
  | .notDirectory => "Not a directory"
  | .isDirectory => "Is a directory"
  | .invalid => "Invalid argument"
  | .nameTooLong => "File name too long"
  | .notEmpty => "Directory not empty"
  | .tooManyLinks => "Too many levels of symbolic links"

end Errno

inductive IoError where
  | refused (e : Errno)
  | notText
  | zeroInArgument
  | zeroInPath
deriving DecidableEq, Repr

namespace IoError

def message : IoError → String
  | .refused e => s!"{e.words} (os error {e.code})"
  | .notText => "stream did not contain valid UTF-8"
  | .zeroInArgument => "nul byte found in provided data"
  | .zeroInPath => "file name contained an unexpected NUL byte"

end IoError

instance : Coe Errno IoError := ⟨.refused⟩

end BootCard
