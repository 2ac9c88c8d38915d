/-!
Why an operation on files fails.
-/

namespace StrongCyclic

/-- Why an operation on files fails. -/
inductive FileFault
  | notFound
  | permissionDenied
  | alreadyExists
  | notADirectory
  | isADirectory
  /-- The source of a copy is not a file. -/
  | notARegularFile
  /-- A path holds the character with code zero. -/
  | zeroInPath
  /-- An argument of a program holds the character with code zero. -/
  | zeroInArgument
  /-- No directory could be created on the way to a path. -/
  | noWholeTree
deriving DecidableEq, Repr, Inhabited

/-- The wording of a fault. -/
def FileFault.message : FileFault → String
  | .notFound => "No such file or directory (os error 2)"
  | .permissionDenied => "Permission denied (os error 13)"
  | .alreadyExists => "File exists (os error 17)"
  | .notADirectory => "Not a directory (os error 20)"
  | .isADirectory => "Is a directory (os error 21)"
  | .notARegularFile =>
    "the source path is neither a regular file nor a symlink to a regular file"
  | .zeroInPath => "file name contained an unexpected NUL byte"
  | .zeroInArgument => "nul byte found in provided data"
  | .noWholeTree => "failed to create whole tree"

end StrongCyclic
