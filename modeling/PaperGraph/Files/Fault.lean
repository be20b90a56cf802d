/-!
# Faults of the file system

Why the file system refuses to read or to write. The texts are those of the
operating system, with its numbers.
-/

namespace PaperGraph

/-- Why a file or a directory cannot be read or written. -/
inductive FileFault where
  /-- There is nothing at the path. -/
  | notFound
  /-- There is something at the path already. -/
  | exists
  /-- The path leads through a file. -/
  | notDirectory
  /-- A file is wanted and the path leads to a directory. -/
  | isDirectory
  /-- The path, or a name in it, is longer than paths may be. -/
  | nameTooLong
  /-- The path contains the character that ends all paths. -/
  | nul
  /-- The file does not hold a text. -/
  | notText
  /-- A directory and all those above it are missing. -/
  | noTree
deriving DecidableEq, Repr, Inhabited

/-- The wording of a fault. -/
def FileFault.message : FileFault → String
  | .notFound => "No such file or directory (os error 2)"
  | .exists => "File exists (os error 17)"
  | .notDirectory => "Not a directory (os error 20)"
  | .isDirectory => "Is a directory (os error 21)"
  | .nameTooLong => "File name too long (os error 36)"
  | .nul => "file name contained an unexpected NUL byte"
  | .notText => "stream did not contain valid UTF-8"
  | .noTree => "failed to create whole tree"

end PaperGraph
