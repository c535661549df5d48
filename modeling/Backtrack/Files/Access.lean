import Backtrack.Files.Path
import Backtrack.Text.Utf8

/-! What the library needs of a file system, in any monad. -/
namespace Backtrack

inductive OsError where
  | notFound
  | alreadyExists
  | notDirectory
  | isDirectory
  | nameTooLong
  | nulInName
  | other (text : String)
  deriving DecidableEq

def OsError.message : OsError → String
  | notFound => "No such file or directory (os error 2)"
  | alreadyExists => "File exists (os error 17)"
  | notDirectory => "Not a directory (os error 20)"
  | isDirectory => "Is a directory (os error 21)"
  | nameTooLong => "File name too long (os error 36)"
  | nulInName => "file name contained an unexpected NUL byte"
  | other text => text

structure Files (m : Type → Type) where
  read : String → m (Except OsError Bytes)
  isPresent : String → m Bool
  isDirectory : String → m Bool
  /-- The names in a directory, in any order. -/
  entries : String → m (List String)
  makeDirectory : String → m (Except OsError Unit)
  write : String → Bytes → m (Except OsError Unit)

namespace Files

variable {m : Type → Type} [Monad m]

/-- Makes a directory and those above it. The components come last first. -/
def makeAll (files : Files m) (root : String) : List String → m (Except OsError Unit)
  | [] => return .ok ()
  | name :: above => do
    let path := root ++ "/".intercalate (name :: above).reverse
    let settled (error : OsError) : m (Except OsError Unit) := do
      return if ← files.isDirectory path then .ok () else .error error
    match ← files.makeDirectory path with
    | .ok () => return .ok ()
    | .error .notFound =>
      match ← files.makeAll root above with
      | .error error => return .error error
      | .ok () =>
        match ← files.makeDirectory path with
        | .ok () => return .ok ()
        | .error error => settled error
    | .error error => settled error

/-- Makes the directories that lead to a path. -/
def makeParents (files : Files m) (path : String) : m (Except OsError Unit) :=
  files.makeAll (if Path.isAbsolute path then "/" else "") (Path.components path).reverse.tail

end Files
end Backtrack
