import Backtrack.Text.Pieces

/-! Paths as text, with components between slashes. -/
namespace Backtrack.Path

/-- The text between slashes, with empty pieces where slashes meet or end the path. -/
def split (path : String) : List String := (Text.pieces '/' path.toList).map String.ofList

def isAbsolute (path : String) : Bool := path.toList.head? == some '/'

/-- The components that name something: doubled slashes and inner dots do not. -/
def components (path : String) : List String :=
  match split path with
  | [] => []
  | first :: rest =>
    (if first = "" then [] else [first]) ++ rest.filter fun c => c ≠ "" && c ≠ "."

def join (base name : String) : String :=
  if base = "" || base.toList.getLast? == some '/' then base ++ name else base ++ "/" ++ name

/-- The name at the end of a path. A path that ends in two dots has none. -/
def fileName? (path : String) : Option String :=
  match (components path).getLast? with
  | some name => if name = ".." || name = "." then none else some name
  | none => none

end Backtrack.Path
