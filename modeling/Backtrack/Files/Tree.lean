import Backtrack.Assoc
import Backtrack.Files.Access

/-! A directory tree as a value. The working directory is its root; what lies outside is a directory
in which nothing is found. -/
namespace Backtrack

inductive FileTree where
  | file (bytes : Bytes)
  | directory (entries : List (String × FileTree))

namespace FileTree

def empty : FileTree := directory []

def child? : FileTree → String → Option FileTree
  | file _, _ => none
  | directory entries, name => entries.lookup name

def at? (tree : FileTree) : List String → Option FileTree
  | [] => some tree
  | name :: names => (tree.child? name).bind (·.at? names)

/-- Puts `new` at a place, with the directories that lead there. -/
def put (tree : FileTree) : List String → FileTree → FileTree
  | [], new => new
  | name :: names, new =>
    match tree with
    | file bytes => file bytes
    | directory entries =>
      directory (Assoc.set name (((entries.lookup name).getD empty).put names new) entries)

/-- A place inside the tree by names from the root, or `none` outside of it. -/
abbrev Place := Option (List String)

def maxNameSize : Nat := 255

/-- The place that a component leads to. -/
def step (tree : FileTree) (place : Place) (component : String) : Except OsError Place :=
  let stays := component = "" || component = "."
  match place with
  | none => if stays || component = ".." then .ok none else .error .notFound
  | some names =>
    match tree.at? names with
    | none => .error .notFound
    | some (file _) => .error .notDirectory
    | some (directory entries) =>
      if stays then .ok place
      else if component = ".." then .ok (if names = [] then none else some names.dropLast)
      else if maxNameSize < component.utf8ByteSize then .error .nameTooLong
      else if (entries.lookup component).isSome then .ok (some (names ++ [component]))
      else .error .notFound

def resolve (tree : FileTree) (path : String) : Except OsError Place :=
  if '\x00' ∈ path.toList then .error .nulInName
  else if path = "" then .error .notFound
  else (Path.split path).foldlM tree.step (if Path.isAbsolute path then none else some [])

def find (tree : FileTree) (path : String) : Except OsError FileTree := do
  match ← tree.resolve path with
  | none => return empty
  | some names =>
    match tree.at? names with
    | some found => return found
    | none => throw .notFound

def read (tree : FileTree) (path : String) : Except OsError Bytes := do
  match ← tree.find path with
  | file bytes => return bytes
  | directory _ => throw .isDirectory

def isPresent (tree : FileTree) (path : String) : Bool := (tree.find path).toBool

def isDirectory (tree : FileTree) (path : String) : Bool :=
  match tree.find path with
  | .ok (directory _) => true
  | _ => false

def entries (tree : FileTree) (path : String) : List String :=
  match tree.find path with
  | .ok (directory entries) => entries.map (·.1)
  | _ => []

/-- The directory that holds the end of a path, the name there, and whether a slash follows it. -/
def target (tree : FileTree) (path : String) : Except OsError (Place × String × Bool) := do
  if '\x00' ∈ path.toList then throw .nulInName
  let pieces := (Path.split path).reverse
  match pieces.dropWhile (· = "") with
  | [] => throw (if path = "" then .notFound else .isDirectory)
  | name :: above =>
    let start : Place := if Path.isAbsolute path then none else some []
    return (← above.reverse.foldlM tree.step start, name, pieces.head? == some "")

def makeDirectory (tree : FileTree) (path : String) : Except OsError FileTree := do
  match tree.find path with
  | .ok _ => throw .alreadyExists
  | .error _ =>
    let (place, name, _) ← tree.target path
    match place with
    | none => throw .notFound
    | some names =>
      match tree.at? names with
      | some (directory _) => return tree.put (names ++ [name]) empty
      | _ => throw .notDirectory

def write (tree : FileTree) (path : String) (bytes : Bytes) : Except OsError FileTree := do
  let (place, name, slash) ← tree.target path
  match place with
  | none => throw .notFound
  | some names =>
    match tree.at? names with
    | some (directory inside) =>
      if name = "." || name = ".." then throw .isDirectory
      else if maxNameSize < name.utf8ByteSize then throw .nameTooLong
      else match inside.lookup name, slash with
        | some (directory _), _ => throw .isDirectory
        | some (file _), true => throw .notDirectory
        | none, true => throw .isDirectory
        | _, false => return tree.put (names ++ [name]) (file bytes)
    | _ => throw .notDirectory

/-- A tree from paths, each with the bytes of a file or with nothing for a directory. -/
def ofList (items : List (String × Option Bytes)) : FileTree :=
  items.foldl (fun tree (path, bytes) =>
    let names := Path.components path
    match bytes with
    | some bytes => tree.put names (file bytes)
    | none => if (tree.at? names).isSome then tree else tree.put names empty) empty

/-- The tree as a file system whose state it is. -/
def files : Files (StateM FileTree) where
  read path tree := (tree.read path, tree)
  isPresent path tree := (tree.isPresent path, tree)
  isDirectory path tree := (tree.isDirectory path, tree)
  entries path tree := (tree.entries path, tree)
  makeDirectory path tree :=
    match tree.makeDirectory path with
    | .ok tree => (.ok (), tree)
    | .error error => (.error error, tree)
  write path bytes tree :=
    match tree.write path bytes with
    | .ok tree => (.ok (), tree)
    | .error error => (.error error, tree)

end FileTree
end Backtrack
