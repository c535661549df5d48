import Backtrack.Config.Parser
import Backtrack.Files.Access

/-! Config files from their paths. A file is made ready for the grammar first: zero bytes turn into
spaces, and a line break is added, so that the last line always ends. -/
namespace Backtrack.Config

inductive FileError where
  | noFileName
  | cantOpen (path : String) (error : OsError)
  | emptyFile (path : String)
  deriving DecidableEq

namespace FileError

def outcome : FileError → Outcome
  | noFileName => .noFileName
  | cantOpen _ _ => .cantOpenFile
  | emptyFile _ => .emptyFile

def message : FileError → String
  | noFileName => "No file name provided for parsing"
  | cantOpen path error => s!"Could not open file at {path}: {error.message}"
  | emptyFile path => s!"File at {path} has no contents"

end FileError

def prepared (contents : Bytes) : Bytes :=
  contents.map (fun b => if b = 0 then 0x20 else b) ++ [0x0A]

variable {m : Type → Type} [Monad m]

def contentsOf (files : Files m) (path : String) : m (Except FileError Bytes) := do
  if path = "" then return .error .noFileName
  match ← files.read path with
  | .error error => return .error (.cantOpen path error)
  | .ok [] => return .error (.emptyFile path)
  | .ok contents => return .ok (prepared contents)

/-- Parses the file at a path. A file that cannot be read leaves the parser as it was. -/
def Parser.parseFile {σ : Type} (p : Parser) (files : Files m) (path : String) (client : Client σ)
    (world : σ) : m (Parsed σ) := do
  match ← contentsOf files path with
  | .error error => return ⟨p, world, .ok error.outcome⟩
  | .ok contents => return p.parse contents.toArray client world

end Backtrack.Config
