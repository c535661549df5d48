import Backtrack.Cli.Run

/-! The program on the real file system. -/
namespace Backtrack

def osError : IO.Error → OsError
  | .noFileOrDirectory .. => .notFound
  | .alreadyExists .. => .alreadyExists
  | .inappropriateType _ code _ =>
    if code.toUInt8 = 20 || (0 - code).toUInt8 = 20 then .notDirectory else .isDirectory
  | error => .other (toString error)

def attempt {α : Type} (action : IO α) : IO (Except OsError α) := do
  try
    return .ok (← action)
  catch error => return .error (osError error)

def succeeds {α : Type} (action : IO α) : IO Bool := return (← attempt action).toBool

def disk : Files IO where
  read path := attempt do return (← IO.FS.readBinFile path).toList
  isPresent path := succeeds (IO.FS.realPath path)
  isDirectory path := succeeds (IO.FS.realPath (path ++ "/."))
  entries path := do
    try
      return ((← (← IO.FS.realPath path).readDir).map (·.fileName)).toList
    catch _ => return []
  makeDirectory path := attempt (IO.FS.createDir path)
  write path bytes := attempt (IO.FS.writeBinFile path ⟨bytes.toArray⟩)

end Backtrack

def main (args : List String) : IO UInt32 := do
  let home := (← IO.getEnv "HOME").getD "~"
  let printed ← Backtrack.Cli.run Backtrack.disk home args
  for line in printed.err do IO.eprintln line
  for line in printed.out do IO.println line
  return printed.code.toUInt32
