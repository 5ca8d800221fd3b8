import LittleLang.Command.Run

/-!
The command on the computer's own disk.
-/
namespace LittleLang.Main

open Command

/-- The fault behind an error of the system. -/
def fileFault : IO.Error → FileFault
  | .noFileOrDirectory _ _ _ => .notFound
  | .alreadyExists _ 17 _ => .alreadyExists
  | .inappropriateType _ 20 _ => .notAFolder
  | .inappropriateType _ 21 _ => .isAFolder
  | .alreadyExists _ code details | .inappropriateType _ code details
  | .interrupted _ code details | .invalidArgument _ code details
  | .permissionDenied _ code details | .resourceExhausted _ code details
  | .noSuchThing _ code details | .otherError code details | .resourceBusy code details
  | .resourceVanished code details | .unsupportedOperation code details
  | .hardwareFault code details | .unsatisfiedConstraints code details
  | .illegalOperation code details | .protocolError code details | .timeExpired code details =>
    .other s!"{details} (os error {code})"
  | .unexpectedEof => .other "end of file"
  | .userError message => .other message

/-- Runs an action and returns its fault, if it has one. -/
def attempt {α : Type} (action : IO α) : IO (Except FileFault α) := do
  try
    return .ok (← action)
  catch error =>
    return .error (fileFault error)

/-- All bytes that a stream still has, after those already read. -/
partial def readToEnd (stream : IO.FS.Stream) (before : ByteArray) : IO (List UInt8) := do
  let bytes ← stream.read 65536
  if bytes.isEmpty then return before.toList else readToEnd stream (before ++ bytes)

/-- Makes a folder with those above it. The empty path needs none. -/
def makeFolders (path : String) : IO (Except FileFault Unit) := do
  if path.isEmpty then return .ok ()
  match ← attempt (IO.FS.createDir path) with
  | .error .notFound | .error .alreadyExists => attempt (IO.FS.createDirAll path)
  | result => return result

instance : Host IO where
  readInput := do readToEnd (← IO.getStdin) .empty
  readFile path := attempt do
    readToEnd (.ofHandle (← IO.FS.Handle.mk path .read)) .empty
  makeFolders := makeFolders
  writeFile path content := attempt do
    let file ← IO.FS.Handle.mk path .write
    file.write ⟨content.toArray⟩
    -- A full disk may show no sooner than here.
    file.flush
  emit bytes := do (← IO.getStdout).write ⟨bytes.toArray⟩
  report text := do (← IO.getStderr).putStr text

end LittleLang.Main

/-- Runs the command on its arguments. -/
def main (arguments : List String) : IO UInt32 :=
  return (← LittleLang.Command.run arguments).toUInt32
