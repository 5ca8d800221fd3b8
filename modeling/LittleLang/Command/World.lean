import LittleLang.Command.Run

/-!
The command on a disk that is a value.
-/
namespace LittleLang.Command

/-- What a run of the command reads and what it leaves behind. -/
structure World where
  input : List UInt8
  disk : Disk
  /-- What was written to the standard output. -/
  output : List UInt8
  /-- What was written to the standard error. -/
  log : String

namespace World

instance : Host (StateM World) where
  readInput := return (← get).input
  readFile path := return (← get).disk.read path
  makeFolders path := fun w =>
    let result := w.disk.makeFolders path
    (result.1, { w with disk := result.2 })
  writeFile path content := fun w =>
    match w.disk.write path content with
    | .ok disk => (.ok (), { w with disk := disk })
    | .error fault => (.error fault, w)
  emit bytes := modify fun w => { w with output := w.output ++ bytes }
  report text := modify fun w => { w with log := w.log ++ text }

/-- Runs the command. Returns the exit code and what the run leaves behind. -/
def run (arguments : List String) (w : World) : UInt8 × World :=
  (Command.run arguments : StateM World UInt8) w

end World

end LittleLang.Command
