import LittleLang.Command.Options
import LittleLang.Decl.Language
import LittleLang.Files.Disk

/-!
The command `decl2py`: compiles declarations from files, or from the standard input if there are
none. The inputs are taken one after the other; one that fails is reported and counted. With a folder
for the results, an input is read after the results for those before it are written, which may be to
that input itself, and a result that cannot be written ends the run.
-/
namespace LittleLang.Command

/-- What the command needs of the place where it runs. Files and folders alone have faults: the
standard input can be read, and the standard output and error take what is written. -/
class Host (m : Type → Type) where
  /-- All of the standard input. -/
  readInput : m (List UInt8)
  readFile : String → m (Except FileFault (List UInt8))
  makeFolders : String → m (Except FileFault Unit)
  writeFile : String → List UInt8 → m (Except FileFault Unit)
  /-- Writes to the standard output. -/
  emit : List UInt8 → m Unit
  /-- Writes to the standard error. -/
  report : String → m Unit

/-- The line that lists a token. -/
def tokenLine (name : String) (t : Decl.Token) : String :=
  s!"{name}:{t.line}:{t.column}: {t.message}\n"

/-- The lines that show a syntax tree. -/
def treeLines (name : String) (tree : Decl.Node) : String :=
  name ++ ": " ++ (inspect tree).toText true ++ "\n"

/-- The report of a fault. One of the grammar names the token at which the reading stopped. -/
def describe (tokens : List Decl.Token) (fault : Fault) : String :=
  match fault with
  | .syntactic _ index =>
    match tokens[index]? with
    | some t => s!"{fault.message}\n  at line {t.line} column {t.column}: {t.message}"
    | none => s!"{fault.message}\n  at end of input"
  | _ => fault.message

/-- Compiles one input stage by stage. Returns what is listed on the way, and the result or the
report of a fault. -/
def translate (options : Options) (name : String) (source : List UInt8) :
    String × Except String (List UInt8) :=
  match Decl.tokenize source with
  | .error fault => ("", .error fault.message)
  | .ok tokens =>
    let listed := if options.tokens then String.join (tokens.map (tokenLine name)) else ""
    match Decl.parse tokens with
    | .error fault => (listed, .error (describe tokens fault))
    | .ok tree =>
      let shown := if options.tree then treeLines name tree else ""
      (listed ++ shown, (Decl.render tree).mapError Fault.message)

/-- Where the result for an input goes within a folder. -/
def outputPath (folder input : String) : String :=
  Path.join folder ((Path.fileStem? input).getD "out" ++ ".py")

/-- The report of a fault that ends the run. -/
def fatal (message : String) : String := s!"Error: {message}\n"

/-- The report of a fault of the disk that ends the run. -/
def fatalAt (activity path : String) (fault : FileFault) : String :=
  s!"Error: {activity} {path}\n\nCaused by:\n    {fault.message}\n"

/-- How the work on one input ended. -/
inductive Verdict where
  | done
  | failed
  /-- The run ends here, with a report. -/
  | aborted (message : String)
  deriving DecidableEq

section

variable {m : Type → Type} [Monad m] [Host m]

/-- Compiles one input and hands the result to `deliver`. -/
def compileInput (options : Options) (name : String) (source : List UInt8)
    (deliver : List UInt8 → m Verdict) : m Verdict := do
  let (listing, result) := translate options name source
  Host.report listing
  match result with
  | .ok output => deliver output
  | .error message =>
    Host.report s!"{name}: {message}\n"
    return .failed

/-- Writes a result to the standard output. -/
def toOutput (output : List UInt8) : m Verdict := do
  Host.emit output
  return .done

/-- Writes the result for an input into a folder. -/
def toFolder (folder input : String) (output : List UInt8) : m Verdict := do
  let target := outputPath folder input
  match ← Host.writeFile target output with
  | .ok () =>
    Host.report s!"{input}: wrote {target}\n"
    return .done
  | .error fault => return .aborted (fatalAt "writing" target fault)

/-- Compiles one file. -/
def compileFile (options : Options) (path : String) : m Verdict := do
  match ← Host.readFile path with
  | .error fault =>
    Host.report s!"{path}: {fault.message}\n"
    return .failed
  | .ok source =>
    compileInput options path source fun output =>
      match options.output with
      | some folder => toFolder folder path output
      | none => toOutput output

/-- Compiles files in their order. Returns how many failed, or the report that ends the run. -/
def compileFiles (options : Options) : List String → m (Except String Nat)
  | [] => return .ok 0
  | path :: rest => do
    match ← compileFile options path with
    | .aborted message => return .error message
    | .failed => return (· + 1) <$> (← compileFiles options rest)
    | .done => compileFiles options rest

/-- Compiles all inputs. Returns how many failed, or the report that ends the run. -/
def compileAll (options : Options) : m (Except String Nat) := do
  if options.files.isEmpty then
    match ← compileInput options "<stdin>" (← Host.readInput) toOutput with
    | .aborted message => return .error message
    | .failed => return .ok 1
    | .done => return .ok 0
  else
    compileFiles options options.files

/-- Makes the folder for the results, if one is asked for. -/
def makeOutput (options : Options) : m (Except String Unit) := do
  match options.output with
  | none => return .ok ()
  | some folder => return (← Host.makeFolders folder).mapError (fatalAt "creating" folder)

/-- Reports the end of the run and returns the exit code. -/
def finish : Except String Nat → m UInt8
  | .error message => do
    Host.report message
    return 1
  | .ok 0 => return 0
  | .ok failures => do
    Host.report s!"decl2py: {failures} input(s) failed\n"
    return 1

/-- Runs the command and returns the exit code. -/
def run (arguments : List String) : m UInt8 := do
  match Options.read arguments with
  | .error fault => finish (.error (fatal fault.message))
  | .ok options =>
    match ← makeOutput options with
    | .error message => finish (.error message)
    | .ok () => finish (← compileAll options)

end

end LittleLang.Command
