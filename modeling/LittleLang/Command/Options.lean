/-!
The options of the command line.
-/
namespace LittleLang.Command

/-- What the arguments ask for. -/
structure Options where
  /-- Whether the tokens of each input are listed. -/
  tokens : Bool
  /-- Whether the syntax tree of each input is listed. -/
  tree : Bool
  /-- The folder that the results are written to. -/
  output : Option String
  /-- The inputs, in their order. -/
  files : List String
  deriving DecidableEq

/-- Why arguments are refused. -/
inductive OptionFault where
  | unknown (argument : String)
  | missingFolder
  deriving DecidableEq

/-- The report of the fault. -/
def OptionFault.message : OptionFault → String
  | .unknown argument => "unknown option " ++ argument
  | .missingFolder => "--output needs a directory"

namespace Options

/-- Nothing asked for. -/
def none : Options := ⟨false, false, .none, []⟩

/-- Reads arguments from left to right, after those that gave `options`. -/
def readAfter (options : Options) : List String → Except OptionFault Options
  | [] => .ok options
  | argument :: rest =>
    if argument = "--tokens" ∨ argument = "-t" then readAfter { options with tokens := true } rest
    else if argument = "--tree" ∨ argument = "-T" then readAfter { options with tree := true } rest
    else if argument = "--output" ∨ argument = "-o" then
      match rest with
      | folder :: rest => readAfter { options with output := some folder } rest
      | [] => .error .missingFolder
    else if argument.toList.head? = some '-' then .error (.unknown argument)
    else readAfter { options with files := options.files ++ [argument] } rest

/-- Reads arguments from left to right. -/
def read (arguments : List String) : Except OptionFault Options := none.readAfter arguments

end Options

end LittleLang.Command
